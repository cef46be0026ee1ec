/-
Module: RobotScript.Proofs.TreeSpans
Purpose: The spans in the program of a script are exact. The span of a statement or of a block is
  merged from those of two tokens only, the first and the last that it was read from, and the start
  of a statement waits for its end while any number of blocks is opened and closed. But the tokens of
  a script stand in sequence, so this span covers all tokens between the two. Hence statements that
  follow each other stand one behind the other, and what is read from some of the tokens of a part
  stands within it.
Main exports: Sequenced.covers, StmtsReadFrom.pairwise, Stmt.Placed, Block.Placed,
  Program.IsTree.blocks_readFrom, script_spans_are_exact
-/
import RobotScript.Proofs.ParserReading
import RobotScript.Proofs.SpanOrder

namespace RobotScript

/-! ### Spans of what is read -/

/-- The condition that a statement reads, with its place. -/
def Stmt.ident? : Stmt → Option Ident
  | conditional condition _ _ _ => some condition
  | loop condition _ _ => some condition
  | _ => none

/-- Between tokens in sequence nothing stands outside the span that joins the first and the last. -/
theorem Sequenced.covers {tokens : List Token} (sequenced : Sequenced tokens) {span : Span}
    (joins : span.Joins tokens) : span.Covers tokens := by
  obtain ⟨first, last, head, final, rfl⟩ := joins
  exact sequenced.merge_covers head final

section Spans

variable {program : Program} {tokens : List Token}

/-- The condition of a statement is one of its tokens. -/
theorem Stmt.ReadFrom.ident {stmt : Stmt} (readFrom : stmt.ReadFrom program tokens)
    {condition : Ident} (reads : stmt.ident? = some condition) :
    ⟨.identifier condition.name, condition.span⟩ ∈ tokens := by
  cases readFrom with
  | action => cases reads
  | block => cases reads
  | repeated => cases reads
  | conditional =>
      obtain rfl := Option.some.inj reads
      exact List.mem_cons_of_mem _ List.mem_cons_self
  | alternative =>
      obtain rfl := Option.some.inj reads
      exact List.mem_cons_of_mem _ List.mem_cons_self
  | loop =>
      obtain rfl := Option.some.inj reads
      exact List.mem_cons_of_mem _ List.mem_cons_self

/-- Statements stand one behind the other. -/
theorem StmtsReadFrom.pairwise {stmts : List Stmt} (readFrom : StmtsReadFrom program stmts tokens)
    (sequenced : Sequenced tokens) :
    stmts.Pairwise fun first second => ∃ before after, first.span? program = some before ∧
      second.span? program = some after ∧ before.Before after := by
  induction stmts generalizing tokens with
  | nil => exact .nil
  | cons first later inductionHypothesis =>
      cases readFrom with
      | @cons _ _ front back firstRead rest =>
          have inFront := sequenced.sublist (List.sublist_append_left front back)
          have inBack := sequenced.sublist (List.sublist_append_right front back)
          refine List.pairwise_cons.mpr ⟨fun second member => ?_, inductionHypothesis rest inBack⟩
          obtain ⟨part, inside, secondRead⟩ := rest.mem member
          obtain ⟨before, firstSpan, firstJoins⟩ := firstRead.span
          obtain ⟨after, secondSpan, secondJoins⟩ := secondRead.span
          have covers := inFront.covers firstJoins
          have covered := (inBack.sublist inside.sublist).covers secondJoins
          exact ⟨before, after, firstSpan, secondSpan,
            covers.before sequenced covered inside.subset⟩

end Spans

/-! ### Scripts -/

/-- The statement, its blocks and its condition stand where their tokens do. -/
structure Stmt.Placed (program : Program) (tokens : List Token) (stmt : Stmt) (span : Span) :
    Prop where
  readFrom : stmt.ReadFrom program tokens
  found : stmt.span? program = some span
  covers : span.Covers tokens
  blocks : ∀ inner ∈ stmt.blocks, ∃ block, program.block? inner = some block ∧
    block.span.Within span
  condition : ∀ condition, stmt.ident? = some condition →
    ⟨.identifier condition.name, condition.span⟩ ∈ tokens ∧ condition.span.Within span

/-- The block stands where its tokens do, and its statements within it, one behind the other. -/
structure Block.Placed (program : Program) (tokens : List Token) (block : Block) : Prop where
  covers : tokens ≠ [] → block.span.Covers tokens
  siblings : block.stmts.toList.Pairwise fun first second =>
    ∃ before after, first.span? program = some before ∧ second.span? program = some after ∧
      before.Before after
  stmts : ∀ stmt ∈ block.stmts.toList, ∃ part span, part <:+: tokens ∧
    stmt.Placed program part span ∧ span.Within block.span

theorem Stmt.ReadFrom.placed {program : Program} {stmt : Stmt} {tokens : List Token}
    (readFrom : stmt.ReadFrom program tokens) (sequenced : Sequenced tokens) :
    ∃ span, stmt.Placed program tokens span := by
  obtain ⟨span, found, joins⟩ := readFrom.span
  have covers := sequenced.covers joins
  refine ⟨span, readFrom, found, covers, fun inner member => ?_, fun condition reads => ?_⟩
  · obtain ⟨part, inside, body⟩ := readFrom.blocks inner member
    obtain ⟨block, -, here, blockJoins, -⟩ := body.exists_block
    have covered := (sequenced.sublist inside.sublist).covers blockJoins
    exact ⟨block, here, covers.within sequenced covered inside.subset⟩
  · have named := readFrom.ident reads
    have covered := Span.covers_singleton ⟨.identifier condition.name, condition.span⟩
    exact ⟨named, covers.within sequenced covered (List.cons_subset.mpr ⟨named, List.nil_subset _⟩)⟩

theorem StmtsReadFrom.placed {program : Program} {block : Block} {inner tokens : List Token}
    (readFrom : StmtsReadFrom program block.stmts.toList inner) (inside : inner <:+: tokens)
    (sequenced : Sequenced tokens) (joins : tokens ≠ [] → block.span.Joins tokens) :
    block.Placed program tokens := by
  have covers : tokens ≠ [] → block.span.Covers tokens := fun nonempty =>
    sequenced.covers (joins nonempty)
  refine ⟨covers, readFrom.pairwise (sequenced.sublist inside.sublist), fun stmt member => ?_⟩
  obtain ⟨part, inInner, stmtRead⟩ := readFrom.mem member
  have inTokens := inInner.trans inside
  obtain ⟨span, placed⟩ := stmtRead.placed (sequenced.sublist inTokens.sublist)
  obtain ⟨first, -, head, -⟩ := placed.covers
  have nonempty : tokens ≠ [] := List.ne_nil_of_mem (inTokens.subset (List.mem_of_head? head))
  exact ⟨part, span, inTokens, placed,
    (covers nonempty).within sequenced placed.covers inTokens.subset⟩

/-- If the top level is read from these tokens, then every other block is read from some of them. -/
theorem Program.IsTree.blocks_readFrom {program : Program} (isTree : program.IsTree) {root : Block}
    (rootHere : program.rootBlock? = some root) {tokens : List Token}
    (readFrom : StmtsReadFrom program root.stmts.toList tokens) {id : BlockId}
    (inTable : (program.block? id).isSome = true) (notRoot : id ≠ program.root) :
    ∃ part, part <:+: tokens ∧ program.BlockReadFrom id part := by
  have reached : id = program.root ∨ ∃ part, part <:+: tokens ∧ program.BlockReadFrom id part := by
    refine isTree.block_induction
      (P := fun id => id = program.root ∨ ∃ part, part <:+: tokens ∧ program.BlockReadFrom id part)
      (Or.inl rfl) ?_ id inTable
    intro id block here reached stmt member inner refers
    have stmtsRead : ∃ part, part <:+: tokens ∧
        StmtsReadFrom program block.stmts.toList part := by
      rcases reached with rfl | ⟨part, inside, body⟩
      · obtain rfl := Option.some.inj (here.symm.trans rootHere)
        exact ⟨tokens, List.infix_refl tokens, readFrom⟩
      · obtain ⟨found, within, there, -, inPart, stmts⟩ := body.exists_block
        obtain rfl := Option.some.inj (here.symm.trans there)
        exact ⟨within, inPart.trans inside, stmts⟩
    obtain ⟨part, inside, stmts⟩ := stmtsRead
    obtain ⟨stmtPart, inPart, stmtRead⟩ := stmts.mem member
    obtain ⟨blockPart, inStmt, body⟩ := stmtRead.blocks inner refers
    exact Or.inr ⟨blockPart, inStmt.trans (inPart.trans inside), body⟩
  exact reached.resolve_left notRoot

/-- In the program of an accepted script of fewer than 2^32 - 1 characters, the statements of the top
level are read from all tokens before the end of the file, and every other block from a run of them
in braces. Every block, the top level included unless it is empty, and every statement stands from
the first of its tokens to the last one, and every condition where its name does; statements of one
block stand one behind the other; and what belongs to a block or to a statement stands within it. -/
theorem script_spans_are_exact (source : SourceFile) (short : source.text.length < 2 ^ 32 - 1)
    {program : Program} (accepted : parse source = .ok program) :
    ∃ tokens last root, lex source.text = tokens ++ [last] ∧ last.kind = .endOfFile ∧
      program.rootBlock? = some root ∧ StmtsReadFrom program root.stmts.toList tokens ∧
      root.Placed program tokens ∧
      ∀ id block, program.block? id = some block → id ≠ program.root →
        ∃ part, part <:+: tokens ∧ program.BlockReadFrom id part ∧ block.Placed program part := by
  obtain ⟨sequenced, fewer⟩ := lex_sequenced source.text short
  have size : UInt32.size = 2 ^ 32 := rfl
  have few : ((TokenStream.ofList (lex source.text)).tokens.map Token.kind).count .openBrace <
      UInt32.size := by
    have counted := List.count_le_length (a := TokenKind.openBrace)
      (l := (TokenStream.ofList (lex source.text)).tokens.map Token.kind)
    rw [List.length_map] at counted
    omega
  have read := parseTokens_eq_ok_iff.mp accepted
  have isTree := parseStream_isTree rfl few read
  obtain ⟨root, rootHere, readFrom, joins⟩ := parseStream_readFrom rfl few read
  refine ⟨_, _, root, (TokenStream.ofList_lex source.text).1, rfl, rootHere, readFrom,
    readFrom.placed (List.infix_refl _) sequenced joins, fun id block here notRoot => ?_⟩
  have inTable : (program.block? id).isSome = true := Option.isSome_of_eq_some here
  obtain ⟨part, inside, body⟩ := isTree.blocks_readFrom rootHere readFrom inTable notRoot
  obtain ⟨found, inner, there, partJoins, inPart, stmts⟩ := body.exists_block
  obtain rfl := Option.some.inj (here.symm.trans there)
  exact ⟨part, inside, body,
    stmts.placed inPart (sequenced.sublist inside.sublist) fun _ => partJoins⟩

/-- A conditional over two lines, whose span is put together from its first word and the brace of
its second block. -/
theorem script_spans_are_exact_alternative :
    "se luz {A}\nsenao {2{B}} C".length < 2 ^ 32 - 1 ∧
      ∃ program, parse ⟨"aula", "se luz {A}\nsenao {2{B}} C"⟩ = .ok program ∧
        ∃ tokens last root, lex "se luz {A}\nsenao {2{B}} C" = tokens ++ [last] ∧
          program.rootBlock? = some root ∧ root.Placed program tokens := by
  have short : "se luz {A}\nsenao {2{B}} C".length < 2 ^ 32 - 1 := by decide +kernel
  have accepts : (parse ⟨"aula", "se luz {A}\nsenao {2{B}} C"⟩).isOk = true := by decide +kernel
  cases outcome : parse ⟨"aula", "se luz {A}\nsenao {2{B}} C"⟩ with
  | error report =>
      rw [outcome] at accepts
      cases accepts
  | ok program =>
      obtain ⟨tokens, last, root, lexed, -, rootHere, -, placed, -⟩ :=
        script_spans_are_exact ⟨"aula", "se luz {A}\nsenao {2{B}} C"⟩ short outcome
      exact ⟨short, program, rfl, tokens, last, root, lexed, rootHere, placed⟩

example : (parse ⟨"aula", "se luz {A}\nsenao {2{B}} C"⟩).toOption.map
    (fun program => program.blocks.toList.map Block.span) =
      some [⟨1, 8, 1, 10, 7⟩, ⟨2, 9, 2, 11, 19⟩, ⟨2, 7, 2, 12, 17⟩, ⟨1, 1, 2, 14, 0⟩] := by
  decide +kernel

end RobotScript
