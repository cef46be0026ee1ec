/-
Module: RobotScript.Proofs.ParserReading
Purpose: Which tokens the parts of a program were read from. A statement or a block was read from a
  run of tokens that spell it, and its span is merged from those of the first and the last of them
  (`Stmt.ReadFrom`, `Program.BlockReadFrom`). While blocks are open, what has been read falls into
  statements of the top level and, for every open block, the tokens before its brace and those
  behind it (`ParseState.ReadFrom`); a clean round adds to this what it takes off the stream.
Main exports: Span.Joins, Stmt.ReadFrom, Program.BlockReadFrom, StmtsReadFrom, Stmt.ReadFrom.span,
  Stmt.ReadFrom.blocks, StmtsReadFrom.mem, ParseState.ReadFrom, Round.readFrom, parseStream_readFrom
-/
import RobotScript.Proofs.ArenaShape

namespace RobotScript

/-! ### Statements and blocks -/

/-- The span is merged from those of the first token and the last one. -/
def Span.Joins (span : Span) (tokens : List Token) : Prop :=
  ∃ first last, tokens.head? = some first ∧ tokens.getLast? = some last ∧
    span = first.span.merge last.span

theorem Span.joins_singleton (token : Token) : token.span.Joins [token] :=
  ⟨token, token, rfl, rfl, by simp [Span.merge]⟩

mutual

/-- The statement is spelt by these tokens, and stands where its first token and the closing brace of
its last block do; its condition stands where its name does. -/
inductive Stmt.ReadFrom (program : Program) : Stmt → List Token → Prop where
  | action (letter : Char) (span : Span) :
      Stmt.ReadFrom program (.action letter span) [⟨.action letter, span⟩]
  | block {id : BlockId} {tokens : List Token} (body : Program.BlockReadFrom program id tokens) :
      Stmt.ReadFrom program (.block id) tokens
  | repeated {count : UInt32} {id : BlockId} {span start : Span} {tokens : List Token}
      (body : Program.BlockReadFrom program id tokens)
      (joins : span.Joins (⟨.integer count, start⟩ :: tokens)) :
      Stmt.ReadFrom program (.repeated count id span) (⟨.integer count, start⟩ :: tokens)
  | conditional {condition : Ident} {id : BlockId} {span start : Span} {tokens : List Token}
      (body : Program.BlockReadFrom program id tokens)
      (joins : span.Joins (⟨.keyword .se, start⟩ ::
        ⟨.identifier condition.name, condition.span⟩ :: tokens)) :
      Stmt.ReadFrom program (.conditional condition id none span)
        (⟨.keyword .se, start⟩ :: ⟨.identifier condition.name, condition.span⟩ :: tokens)
  | alternative {condition : Ident} {id other : BlockId} {span start word : Span}
      {tokens others : List Token} (body : Program.BlockReadFrom program id tokens)
      (otherwise : Program.BlockReadFrom program other others)
      (joins : span.Joins (⟨.keyword .se, start⟩ ::
        ⟨.identifier condition.name, condition.span⟩ ::
          (tokens ++ ⟨.keyword .senao, word⟩ :: others))) :
      Stmt.ReadFrom program (.conditional condition id (some other) span)
        (⟨.keyword .se, start⟩ :: ⟨.identifier condition.name, condition.span⟩ ::
          (tokens ++ ⟨.keyword .senao, word⟩ :: others))
  | loop {condition : Ident} {id : BlockId} {span start : Span} {tokens : List Token}
      (body : Program.BlockReadFrom program id tokens)
      (joins : span.Joins (⟨.keyword .enquanto, start⟩ ::
        ⟨.identifier condition.name, condition.span⟩ :: tokens)) :
      Stmt.ReadFrom program (.loop condition id span)
        (⟨.keyword .enquanto, start⟩ :: ⟨.identifier condition.name, condition.span⟩ :: tokens)

/-- The block with this number is spelt by these tokens, its statements between two braces, and
stands where the braces do. -/
inductive Program.BlockReadFrom (program : Program) : BlockId → List Token → Prop where
  | braces {id : BlockId} {block : Block} {opening closing : Span} {tokens : List Token}
      (here : program.block? id = some block)
      (stmts : StmtsReadFrom program block.stmts.toList tokens)
      (joins : block.span.Joins
        (⟨.openBrace, opening⟩ :: (tokens ++ [⟨.closeBrace, closing⟩]))) :
      Program.BlockReadFrom program id
        (⟨.openBrace, opening⟩ :: (tokens ++ [⟨.closeBrace, closing⟩]))

/-- The statements are spelt by these tokens, one after the other. -/
inductive StmtsReadFrom (program : Program) : List Stmt → List Token → Prop where
  | nil : StmtsReadFrom program [] []
  | cons {stmt : Stmt} {later : List Stmt} {tokens others : List Token}
      (first : Stmt.ReadFrom program stmt tokens) (rest : StmtsReadFrom program later others) :
      StmtsReadFrom program (stmt :: later) (tokens ++ others)

end

section Extension

variable {program larger : Program}

mutual

theorem Stmt.ReadFrom.extend (extension : larger.Extends program) :
    ∀ {stmt : Stmt} {tokens : List Token}, stmt.ReadFrom program tokens →
      stmt.ReadFrom larger tokens
  | _, _, .action letter span => .action letter span
  | _, _, .block body => .block (body.extend extension)
  | _, _, .repeated body joins => .repeated (body.extend extension) joins
  | _, _, .conditional body joins => .conditional (body.extend extension) joins
  | _, _, .alternative body otherwise joins =>
      .alternative (body.extend extension) (otherwise.extend extension) joins
  | _, _, .loop body joins => .loop (body.extend extension) joins

theorem Program.BlockReadFrom.extend (extension : larger.Extends program) :
    ∀ {id : BlockId} {tokens : List Token}, program.BlockReadFrom id tokens →
      larger.BlockReadFrom id tokens
  | _, _, .braces here stmts joins => .braces (extension _ _ here) (stmts.extend extension) joins

theorem StmtsReadFrom.extend (extension : larger.Extends program) :
    ∀ {stmts : List Stmt} {tokens : List Token}, StmtsReadFrom program stmts tokens →
      StmtsReadFrom larger stmts tokens
  | _, _, .nil => .nil
  | _, _, .cons first rest => .cons (first.extend extension) (rest.extend extension)

end

end Extension

section Parts

variable {program : Program} {tokens : List Token}

theorem Program.BlockReadFrom.exists_block {id : BlockId}
    (readFrom : program.BlockReadFrom id tokens) :
    ∃ block inner, program.block? id = some block ∧ block.span.Joins tokens ∧
      inner <:+: tokens ∧ StmtsReadFrom program block.stmts.toList inner := by
  cases readFrom with
  | @braces _ block opening closing inner here stmts joins =>
      exact ⟨block, inner, here, joins, ⟨[_], [_], rfl⟩, stmts⟩

namespace Stmt.ReadFrom

variable {stmt : Stmt}

/-- A statement has a span, which joins its tokens. -/
theorem span (readFrom : stmt.ReadFrom program tokens) :
    ∃ span, stmt.span? program = some span ∧ span.Joins tokens := by
  cases readFrom with
  | action letter span => exact ⟨span, rfl, Span.joins_singleton ⟨.action letter, span⟩⟩
  | block body =>
      obtain ⟨block, -, here, joins, -⟩ := body.exists_block
      exact ⟨block.span, congrArg (Option.map Block.span) here, joins⟩
  | repeated body joins => exact ⟨_, rfl, joins⟩
  | conditional body joins => exact ⟨_, rfl, joins⟩
  | alternative body otherwise joins => exact ⟨_, rfl, joins⟩
  | loop body joins => exact ⟨_, rfl, joins⟩

/-- Its blocks are read from some of its tokens. -/
theorem blocks (readFrom : stmt.ReadFrom program tokens) :
    ∀ inner ∈ stmt.blocks, ∃ part, part <:+: tokens ∧ program.BlockReadFrom inner part := by
  intro inner member
  cases readFrom with
  | action => cases member
  | block body =>
      obtain rfl := List.mem_singleton.mp member
      exact ⟨_, List.infix_refl _, body⟩
  | repeated body =>
      obtain rfl := List.mem_singleton.mp member
      exact ⟨_, (List.suffix_cons _ _).isInfix, body⟩
  | conditional body =>
      obtain rfl := List.mem_singleton.mp member
      exact ⟨_, ⟨[_, _], [], List.append_nil _⟩, body⟩
  | @alternative _ _ _ _ _ word tokens others body otherwise =>
      rcases List.mem_cons.mp member with rfl | second
      · exact ⟨tokens, ⟨[_, _], _, rfl⟩, body⟩
      · obtain rfl := List.mem_singleton.mp second
        have behind : others <:+ tokens ++ ⟨.keyword .senao, word⟩ :: others :=
          (List.suffix_cons _ _).trans (List.suffix_append _ _)
        exact ⟨others, (behind.trans ⟨[_, _], rfl⟩).isInfix, otherwise⟩
  | loop body =>
      obtain rfl := List.mem_singleton.mp member
      exact ⟨_, ⟨[_, _], [], List.append_nil _⟩, body⟩

end Stmt.ReadFrom

namespace StmtsReadFrom

variable {stmts : List Stmt} {stmt : Stmt}

theorem concat {more : List Token} (readFrom : StmtsReadFrom program stmts tokens)
    (last : stmt.ReadFrom program more) :
    StmtsReadFrom program (stmts ++ [stmt]) (tokens ++ more) := by
  induction stmts generalizing tokens with
  | nil =>
      cases readFrom with
      | nil =>
          have alone := StmtsReadFrom.cons last .nil
          rw [List.append_nil] at alone
          exact alone
  | cons first later inductionHypothesis =>
      cases readFrom with
      | cons firstRead rest =>
          rw [List.append_assoc]
          exact .cons firstRead (inductionHypothesis rest)

/-- Each of the statements is read from some of the tokens. -/
theorem mem (readFrom : StmtsReadFrom program stmts tokens) (member : stmt ∈ stmts) :
    ∃ part, part <:+: tokens ∧ stmt.ReadFrom program part := by
  induction stmts generalizing tokens with
  | nil => cases member
  | cons first later inductionHypothesis =>
      cases readFrom with
      | cons firstRead rest =>
          rcases List.mem_cons.mp member with rfl | inLater
          · exact ⟨_, (List.prefix_append _ _).isInfix, firstRead⟩
          · obtain ⟨part, inside, read⟩ := inductionHypothesis rest inLater
            exact ⟨part, inside.trans (List.suffix_append _ _).isInfix, read⟩

end StmtsReadFrom

end Parts

/-! ### Open blocks -/

/-- The tokens before the opening brace of a block with this owner. -/
inductive Owner.ReadFrom (program : Program) : Owner → List Token → Prop where
  | bare : ReadFrom program .bare []
  | repeated (count : UInt32) (start : Span) :
      ReadFrom program (.repeated count start) [⟨.integer count, start⟩]
  | thenBranch (condition : Ident) (start : Span) :
      ReadFrom program (.thenBranch condition start)
        [⟨.keyword .se, start⟩, ⟨.identifier condition.name, condition.span⟩]
  | elseBranch (condition : Ident) (start word : Span) {thenBlock : BlockId} {tokens : List Token}
      (body : program.BlockReadFrom thenBlock tokens) :
      ReadFrom program (.elseBranch condition thenBlock start)
        (⟨.keyword .se, start⟩ :: ⟨.identifier condition.name, condition.span⟩ ::
          (tokens ++ [⟨.keyword .senao, word⟩]))
  | loop (condition : Ident) (start : Span) :
      ReadFrom program (.loop condition start)
        [⟨.keyword .enquanto, start⟩, ⟨.identifier condition.name, condition.span⟩]

/-- The tokens read so far, given the open blocks and the statements of the top level. -/
inductive NestReadFrom (program : Program) (top : List Stmt) :
    List OpenBlock → List Token → Prop where
  | top {tokens : List Token} (stmts : StmtsReadFrom program top tokens) :
      NestReadFrom program top [] tokens
  | nested {block : OpenBlock} {outer : List OpenBlock} {before header tokens : List Token}
      (outside : NestReadFrom program top outer before)
      (owned : block.owner.ReadFrom program header)
      (stmts : StmtsReadFrom program block.stmts.toList tokens) :
      NestReadFrom program top (block :: outer)
        (before ++ (header ++ ⟨.openBrace, block.brace⟩ :: tokens))

theorem Owner.ReadFrom.extend {program larger : Program} (extension : larger.Extends program)
    {owner : Owner} {tokens : List Token} (readFrom : owner.ReadFrom program tokens) :
    owner.ReadFrom larger tokens := by
  cases readFrom with
  | bare => exact .bare
  | repeated count start => exact .repeated count start
  | thenBranch condition start => exact .thenBranch condition start
  | elseBranch condition start word body =>
      exact .elseBranch condition start word (body.extend extension)
  | loop condition start => exact .loop condition start

theorem NestReadFrom.extend {program larger : Program} (extension : larger.Extends program)
    {top : List Stmt} {nest : List OpenBlock} {tokens : List Token}
    (readFrom : NestReadFrom program top nest tokens) : NestReadFrom larger top nest tokens := by
  induction readFrom with
  | top stmts => exact .top (stmts.extend extension)
  | nested _ owned stmts inductionHypothesis =>
      exact .nested inductionHypothesis (owned.extend extension) (stmts.extend extension)

/-- With the block that its owner waited for, the statement is complete. -/
theorem Owner.ReadFrom.statement {program : Program} {owner : Owner} {header braced : List Token}
    (owned : owner.ReadFrom program header) {id : BlockId} (body : program.BlockReadFrom id braced)
    {close : Span} (closes : braced.getLast? = some ⟨.closeBrace, close⟩) :
    (owner.statement id close).ReadFrom program (header ++ braced) := by
  have final : (header ++ braced).getLast? = some ⟨.closeBrace, close⟩ := by
    rw [List.getLast?_append, closes]
    rfl
  cases owned with
  | bare => exact .block body
  | repeated count start => exact .repeated body ⟨_, _, rfl, final, rfl⟩
  | thenBranch condition start => exact .conditional body ⟨_, _, rfl, final, rfl⟩
  | elseBranch condition start word thenBody =>
      simp only [List.cons_append, List.append_assoc, List.nil_append] at final ⊢
      exact .alternative thenBody body ⟨_, _, rfl, final, rfl⟩
  | loop condition start => exact .loop body ⟨_, _, rfl, final, rfl⟩

theorem Header.readFrom {read : List Token} {block : OpenBlock} (header : Header read block)
    (program : Program) :
    ∃ before, block.owner.ReadFrom program before ∧
      read = before ++ [⟨.openBrace, block.brace⟩] := by
  cases header with
  | bare brace => exact ⟨_, .bare, rfl⟩
  | repeated count start brace => exact ⟨_, .repeated count start, rfl⟩
  | thenBranch condition start brace => exact ⟨_, .thenBranch condition start, rfl⟩
  | loop condition start brace => exact ⟨_, .loop condition start, rfl⟩

/-! ### Rounds -/

theorem push_extends (blocks : Array Block) (block : Block) (root next : BlockId) :
    (Program.mk (blocks.push block) next).Extends ⟨blocks, root⟩ := by
  intro id found here
  have below : id.number.toNat < blocks.size := (Array.getElem?_eq_some_iff.mp here).1
  simp only [Program.block?] at here ⊢
  rw [Array.getElem?_push_lt below]
  exact (Array.getElem?_eq_getElem below).symm.trans here

namespace ParseState

/-- The closed blocks, as a table to look numbers up in. -/
def table (state : ParseState) : Program :=
  ⟨state.blocks, state.nextId⟩

/-- The state is what reading these tokens leads to. -/
def ReadFrom (state : ParseState) (read : List Token) : Prop :=
  NestReadFrom state.table state.top.toList state.nest read

theorem ReadFrom.addStmt {state : ParseState} {read : List Token} (readFrom : state.ReadFrom read)
    {stmt : Stmt} {more : List Token} (added : stmt.ReadFrom state.table more) :
    (state.addStmt stmt).ReadFrom (read ++ more) := by
  obtain ⟨nest, top, blocks, problems⟩ := state
  have appended : ∀ {stmts : Array Stmt} {tokens : List Token},
      StmtsReadFrom ⟨blocks, ⟨UInt32.ofNat blocks.size⟩⟩ stmts.toList tokens →
      StmtsReadFrom ⟨blocks, ⟨UInt32.ofNat blocks.size⟩⟩ (stmts.push stmt).toList
        (tokens ++ more) := by
    intro stmts tokens stmtsRead
    rw [Array.toList_push]
    exact stmtsRead.concat added
  cases readFrom with
  | top stmts => exact .top (appended stmts)
  | nested outside owned stmts =>
      rw [List.append_assoc, List.append_assoc, List.cons_append]
      exact .nested outside owned (appended stmts)

/-- A block has just been opened: it has no statements yet. -/
theorem ReadFrom.enter {state : ParseState} {read header : List Token}
    (readFrom : state.ReadFrom read) {block : OpenBlock} (empty : block.stmts = #[])
    (owned : block.owner.ReadFrom state.table header) :
    (state.enter block).ReadFrom (read ++ (header ++ [⟨.openBrace, block.brace⟩])) := by
  have stmts : StmtsReadFrom state.table block.stmts.toList [] := by
    rw [empty]
    exact .nil
  exact .nested readFrom owned stmts

/-- Closing the innermost block takes its tokens off what has been read; with its braces they are
those of the block that gets the next number. -/
theorem ReadFrom.closeInto {state : ParseState} {read : List Token} (readFrom : state.ReadFrom read)
    {block : OpenBlock} {outer : List OpenBlock} (nested : state.nest = block :: outer)
    (room : state.blocks.size < UInt32.size) (brace : Span) :
    ∃ before header braced, read ++ [⟨.closeBrace, brace⟩] = before ++ (header ++ braced) ∧
      braced.getLast? = some ⟨.closeBrace, brace⟩ ∧
      (state.closeInto block outer brace).ReadFrom before ∧
      block.owner.ReadFrom (state.closeInto block outer brace).table header ∧
      (state.closeInto block outer brace).table.BlockReadFrom state.nextId braced := by
  simp only [ReadFrom] at readFrom
  rw [nested] at readFrom
  cases readFrom with
  | @nested _ _ before header tokens outside owned stmts =>
      have extension : (state.closeInto block outer brace).table.Extends state.table :=
        push_extends state.blocks _ _ _
      have final : (⟨.openBrace, block.brace⟩ :: (tokens ++ [⟨.closeBrace, brace⟩])).getLast? =
          some (⟨.closeBrace, brace⟩ : Token) := by
        rw [← List.cons_append, List.getLast?_concat]
      have added : (state.closeInto block outer brace).table.block? state.nextId =
          some ⟨block.stmts, block.brace.merge brace⟩ := by
        change (state.blocks.push _)[state.nextId.index]? = _
        rw [nextId_index room, Array.getElem?_push_size]
      refine ⟨before, header, _, ?_, final, outside.extend extension, owned.extend extension,
        .braces added (stmts.extend extension) ⟨_, _, rfl, final, rfl⟩⟩
      simp only [List.append_assoc, List.cons_append]

end ParseState

/-- A clean round reads on: what it takes off the stream is added to what has been read. -/
theorem Round.readFrom {state after : ParseState} {tokens rest : List Token}
    (round : Round state tokens after rest) (room : state.blocks.size < UInt32.size)
    {read : List Token} (readFrom : state.ReadFrom read) :
    ∃ more, tokens = more ++ rest ∧ after.ReadFrom (read ++ more) := by
  cases round with
  | acts letter span => exact ⟨[_], rfl, readFrom.addStmt (.action letter span)⟩
  | opens header =>
      obtain ⟨before, owned, split⟩ := header.readFrom state.table
      obtain ⟨-, -, empty, -⟩ := header.facts
      refine ⟨_, rfl, ?_⟩
      rw [split]
      exact readFrom.enter empty owned
  | closes nested brace =>
      obtain ⟨before, header, braced, whole, closes, outside, owned, body⟩ :=
        readFrom.closeInto nested room brace
      refine ⟨[_], rfl, ?_⟩
      rw [whole]
      exact outside.addStmt (owned.statement body closes)
  | @reopens block outer nested condition start ownedBy brace word openBrace =>
      obtain ⟨before, header, braced, whole, -, outside, owned, body⟩ :=
        readFrom.closeInto nested room brace
      rw [ownedBy] at owned
      cases owned with
      | thenBranch =>
          refine ⟨[_, _, _], rfl, ?_⟩
          let reopened : OpenBlock := ⟨openBrace, #[], .elseBranch condition state.nextId start⟩
          have empty : reopened.stmts = #[] := rfl
          have extended := outside.enter empty (.elseBranch condition start word body)
          rw [List.append_cons, whole]
          simpa using extended

/-! ### Accepted streams -/

theorem TokenStream.span_joins {stream : TokenStream} (nonempty : stream.tokens ≠ []) :
    stream.span.Joins stream.tokens := by
  obtain ⟨first, later, shape⟩ := List.exists_cons_of_ne_nil nonempty
  have head : stream.tokens.head? = some first := by
    rw [shape]
    rfl
  refine ⟨first, _, head, List.getLast?_eq_some_getLast nonempty, ?_⟩
  simp only [TokenStream.span, shape]
  rfl

/-- The statements at the top level of an accepted stream are read from all its tokens; where there
are any, the span of the top level joins them. -/
theorem parseStream_readFrom {limit : Option Nat} (room : limit.any (· ≤ 0) = false)
    {stream : TokenStream} (few : (stream.tokens.map Token.kind).count .openBrace < UInt32.size)
    {program : Program} (accepted : parseStream limit stream = .ok program) :
    ∃ root, program.rootBlock? = some root ∧
      StmtsReadFrom program root.stmts.toList stream.tokens ∧
      (stream.tokens ≠ [] → root.span.Joins stream.tokens) := by
  have invariant := parseStream_preserves
    (P := fun state rest =>
      Arranged ((stream.tokens.map Token.kind).count .openBrace)
        ((stream.tokens.map Token.kind).countP TokenKind.isAction) state rest ∧
      ∃ read, state.ReadFrom read ∧ read ++ rest = stream.tokens)
    (by
      rintro state after tokens rest round ⟨arranged, read, readFrom, whole⟩
      obtain ⟨more, rfl, further⟩ := round.readFrom (arranged.size_lt few) readFrom
      refine ⟨round.arranged few arranged, read ++ more, further, ?_⟩
      rw [List.append_assoc, whole])
    room ⟨Arranged.initial stream.tokens, [], .top .nil, rfl⟩ accepted
  obtain ⟨arranged, read, readFrom, whole⟩ := invariant
  obtain ⟨-, closed, rfl⟩ := parseStream_eq_ok_iff.mp accepted
  rw [List.append_nil] at whole
  simp only [ParseState.ReadFrom] at readFrom
  rw [closed, whole] at readFrom
  cases readFrom with
  | top stmts =>
      refine ⟨⟨(stream.finalState limit).top, stream.span⟩, ?_, ?_, TokenStream.span_joins⟩
      · change (Array.push _ _)[(stream.finalState limit).nextId.index]? = _
        rw [ParseState.nextId_index (arranged.size_lt few), Array.getElem?_push_size]
      · exact stmts.extend (push_extends _ _ _ _)

end RobotScript
