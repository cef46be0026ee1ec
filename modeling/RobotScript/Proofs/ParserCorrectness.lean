/-
Module: RobotScript.Proofs.ParserCorrectness
Purpose: The parser accepts exactly the token lists that the grammar derives, and the program it
  returns unfolds to the tree of the derivation.
  Soundness: what a program was read from is what its tree is written with. Completeness: the tokens
  of a tree are read without a problem and leave the same blocks open; which tree results then
  follows from soundness, because a token list has one tree.
Main exports: StmtsReadFrom.unfolds, parseStream_sound, Tree.reads, parseStream_complete,
  parseTokens_accepts_iff_derivable
-/
import RobotScript.Proofs.Grammar
import RobotScript.Proofs.ParserReading

namespace RobotScript

/-! ### Soundness: what is read unfolds -/

section Soundness

variable {program : Program}

mutual

/-- A statement unfolds to a tree that is written with the tokens it was read from. -/
theorem Stmt.ReadFrom.unfolds : ∀ {stmt : Stmt} {tokens : List Token},
    stmt.ReadFrom program tokens →
      ∃ tree, stmt.Unfolds program tree ∧ tree.kinds = tokens.map Token.kind
  | _, _, .action letter span => ⟨_, .action letter span, rfl⟩
  | _, _, .block body => by
      obtain ⟨trees, unfolds, printed⟩ := body.unfolds
      exact ⟨_, .block unfolds, printed⟩
  | _, _, .repeated body _ => by
      obtain ⟨trees, unfolds, printed⟩ := body.unfolds
      exact ⟨_, .repeated unfolds, congrArg _ printed⟩
  | _, _, .conditional body _ => by
      obtain ⟨trees, unfolds, printed⟩ := body.unfolds
      exact ⟨_, .conditional unfolds, congrArg (_ :: _ :: ·) printed⟩
  | _, _, .alternative body otherwise _ => by
      obtain ⟨trees, unfolds, printed⟩ := body.unfolds
      obtain ⟨others, otherUnfolds, otherPrinted⟩ := otherwise.unfolds
      refine ⟨_, .alternative unfolds otherUnfolds, ?_⟩
      simp [Tree.kinds, ← printed, ← otherPrinted]
  | _, _, .loop body _ => by
      obtain ⟨trees, unfolds, printed⟩ := body.unfolds
      exact ⟨_, .loop unfolds, congrArg (_ :: _ :: ·) printed⟩

theorem Program.BlockReadFrom.unfolds : ∀ {id : BlockId} {tokens : List Token},
    program.BlockReadFrom id tokens → ∃ trees, program.Unfolds id trees ∧
      .openBrace :: (Tree.kindsOfAll trees ++ [.closeBrace]) = tokens.map Token.kind
  | _, _, .braces here stmts _ => by
      obtain ⟨trees, unfolds, printed⟩ := stmts.unfolds
      exact ⟨trees, Program.unfolds_iff.mpr ⟨_, here, unfolds⟩, by simp [printed]⟩

theorem StmtsReadFrom.unfolds : ∀ {stmts : List Stmt} {tokens : List Token},
    StmtsReadFrom program stmts tokens → ∃ trees, List.Forall₂ (Stmt.Unfolds program) stmts trees ∧
      Tree.kindsOfAll trees = tokens.map Token.kind
  | _, _, .nil => ⟨[], .nil, Tree.kindsOfAll_nil⟩
  | _, _, .cons first rest => by
      obtain ⟨tree, unfolds, printed⟩ := first.unfolds
      obtain ⟨trees, restUnfolds, restPrinted⟩ := rest.unfolds
      exact ⟨tree :: trees, .cons unfolds restUnfolds, by simp [printed, restPrinted]⟩

end

end Soundness

/-- An accepted stream is derived from the grammar, and the program unfolds to its tree. -/
theorem parseStream_sound {limit : Option Nat} (room : limit.any (· ≤ 0) = false)
    {stream : TokenStream} (few : (stream.tokens.map Token.kind).count .openBrace < UInt32.size)
    {program : Program} (accepted : parseStream limit stream = .ok program) :
    ∃ trees, program.unfold? = some trees ∧ IsProgram (stream.tokens.map Token.kind) trees := by
  obtain ⟨root, rootHere, readFrom, -⟩ := parseStream_readFrom room few accepted
  obtain ⟨trees, unfolds, printed⟩ := readFrom.unfolds
  have rootUnfolds : program.Unfolds program.root trees :=
    Program.unfolds_iff.mpr ⟨root, rootHere, unfolds⟩
  have descending := parseStream_descending room accepted
  exact ⟨trees, Program.unfold?_eq_some descending rootUnfolds, isProgram_iff.mpr printed.symm⟩

/-- A script with room for the numbers of its blocks becomes a tree in the table, which unfolds. -/
theorem parse_isTree_and_unfolds {source : SourceFile} {program : Program}
    (accepted : parse source = .ok program) (few : program.blocks.size < UInt32.size) :
    program.IsTree ∧ ∃ trees, program.unfold? = some trees := by
  have read := parseTokens_eq_ok_iff.mp accepted
  have size := parseStream_size rfl read
  have fewBraces : ((TokenStream.ofList (lex source.text)).tokens.map Token.kind).count .openBrace <
      UInt32.size := by
    omega
  obtain ⟨trees, unfolded, -⟩ := parseStream_sound rfl fewBraces read
  exact ⟨parseStream_isTree rfl fewBraces read, trees, unfolded⟩

/-! ### Completeness: reading the tokens of a tree

Reading a tree leaves the open blocks as they were, up to the statements in them: only their
owners decide how reading goes on. -/

/-- What the open blocks belong to. -/
def ParseState.owners (state : ParseState) : List Owner :=
  state.nest.map OpenBlock.owner

/-- From this state and these tokens reading comes, without a problem, to a state with these
owners before the rest of the tokens. -/
def Reads (limit : Option Nat) (finish : Span) (state : ParseState) (tokens : List Token)
    (owners : List Owner) (rest : List Token) : Prop :=
  ∃ after : ParseState, parseLoop limit finish state tokens = parseLoop limit finish after rest ∧
    after.owners = owners ∧ after.problems.size = 0

section Completeness

variable {limit : Option Nat} {finish : Span}

theorem Reads.refl {state : ParseState} (clean : state.problems.size = 0) (tokens : List Token) :
    Reads limit finish state tokens state.owners tokens :=
  ⟨state, rfl, rfl, clean⟩

theorem Reads.trans {state : ParseState} {tokens between rest : List Token}
    {owners others : List Owner} (first : Reads limit finish state tokens owners between)
    (second : ∀ after : ParseState, after.problems.size = 0 → after.owners = owners →
      Reads limit finish after between others rest) :
    Reads limit finish state tokens others rest := by
  obtain ⟨after, same, owned, clean⟩ := first
  obtain ⟨last, sameLater, ownedLater, cleanLater⟩ := second after clean owned
  exact ⟨last, same.trans sameLater, ownedLater, cleanLater⟩

/-- A state without problems goes on to the next round. -/
theorem parseLoop_cons (room : limit.any (· ≤ 0) = false) {state : ParseState}
    (clean : state.problems.size = 0) (token : Token) (rest : List Token) :
    parseLoop limit finish state (token :: rest) =
      parseLoop limit finish (state.advance finish token rest).1
        (state.advance finish token rest).2 := by
  rw [parseLoop, clean, room]
  rfl

theorem Reads.of_advance (room : limit.any (· ≤ 0) = false) {state after : ParseState}
    (clean : state.problems.size = 0) {token : Token} {rest later : List Token}
    (advanced : state.advance finish token rest = (after, later))
    (kept : after.problems = state.problems) :
    Reads limit finish state (token :: rest) after.owners later := by
  refine ⟨after, ?_, rfl, by rw [kept, clean]⟩
  rw [parseLoop_cons room clean, advanced]

theorem ParseState.addStmt_owners (state : ParseState) (stmt : Stmt) :
    (state.addStmt stmt).owners = state.owners := by
  simp only [addStmt]
  split <;> rfl

theorem reads_action (room : limit.any (· ≤ 0) = false) {state : ParseState}
    (clean : state.problems.size = 0) (letter : Char) (span : Span) (rest : List Token) :
    Reads limit finish state (⟨.action letter, span⟩ :: rest) state.owners rest := by
  rw [← state.addStmt_owners (.action letter span)]
  exact .of_advance room clean rfl (state.addStmt_problems _)

theorem reads_header (room : limit.any (· ≤ 0) = false) {state : ParseState}
    (clean : state.problems.size = 0) {read : List Token} {block : OpenBlock}
    (header : Header read block) (rest : List Token) :
    Reads limit finish state (read ++ rest) (block.owner :: state.owners) rest := by
  have entered : (state.enter block).owners = block.owner :: state.owners := rfl
  rw [← entered]
  cases header <;> exact .of_advance room clean rfl rfl

/-- A closing brace completes the statement of the innermost block, unless that is the first
block of a conditional and `senao` follows. -/
theorem reads_close (room : limit.any (· ≤ 0) = false) {state : ParseState}
    (clean : state.problems.size = 0) {owner : Owner} {owners : List Owner}
    (owned : state.owners = owner :: owners) (brace : Span) {rest : List Token}
    (noElse : NoElse (rest.map Token.kind)) :
    Reads limit finish state (⟨.closeBrace, brace⟩ :: rest) owners rest := by
  obtain ⟨block, outer, nested, rfl, rfl⟩ := List.map_eq_cons_iff.mp owned
  have notElse : (nextToken finish rest).kind ≠ .keyword .senao := by
    cases rest with
    | nil => simp [nextToken]
    | cons token later => simpa [NoElse, nextToken] using noElse
  have completed : block.owner.finishBlock finish state.nextId brace rest =
      (.complete (block.owner.statement state.nextId brace), rest) := by
    cases shape : block.owner with
    | thenBranch condition start => simp [Owner.finishBlock, Owner.statement, notElse]
    | _ => rfl
  have advanced : state.advance finish ⟨.closeBrace, brace⟩ rest =
      ((state.closeInto block outer brace).addStmt (block.owner.statement state.nextId brace),
        rest) := by
    change state.close finish brace rest = _
    rw [ParseState.close_eq nested, completed]
    rfl
  have reads := Reads.of_advance room clean advanced (ParseState.addStmt_problems _ _)
  rwa [ParseState.addStmt_owners] at reads

/-- After the first block of a conditional, `senao` opens the second one. -/
theorem reads_else (room : limit.any (· ≤ 0) = false) {state : ParseState}
    (clean : state.problems.size = 0) {condition : Ident} {start : Span} {owners : List Owner}
    (owned : state.owners = .thenBranch condition start :: owners) (brace word openBrace : Span)
    (rest : List Token) :
    Reads limit finish state
      (⟨.closeBrace, brace⟩ :: ⟨.keyword .senao, word⟩ :: ⟨.openBrace, openBrace⟩ :: rest)
      (.elseBranch condition state.nextId start :: owners) rest := by
  obtain ⟨block, outer, nested, ownedBy, rfl⟩ := List.map_eq_cons_iff.mp owned
  have advanced : state.advance finish ⟨.closeBrace, brace⟩
      (⟨.keyword .senao, word⟩ :: ⟨.openBrace, openBrace⟩ :: rest) =
      ((state.closeInto block outer brace).enter
        ⟨openBrace, #[], .elseBranch condition state.nextId start⟩, rest) := by
    change state.close finish brace _ = _
    rw [ParseState.close_eq nested, ownedBy]
    rfl
  exact Reads.of_advance room clean advanced rfl

/-- The trees of a body are read up to what closes its block. -/
def ReadsBody (limit : Option Nat) (finish : Span) (body : List Tree) : Prop :=
  ∀ (state : ParseState) (tokens rest : List Token), state.problems.size = 0 →
    tokens.map Token.kind = Tree.kindsOfAll body → EndsBlock (rest.map Token.kind) →
      Reads limit finish state (tokens ++ rest) state.owners rest

theorem tokens_eq_cons {tokens : List Token} {kind : TokenKind} {kinds : List TokenKind}
    (spelt : tokens.map Token.kind = kind :: kinds) :
    ∃ span later, tokens = ⟨kind, span⟩ :: later ∧ later.map Token.kind = kinds := by
  obtain ⟨⟨_, span⟩, later, rfl, rfl, laterSpelt⟩ := List.map_eq_cons_iff.mp spelt
  exact ⟨span, later, rfl, laterSpelt⟩

/-- Reads a body and its closing brace, right after the block has been opened. -/
theorem ReadsBody.close (room : limit.any (· ≤ 0) = false) {body : List Tree}
    (inner : ReadsBody limit finish body) {state : ParseState} (clean : state.problems.size = 0)
    {owner : Owner} {owners : List Owner} (owned : state.owners = owner :: owners)
    {tokens rest : List Token}
    (spelt : tokens.map Token.kind = Tree.kindsOfAll body ++ [.closeBrace])
    (noElse : NoElse (rest.map Token.kind)) :
    Reads limit finish state (tokens ++ rest) owners rest := by
  obtain ⟨bodyTokens, closing, rfl, bodySpelt, closes⟩ := List.map_eq_append_iff.mp spelt
  obtain ⟨brace, none, rfl, empty⟩ := tokens_eq_cons closes
  obtain rfl := List.map_eq_nil_iff.mp empty
  rw [List.append_assoc]
  have ends : EndsBlock ((⟨.closeBrace, brace⟩ :: rest).map Token.kind) := endsBlock_closeBrace _
  apply Reads.trans (inner state bodyTokens _ clean bodySpelt ends)
  intro after afterClean afterOwned
  exact reads_close room afterClean (afterOwned.trans owned) brace noElse

/-- Reads the tokens that open a block, then the block. -/
theorem ReadsBody.enter (room : limit.any (· ≤ 0) = false) {body : List Tree}
    (inner : ReadsBody limit finish body) {state : ParseState} (clean : state.problems.size = 0)
    {read : List Token} {block : OpenBlock} (header : Header read block)
    {tokens rest : List Token}
    (spelt : tokens.map Token.kind = Tree.kindsOfAll body ++ [.closeBrace])
    (noElse : NoElse (rest.map Token.kind)) :
    Reads limit finish state (read ++ (tokens ++ rest)) state.owners rest := by
  apply Reads.trans (reads_header room clean header _)
  intro after afterClean afterOwned
  exact inner.close room afterClean afterOwned spelt noElse

mutual

/-- The tokens of a tree are read, and the open blocks stay open. -/
theorem Tree.reads (room : limit.any (· ≤ 0) = false) :
    ∀ (tree : Tree) (state : ParseState) (tokens rest : List Token), state.problems.size = 0 →
      tokens.map Token.kind = tree.kinds → NoElse (rest.map Token.kind) →
        Reads limit finish state (tokens ++ rest) state.owners rest
  | .action letter, state, tokens, rest, clean, spelt, _ => by
      obtain ⟨span, none, rfl, empty⟩ := tokens_eq_cons spelt
      obtain rfl := List.map_eq_nil_iff.mp empty
      exact reads_action room clean letter span rest
  | .block body, state, tokens, rest, clean, spelt, noElse => by
      obtain ⟨brace, later, rfl, laterSpelt⟩ := tokens_eq_cons spelt
      exact (Tree.readsAll room body).enter room clean (.bare brace) laterSpelt noElse
  | .repeated count body, state, tokens, rest, clean, spelt, noElse => by
      obtain ⟨start, _, rfl, opens⟩ := tokens_eq_cons spelt
      obtain ⟨brace, later, rfl, laterSpelt⟩ := tokens_eq_cons opens
      exact (Tree.readsAll room body).enter room clean (.repeated count start brace) laterSpelt
        noElse
  | .conditional name body, state, tokens, rest, clean, spelt, noElse => by
      obtain ⟨start, _, rfl, names⟩ := tokens_eq_cons spelt
      obtain ⟨named, _, rfl, opens⟩ := tokens_eq_cons names
      obtain ⟨brace, later, rfl, laterSpelt⟩ := tokens_eq_cons opens
      exact (Tree.readsAll room body).enter room clean (.thenBranch ⟨name, named⟩ start brace)
        laterSpelt noElse
  | .alternative name body otherwise, state, tokens, rest, clean, spelt, noElse => by
      obtain ⟨start, _, rfl, names⟩ := tokens_eq_cons spelt
      obtain ⟨named, _, rfl, opens⟩ := tokens_eq_cons names
      obtain ⟨brace, _, rfl, bodyAndMore⟩ := tokens_eq_cons opens
      obtain ⟨bodyTokens, _, rfl, bodySpelt, closes⟩ := List.map_eq_append_iff.mp bodyAndMore
      obtain ⟨closing, _, rfl, continues⟩ := tokens_eq_cons closes
      obtain ⟨word, _, rfl, reopens⟩ := tokens_eq_cons continues
      obtain ⟨reopening, later, rfl, laterSpelt⟩ := tokens_eq_cons reopens
      -- The first block is closed by its brace together with `senao` and the second one's brace.
      simp only [List.cons_append, List.append_assoc]
      apply Reads.trans (reads_header room clean (.thenBranch ⟨name, named⟩ start brace) _)
      intro opened openedClean openedOwned
      apply Reads.trans
        (Tree.readsAll room body opened bodyTokens _ openedClean bodySpelt (by simp [EndsBlock]))
      intro after afterClean afterOwned
      apply Reads.trans
        (reads_else room afterClean (afterOwned.trans openedOwned) closing word reopening _)
      intro reopened reopenedClean reopenedOwned
      exact (Tree.readsAll room otherwise).close room reopenedClean reopenedOwned laterSpelt noElse
  | .loop name body, state, tokens, rest, clean, spelt, noElse => by
      obtain ⟨start, _, rfl, names⟩ := tokens_eq_cons spelt
      obtain ⟨named, _, rfl, opens⟩ := tokens_eq_cons names
      obtain ⟨brace, later, rfl, laterSpelt⟩ := tokens_eq_cons opens
      exact (Tree.readsAll room body).enter room clean (.loop ⟨name, named⟩ start brace)
        laterSpelt noElse

theorem Tree.readsAll (room : limit.any (· ≤ 0) = false) :
    ∀ trees : List Tree, ReadsBody limit finish trees
  | [], state, tokens, rest, clean, spelt, _ => by
      obtain rfl := List.map_eq_nil_iff.mp spelt
      exact Reads.refl clean rest
  | tree :: trees, state, tokens, rest, clean, spelt, ends => by
      rw [Tree.kindsOfAll_cons] at spelt
      obtain ⟨first, later, rfl, firstSpelt, laterSpelt⟩ := List.map_eq_append_iff.mp spelt
      have noElse : NoElse ((later ++ rest).map Token.kind) := by
        rw [List.map_append, laterSpelt]
        exact ends.noElse_kindsOfAll trees
      rw [List.append_assoc]
      apply Reads.trans (Tree.reads room tree state first _ clean firstSpelt noElse)
      intro after afterClean afterOwned
      rw [← afterOwned]
      exact Tree.readsAll room trees after later rest afterClean laterSpelt ends

end

end Completeness

/-- What the grammar derives is accepted. -/
theorem parseStream_complete {limit : Option Nat} (room : limit.any (· ≤ 0) = false)
    {stream : TokenStream} {trees : List Tree}
    (derivation : IsProgram (stream.tokens.map Token.kind) trees) :
    ∃ program, parseStream limit stream = .ok program := by
  have reads : Reads limit stream.finish ParseState.initial (stream.tokens ++ [])
      ParseState.initial.owners [] :=
    Tree.readsAll room trees ParseState.initial stream.tokens [] rfl derivation.kinds_eq
      endsBlock_nil
  obtain ⟨after, same, owned, clean⟩ := reads
  have final : stream.finalState limit = after := by
    rw [List.append_nil] at same
    exact same.trans (by rw [parseLoop])
  refine ⟨_, parseStream_eq_ok_iff.mpr ⟨?_, ?_, rfl⟩⟩
  · rw [final, clean]
  · rw [final]
    exact List.map_eq_nil_iff.mp owned

/-- A token list is accepted if and only if the grammar derives the tokens before its end of file;
the program then unfolds to the one tree of the derivation. Any other list gets a report with at
least one complaint. -/
theorem parseTokens_accepts_iff_derivable (source : SourceFile) (tokens : List Token)
    (few : (kindsBeforeEnd tokens).count .openBrace < UInt32.size) :
    ((∃ program, parseTokens source tokens = .ok program) ↔
      ∃ trees, IsProgram (kindsBeforeEnd tokens) trees) ∧
    (∀ program, parseTokens source tokens = .ok program →
      ∃ trees, program.unfold? = some trees ∧ Tree.kindsOfAll trees = kindsBeforeEnd tokens ∧
        ∀ others, IsProgram (kindsBeforeEnd tokens) others ↔ others = trees) ∧
    ((¬ ∃ trees, IsProgram (kindsBeforeEnd tokens) trees) →
      ∃ report, parseTokens source tokens = .error report ∧ 1 ≤ report.total) := by
  have sound : ∀ program, parseTokens source tokens = .ok program →
      ∃ trees, program.unfold? = some trees ∧ IsProgram (kindsBeforeEnd tokens) trees := by
    intro program accepted
    rw [← kinds_ofList] at few ⊢
    exact parseStream_sound rfl few (parseTokens_eq_ok_iff.mp accepted)
  have complete : (∃ trees, IsProgram (kindsBeforeEnd tokens) trees) →
      ∃ program, parseTokens source tokens = .ok program := by
    rintro ⟨trees, derivation⟩
    rw [← kinds_ofList] at derivation
    have accepts : ∃ program,
        parseStream (some Report.capacity) (TokenStream.ofList tokens) = .ok program :=
      parseStream_complete rfl derivation
    obtain ⟨program, accepted⟩ := accepts
    exact ⟨program, parseTokens_eq_ok_iff.mpr accepted⟩
  refine ⟨⟨?_, complete⟩, ?_, ?_⟩
  · rintro ⟨program, accepted⟩
    obtain ⟨trees, -, derivation⟩ := sound program accepted
    exact ⟨trees, derivation⟩
  · intro program accepted
    obtain ⟨trees, unfolded, derivation⟩ := sound program accepted
    refine ⟨trees, unfolded, derivation.kinds_eq.symm, fun others => ?_⟩
    constructor
    · intro other
      exact other.unique derivation
    · rintro rfl
      exact derivation
  · intro notDerivable
    cases outcome : parseTokens source tokens with
    | ok program =>
        obtain ⟨trees, -, derivation⟩ := sound program outcome
        exact absurd ⟨trees, derivation⟩ notDerivable
    | error report => exact ⟨report, rfl, parseTokens_error_total outcome⟩

/-- A conditional with an alternative that holds a repeat, followed by a letter. -/
theorem parseTokens_accepts_alternative :
    (kindsBeforeEnd (lex "se luz {A} senao {2{B}} C")).count .openBrace < UInt32.size ∧
      ∃ program, parseTokens ⟨"aula", "se luz {A} senao {2{B}} C"⟩
          (lex "se luz {A} senao {2{B}} C") = .ok program ∧
        program.unfold? = some
          [.alternative "luz" [.action 'A'] [.repeated 2 [.action 'B']], .action 'C'] := by
  have few : (kindsBeforeEnd (lex "se luz {A} senao {2{B}} C")).count .openBrace < UInt32.size := by
    decide +kernel
  have derivation : IsProgram (kindsBeforeEnd (lex "se luz {A} senao {2{B}} C"))
      [.alternative "luz" [.action 'A'] [.repeated 2 [.action 'B']], .action 'C'] :=
    isProgram_iff.mpr (by decide +kernel)
  obtain ⟨accepts, unfolds, -⟩ := parseTokens_accepts_iff_derivable
    ⟨"aula", "se luz {A} senao {2{B}} C"⟩ (lex "se luz {A} senao {2{B}} C") few
  obtain ⟨program, accepted⟩ := accepts.mpr ⟨_, derivation⟩
  obtain ⟨trees, unfolded, -, only⟩ := unfolds program accepted
  refine ⟨few, program, accepted, ?_⟩
  rw [unfolded, (only _).mp derivation]

end RobotScript
