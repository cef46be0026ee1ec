/-
Module: RobotScript.Proofs.SourceRoundTrip
Purpose: From trees to texts and back. A tree whose letters are letters and whose names are names is
  read back from every text in which its tokens are written with blanks between them; and what an
  accepted text unfolds to, however many blocks it has, is such a tree.
Main exports: Tree.WellSpelt, Tree.WellSpeltAll, Tree.blockCount, parse_of_kinds, kinds_of_parse,
  Round.wellSpelt, parse_unfolds_wellSpelt, scripts_round_trip
-/
import RobotScript.Proofs.ParserCorrectness
import RobotScript.Proofs.WrittenTokens

namespace RobotScript

/-! ### Trees that can be written -/

mutual

/-- Every action is a letter and every condition a name, all the way down. -/
def Tree.WellSpelt : Tree → Prop
  | .action letter => isAlphabetic letter = true
  | .block body => WellSpeltAll body
  | .repeated _ body => WellSpeltAll body
  | .conditional condition body => IsName condition ∧ WellSpeltAll body
  | .alternative condition body otherwise =>
      IsName condition ∧ WellSpeltAll body ∧ WellSpeltAll otherwise
  | .loop condition body => IsName condition ∧ WellSpeltAll body

/-- The same of several trees. -/
def Tree.WellSpeltAll : List Tree → Prop
  | [] => True
  | tree :: trees => tree.WellSpelt ∧ WellSpeltAll trees

end

mutual

/-- How many blocks stand in a tree, at any depth. -/
def Tree.blockCount : Tree → Nat
  | .action _ => 0
  | .block body => blockCountOfAll body + 1
  | .repeated _ body => blockCountOfAll body + 1
  | .conditional _ body => blockCountOfAll body + 1
  | .alternative _ body otherwise => blockCountOfAll body + 1 + (blockCountOfAll otherwise + 1)
  | .loop _ body => blockCountOfAll body + 1

/-- How many blocks stand in several trees. -/
def Tree.blockCountOfAll : List Tree → Nat
  | [] => 0
  | tree :: trees => tree.blockCount + blockCountOfAll trees

end

mutual

/-- A block is written with one opening brace. -/
theorem Tree.count_openBrace_kinds : ∀ tree : Tree,
    tree.kinds.count .openBrace = tree.blockCount
  | .action letter => rfl
  | .block body => by
      simp [Tree.kinds, Tree.blockCount, Tree.count_openBrace_kindsOfAll body]
  | .repeated count body => by
      simp [Tree.kinds, Tree.blockCount, Tree.count_openBrace_kindsOfAll body]
  | .conditional condition body => by
      simp [Tree.kinds, Tree.blockCount, Tree.count_openBrace_kindsOfAll body]
  | .alternative condition body otherwise => by
      simp [Tree.kinds, Tree.blockCount, Tree.count_openBrace_kindsOfAll body,
        Tree.count_openBrace_kindsOfAll otherwise]
      omega
  | .loop condition body => by
      simp [Tree.kinds, Tree.blockCount, Tree.count_openBrace_kindsOfAll body]

theorem Tree.count_openBrace_kindsOfAll : ∀ trees : List Tree,
    (Tree.kindsOfAll trees).count .openBrace = Tree.blockCountOfAll trees
  | [] => rfl
  | tree :: trees => by
      simp [Tree.blockCountOfAll, Tree.count_openBrace_kinds tree,
        Tree.count_openBrace_kindsOfAll trees]

end

mutual

/-- The tokens of a well spelt tree are legible: names stand right after the words that introduce
them, and nowhere else. -/
theorem Tree.legible : ∀ {tree : Tree} {later : List TokenKind}, tree.WellSpelt →
    Legible false later → Legible false (tree.kinds ++ later)
  | .action letter, later, wellSpelt, legible => ⟨⟨rfl, wellSpelt⟩, legible⟩
  | .block body, later, wellSpelt, legible => by
      simp only [Tree.kinds, List.cons_append, List.append_assoc]
      exact ⟨trivial, Tree.legibleAll wellSpelt ⟨trivial, legible⟩⟩
  | .repeated count body, later, wellSpelt, legible => by
      simp only [Tree.kinds, List.cons_append, List.append_assoc]
      exact ⟨trivial, trivial, Tree.legibleAll wellSpelt ⟨trivial, legible⟩⟩
  | .conditional condition body, later, wellSpelt, legible => by
      simp only [Tree.kinds, List.cons_append, List.append_assoc]
      exact ⟨trivial, ⟨rfl, wellSpelt.1⟩, trivial,
        Tree.legibleAll wellSpelt.2 ⟨trivial, legible⟩⟩
  | .alternative condition body otherwise, later, wellSpelt, legible => by
      simp only [Tree.kinds, List.cons_append, List.append_assoc]
      have legibleOther :
          Legible false (Tree.kindsOfAll otherwise ++ .closeBrace :: ([] ++ later)) :=
        Tree.legibleAll wellSpelt.2.2 ⟨trivial, legible⟩
      exact ⟨trivial, ⟨rfl, wellSpelt.1⟩, trivial,
        Tree.legibleAll wellSpelt.2.1 ⟨trivial, trivial, trivial, legibleOther⟩⟩
  | .loop condition body, later, wellSpelt, legible => by
      simp only [Tree.kinds, List.cons_append, List.append_assoc]
      exact ⟨trivial, ⟨rfl, wellSpelt.1⟩, trivial,
        Tree.legibleAll wellSpelt.2 ⟨trivial, legible⟩⟩

theorem Tree.legibleAll : ∀ {trees : List Tree} {later : List TokenKind},
    Tree.WellSpeltAll trees → Legible false later → Legible false (Tree.kindsOfAll trees ++ later)
  | [], later, _, legible => legible
  | tree :: trees, later, wellSpelt, legible => by
      rw [Tree.kindsOfAll_cons, List.append_assoc]
      exact Tree.legible wellSpelt.1 (Tree.legibleAll wellSpelt.2 legible)

end

/-! ### Texts and trees -/

theorem Legible.not_endOfFile {named : Bool} {kinds : List TokenKind}
    (legible : Legible named kinds) : ∀ kind ∈ kinds, kind ≠ .endOfFile := by
  induction kinds generalizing named with
  | nil => exact fun _ member => nomatch member
  | cons first later inductionHypothesis =>
      intro kind member
      rcases List.mem_cons.mp member with isFirst | inLater
      · subst isFirst
        rintro rfl
        exact legible.1
      · exact inductionHypothesis legible.2 kind inLater

theorem kindsBeforeEnd_eq {tokens : List Token} {kinds : List TokenKind}
    (spelt : tokens.map Token.kind = kinds ++ [.endOfFile])
    (noEnd : ∀ kind ∈ kinds, kind ≠ .endOfFile) : kindsBeforeEnd tokens = kinds := by
  rw [kindsBeforeEnd, spelt, List.takeWhile_append_of_pos fun kind member => by
    simpa using noEnd kind member]
  simp

/-- A text whose tokens are those of trees is accepted, and becomes these trees. -/
theorem parse_of_kinds {text : String} {trees : List Tree}
    (spelt : kindsBeforeEnd (lex text) = Tree.kindsOfAll trees)
    (few : Tree.blockCountOfAll trees < UInt32.size) (name : String) :
    ∃ program, parse ⟨name, text⟩ = .ok program ∧ program.unfold? = some trees := by
  rw [← Tree.count_openBrace_kindsOfAll, ← spelt, ← kinds_ofList] at few
  have derivation : IsProgram ((TokenStream.ofList (lex text)).tokens.map Token.kind) trees := by
    rw [kinds_ofList, isProgram_iff]
    exact spelt
  have accepts : ∃ program,
      parseStream (some Report.capacity) (TokenStream.ofList (lex text)) = .ok program :=
    parseStream_complete rfl derivation
  rcases accepts with ⟨program, accepted⟩
  rcases parseStream_sound rfl few accepted with ⟨others, unfolded, alsoDerived⟩
  have same : others = trees := alsoDerived.unique derivation
  subst same
  exact ⟨program, parseTokens_eq_ok_iff.mpr accepted, unfolded⟩

/-- The tokens of an accepted text are those of the trees it unfolds to. -/
theorem kinds_of_parse {source : SourceFile} {program : Program}
    (accepted : parse source = .ok program) (few : program.blocks.size ≤ UInt32.size) :
    ∃ trees, program.unfold? = some trees ∧
      kindsBeforeEnd (lex source.text) = Tree.kindsOfAll trees ∧
      Tree.blockCountOfAll trees + 1 = program.blocks.size := by
  have read := parseTokens_eq_ok_iff.mp accepted
  have size := parseStream_size rfl read
  rw [size] at few
  rcases parseStream_sound rfl few read with ⟨trees, unfolded, derivation⟩
  rw [kinds_ofList] at derivation size
  refine ⟨trees, unfolded, derivation.kinds_eq, ?_⟩
  rw [size, derivation.kinds_eq, Tree.count_openBrace_kindsOfAll]

/-! ### What accepted texts unfold to

Letters and names go from the tokens into the statements, so they are well spelt in every block of
the table, and then in the trees that the blocks unfold to. No bound on the table is needed: its
blocks refer downwards also where numbers are given out anew. -/

/-- The letter or the name in a statement is well spelt. -/
def Stmt.WellSpelt : Stmt → Prop
  | .action letter _ => isAlphabetic letter = true
  | .conditional condition _ _ _ => IsName condition.name
  | .loop condition _ _ => IsName condition.name
  | _ => True

/-- The name that an open block waits with is well spelt. -/
def Owner.WellSpelt : Owner → Prop
  | .thenBranch condition _ => IsName condition.name
  | .elseBranch condition _ _ => IsName condition.name
  | .loop condition _ => IsName condition.name
  | _ => True

/-- All letters and names read so far are well spelt. -/
structure ParseState.WellSpelt (state : ParseState) : Prop where
  stmts : ∀ stmt ∈ state.stmts, stmt.WellSpelt
  owners : ∀ owner ∈ state.owners, owner.WellSpelt

theorem Owner.WellSpelt.statement {owner : Owner} (wellSpelt : owner.WellSpelt) (id : BlockId)
    (close : Span) : (owner.statement id close).WellSpelt := by
  cases owner <;> exact wellSpelt

namespace ParseState.WellSpelt

variable {state : ParseState}

theorem addStmt (wellSpelt : state.WellSpelt) {stmt : Stmt} (spelt : stmt.WellSpelt) :
    (state.addStmt stmt).WellSpelt := by
  constructor
  · intro other member
    rcases List.mem_cons.mp ((state.addStmt_stmts stmt).mem_iff.mp member) with isNew | old
    · subst isNew
      exact spelt
    · exact wellSpelt.stmts other old
  · rw [state.addStmt_owners]
    exact wellSpelt.owners

theorem enter (wellSpelt : state.WellSpelt) {block : OpenBlock} (empty : block.stmts = #[])
    (owned : block.owner.WellSpelt) : (state.enter block).WellSpelt := by
  constructor
  · rw [state.enter_stmts empty]
    exact wellSpelt.stmts
  · intro owner member
    rcases List.mem_cons.mp member with isNew | old
    · subst isNew
      exact owned
    · exact wellSpelt.owners owner old

theorem closeInto (wellSpelt : state.WellSpelt) {block : OpenBlock} {outer : List OpenBlock}
    (nested : state.nest = block :: outer) (brace : Span) :
    (state.closeInto block outer brace).WellSpelt ∧ block.owner.WellSpelt := by
  have owners : state.owners = block.owner :: outer.map OpenBlock.owner := by
    simp [ParseState.owners, nested]
  have each := wellSpelt.owners
  rw [owners] at each
  refine ⟨⟨?_, fun owner member => each owner (List.mem_cons_of_mem _ member)⟩,
    each _ List.mem_cons_self⟩
  rw [ParseState.closeInto_stmts nested]
  exact wellSpelt.stmts

end ParseState.WellSpelt

/-- A header brings the name that stands in it. -/
theorem Header.wellSpelt {read : List Token} {block : OpenBlock} (header : Header read block)
    (spelt : ∀ token ∈ read, token.kind.WellSpelt) : block.owner.WellSpelt := by
  cases header with
  | bare => trivial
  | repeated => trivial
  | thenBranch condition start brace =>
      exact spelt ⟨.identifier condition.name, condition.span⟩ (by simp)
  | loop condition start brace =>
      exact spelt ⟨.identifier condition.name, condition.span⟩ (by simp)

/-- A round takes its letters and names from the tokens. -/
theorem Round.wellSpelt {state after : ParseState} {tokens rest : List Token}
    (round : Round state tokens after rest) (spelt : ∀ token ∈ tokens, token.kind.WellSpelt)
    (wellSpelt : state.WellSpelt) :
    after.WellSpelt ∧ ∀ token ∈ rest, token.kind.WellSpelt := by
  cases round with
  | acts letter span =>
      have isLetter : isAlphabetic letter = true :=
        spelt ⟨.action letter, span⟩ List.mem_cons_self
      exact ⟨wellSpelt.addStmt isLetter,
        fun token member => spelt token (List.mem_cons_of_mem _ member)⟩
  | opens header =>
      have owned := header.wellSpelt fun token member => spelt token (List.mem_append_left _ member)
      exact ⟨wellSpelt.enter header.facts.2.2.1 owned,
        fun token member => spelt token (List.mem_append_right _ member)⟩
  | closes nested brace =>
      rcases wellSpelt.closeInto nested brace with ⟨closed, owned⟩
      exact ⟨closed.addStmt (owned.statement _ _),
        fun token member => spelt token (List.mem_cons_of_mem _ member)⟩
  | reopens nested ownedBy brace =>
      rcases wellSpelt.closeInto nested brace with ⟨closed, owned⟩
      rw [ownedBy] at owned
      refine ⟨closed.enter rfl owned, fun token member => spelt token ?_⟩
      exact List.mem_cons_of_mem _ (List.mem_cons_of_mem _ (List.mem_cons_of_mem _ member))

/-- The statements of an accepted text are well spelt. -/
theorem parse_stmts_wellSpelt {source : SourceFile} {program : Program}
    (accepted : parse source = .ok program) : ∀ stmt ∈ program.stmts, stmt.WellSpelt := by
  have read := parseTokens_eq_ok_iff.mp accepted
  have initially : ParseState.initial.WellSpelt := ⟨nofun, nofun⟩
  have spelt : ∀ token ∈ (TokenStream.ofList (lex source.text)).tokens, token.kind.WellSpelt :=
    fun token member => lex_wellSpelt source.text token ((List.takeWhile_sublist _).subset member)
  have kept := parseStream_preserves
    (P := fun state rest => state.WellSpelt ∧ ∀ token ∈ rest, token.kind.WellSpelt)
    (fun round holds => round.wellSpelt holds.2 holds.1) rfl ⟨initially, spelt⟩ read
  rcases parseStream_eq_ok_iff.mp read with ⟨-, closed, rfl⟩
  rw [ParseState.finish_stmts closed]
  exact kept.1.stmts

theorem Tree.wellSpeltAll_iff {trees : List Tree} :
    Tree.WellSpeltAll trees ↔ ∀ tree ∈ trees, tree.WellSpelt := by
  induction trees with
  | nil => simp [Tree.WellSpeltAll]
  | cons tree trees inductionHypothesis => simp [Tree.WellSpeltAll, inductionHypothesis]

/-- A well spelt statement becomes a well spelt tree if its blocks become such trees. -/
theorem Stmt.WellSpelt.tree {trees? : BlockId → Option (List Tree)} {stmt : Stmt}
    (wellSpelt : stmt.WellSpelt)
    (bodies : ∀ id trees, trees? id = some trees → Tree.WellSpeltAll trees) {tree : Tree}
    (found : stmt.tree? trees? = some tree) : tree.WellSpelt := by
  cases stmt with
  | action letter span =>
      cases found
      exact wellSpelt
  | block id =>
      rcases Option.map_eq_some_iff.mp found with ⟨body, unfolds, rfl⟩
      exact bodies id body unfolds
  | repeated count id span =>
      rcases Option.map_eq_some_iff.mp found with ⟨body, unfolds, rfl⟩
      exact bodies id body unfolds
  | loop condition id span =>
      rcases Option.map_eq_some_iff.mp found with ⟨body, unfolds, rfl⟩
      exact ⟨wellSpelt, bodies id body unfolds⟩
  | conditional condition id other? span =>
      cases other? with
      | none =>
          rcases Option.map_eq_some_iff.mp found with ⟨body, unfolds, rfl⟩
          exact ⟨wellSpelt, bodies id body unfolds⟩
      | some other =>
          rcases Option.bind_eq_some_iff.mp found with ⟨body, unfolds, found⟩
          rcases Option.map_eq_some_iff.mp found with ⟨otherwise, otherUnfolds, rfl⟩
          exact ⟨wellSpelt, bodies id body unfolds, bodies other otherwise otherUnfolds⟩

theorem Program.unfoldBlock?_wellSpelt {program : Program}
    (wellSpelt : ∀ stmt ∈ program.stmts, stmt.WellSpelt) {depth : Nat} {id : BlockId}
    {trees : List Tree} (found : program.unfoldBlock? depth id = some trees) :
    Tree.WellSpeltAll trees := by
  induction depth generalizing id trees with
  | zero => simp [unfoldBlock?] at found
  | succ depth inductionHypothesis =>
      rcases Option.bind_eq_some_iff.mp found with ⟨block, here, unfolded⟩
      rw [mapM_eq_some_iff_forall₂] at unfolded
      rw [Tree.wellSpeltAll_iff]
      intro tree member
      rcases List.getElem_of_mem member with ⟨index, inTrees, rfl⟩
      have inBlock : index < block.stmts.toList.length := unfolded.length_eq ▸ inTrees
      have stmtFound := unfolded.get inBlock inTrees
      have inProgram : block.stmts.toList.get ⟨index, inBlock⟩ ∈ program.stmts :=
        List.mem_flatMap_of_mem (Array.mem_toList_iff.mpr (Array.mem_of_getElem? here))
          (List.get_mem _ _)
      exact (wellSpelt _ inProgram).tree (fun _ _ => inductionHypothesis) stmtFound

/-- An accepted text unfolds, and to a well spelt tree. -/
theorem parse_unfolds_wellSpelt {source : SourceFile} {program : Program}
    (accepted : parse source = .ok program) :
    ∃ trees, program.unfold? = some trees ∧ Tree.WellSpeltAll trees := by
  have read := parseTokens_eq_ok_iff.mp accepted
  have descending := parseStream_descending rfl read
  have inTable : program.root.number.toNat < program.blocks.size := by
    rcases parseStream_eq_ok_iff.mp read with ⟨-, -, rfl⟩
    rw [ParseState.finish, Array.size_push]
    exact Nat.lt_succ_of_le (ParseState.nextId_index_le _)
  rcases descending.exists_unfolds inTable with ⟨trees, unfolds⟩
  have unfolded := Program.unfold?_eq_some descending unfolds
  exact ⟨trees, unfolded,
    Program.unfoldBlock?_wellSpelt (parse_stmts_wellSpelt accepted) unfolded⟩

/-- A well spelt tree with fewer than 2^32 - 1 blocks is read back from every text in which its
tokens are written with blanks between them; and every accepted text unfolds to a well spelt
tree. -/
theorem scripts_round_trip :
    (∀ (trees : List Tree) (gaps : Nat → List Char) (name : String), Tree.WellSpeltAll trees →
      Tree.blockCountOfAll trees < 2 ^ 32 - 1 →
      Separates gaps (Tree.kindsOfAll trees).length →
      ∃ program, parse ⟨name, String.ofList (spaced gaps (Tree.kindsOfAll trees))⟩ = .ok program ∧
        program.unfold? = some trees) ∧
    (∀ (source : SourceFile) (program : Program), parse source = .ok program →
      ∃ trees, program.unfold? = some trees ∧ Tree.WellSpeltAll trees) := by
  constructor
  · intro trees gaps name wellSpelt few separates
    have legible : Legible false (Tree.kindsOfAll trees ++ []) :=
      Tree.legibleAll wellSpelt trivial
    rw [List.append_nil] at legible
    have readBack := legible.kinds_tokensFrom separates Position.start
    have sameText : (String.ofList (spaced gaps (Tree.kindsOfAll trees))).toList = _ :=
      String.toList_ofList
    rw [← sameText, ← lex_eq_tokensFrom] at readBack
    have room : Tree.blockCountOfAll trees < UInt32.size := Nat.lt_of_lt_of_le few (by decide)
    exact parse_of_kinds (kindsBeforeEnd_eq readBack legible.not_endOfFile) room name
  · intro source program accepted
    exact parse_unfolds_wellSpelt accepted

/-- The letters of `se` apart from each other, a name that begins with one of them, an empty body,
and blanks of several kinds in turn. -/
theorem scripts_round_trip_spaced :
    let trees : List Tree := [.alternative "sol_2" [.action 's', .action 'e'] [.repeated 40 []]]
    let gaps : Nat → List Char := fun index => if index % 2 = 0 then [' '] else ['\u3000', '\n']
    Tree.WellSpeltAll trees ∧ Separates gaps (Tree.kindsOfAll trees).length ∧
      ∃ program, parse ⟨"aula", String.ofList (spaced gaps (Tree.kindsOfAll trees))⟩ = .ok program ∧
        program.unfold? = some trees := by
  intro trees gaps
  have isName : IsName "sol_2" := by
    have run : ∀ c ∈ ['o', 'l', '_', '2'], isNameChar c = true := List.all_eq_true.mp (by decide)
    refine ⟨'s', ['o', 'l', '_', '2'], rfl, by decide, run, fun word => ?_⟩
    cases word <;> decide
  have letters : isAlphabetic 's' = true ∧ isAlphabetic 'e' = true := by decide
  have wellSpelt : Tree.WellSpeltAll trees :=
    ⟨⟨isName, ⟨letters.1, letters.2, trivial⟩, trivial, trivial⟩, trivial⟩
  have separates : Separates gaps (Tree.kindsOfAll trees).length := by
    constructor
    · intro index
      by_cases even : index % 2 = 0
      · simp only [gaps, if_pos even]
        exact List.all_eq_true.mp (by decide)
      · simp only [gaps, if_neg even]
        exact List.all_eq_true.mp (by decide)
    · intro index _ _
      by_cases even : index % 2 = 0 <;> simp [gaps, even]
  have few : Tree.blockCountOfAll trees < 2 ^ 32 - 1 := by decide
  exact ⟨wellSpelt, separates, scripts_round_trip.1 trees gaps "aula" wellSpelt few separates⟩

end RobotScript
