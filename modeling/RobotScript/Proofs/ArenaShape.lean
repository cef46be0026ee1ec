/-
Module: RobotScript.Proofs.ArenaShape
Purpose: The table of an accepted script is a tree. While blocks are being closed, every number
  given out so far stands in exactly one place: in a statement of a closed block, of an open block
  or of the top level, or kept by a `senao` branch for the conditional it will complete.
Main exports: Program.references, Program.IsTree, ParseState.Covered, Round.descending, Arranged,
  Round.arranged, parseStream_descending, Program.IsTree.block_induction, parseTokens_isTree
-/
import Mathlib.Data.List.Count
import Mathlib.Data.List.Nodup
import Mathlib.Data.List.Perm.Basic
import RobotScript.Proofs.ParserRounds
import RobotScript.Proofs.Unfolding

namespace RobotScript

/-! ### References -/

/-- Whether the token is the letter of an action. -/
def TokenKind.isAction : TokenKind → Bool
  | action _ => true
  | _ => false

/-- The index that a block number stands for. -/
def BlockId.index (id : BlockId) : Nat :=
  id.number.toNat

theorem BlockId.index_injective : Function.Injective BlockId.index := by
  rintro ⟨first⟩ ⟨second⟩ same
  exact congrArg BlockId.mk (UInt32.toNat_inj.mp same)

/-- All places of the program in which a statement refers to a block. -/
def Program.references (program : Program) : List BlockId :=
  program.stmts.flatMap Stmt.blocks

/-- Each block but the top level belongs to exactly one place of a block after it, and the top
level, which comes last, to none. -/
structure Program.IsTree (program : Program) : Prop where
  inTable : ∀ id ∈ program.references, (program.block? id).isSome = true
  once : ∀ id, (program.block? id).isSome = true → id ≠ program.root →
    program.references.count id = 1
  rootFree : program.references.count program.root = 0
  rootLast : program.root.index + 1 = program.blocks.size
  descending : program.Descending

/-- The number that an open block keeps until it is closed. -/
def Owner.parked : Owner → List BlockId
  | elseBranch _ thenBlock _ => [thenBlock]
  | _ => []

namespace ParseState

/-- The statements read so far: those of closed blocks, of open ones and of the top level. -/
def stmts (state : ParseState) : List Stmt :=
  (state.blocks.toList.flatMap fun block => block.stmts.toList) ++
    (state.nest.flatMap fun block => block.stmts.toList) ++ state.top.toList

/-- The numbers that open blocks keep. -/
def parked (state : ParseState) : List BlockId :=
  state.nest.flatMap fun block => block.owner.parked

/-- All places in which a number stands. -/
def references (state : ParseState) : List BlockId :=
  state.stmts.flatMap Stmt.blocks ++ state.parked

theorem addStmt_blocks (state : ParseState) (stmt : Stmt) :
    (state.addStmt stmt).blocks = state.blocks := by
  simp only [addStmt]
  split <;> rfl

theorem addStmt_nest_length (state : ParseState) (stmt : Stmt) :
    (state.addStmt stmt).nest.length = state.nest.length := by
  simp only [addStmt]
  split <;> rfl

theorem addStmt_parked (state : ParseState) (stmt : Stmt) :
    (state.addStmt stmt).parked = state.parked := by
  simp only [addStmt]
  split <;> rfl

theorem addStmt_stmts (state : ParseState) (stmt : Stmt) :
    (state.addStmt stmt).stmts.Perm (stmt :: state.stmts) := by
  simp only [addStmt]
  split
  · simp only [stmts, Array.toList_push, ← List.append_assoc]
    exact List.perm_append_singleton _ _
  · simp only [stmts, List.flatMap_cons, Array.toList_push, List.append_assoc]
    rw [List.singleton_append, ← List.append_assoc]
    refine List.perm_middle.trans ?_
    simp

theorem addStmt_references (state : ParseState) (stmt : Stmt) :
    (state.addStmt stmt).references.Perm (stmt.blocks ++ state.references) := by
  simp only [references]
  rw [addStmt_parked, ← List.append_assoc, ← List.flatMap_cons]
  exact ((state.addStmt_stmts stmt).flatMap_right Stmt.blocks).append_right _

/-- A block is opened empty, and only its owner can bring a number with it. -/
theorem enter_stmts (state : ParseState) {block : OpenBlock} (empty : block.stmts = #[]) :
    (state.enter block).stmts = state.stmts := by
  simp [stmts, enter, empty]

theorem enter_references (state : ParseState) {block : OpenBlock} (empty : block.stmts = #[]) :
    (state.enter block).references.Perm (block.owner.parked ++ state.references) := by
  simp only [references]
  rw [state.enter_stmts empty, parked, enter, List.flatMap_cons]
  exact List.perm_append_comm_assoc _ _ _

/-- Closing a block moves its statements to the table. -/
theorem closeInto_stmts {state : ParseState} {block : OpenBlock} {outer : List OpenBlock}
    (nested : state.nest = block :: outer) (brace : Span) :
    (state.closeInto block outer brace).stmts = state.stmts := by
  simp [stmts, closeInto, nested]

theorem closeInto_references {state : ParseState} {block : OpenBlock} {outer : List OpenBlock}
    (nested : state.nest = block :: outer) (brace : Span) :
    (block.owner.parked ++ (state.closeInto block outer brace).references).Perm
      state.references := by
  simp only [references]
  rw [closeInto_stmts nested, parked, parked, nested, List.flatMap_cons]
  exact List.perm_append_comm_assoc _ _ _

end ParseState

/-- The statement of a closed block refers to it, and to the block its owner kept. -/
theorem Owner.statement_blocks (owner : Owner) (id : BlockId) (close : Span) :
    (owner.statement id close).blocks.Perm (id :: owner.parked) := by
  cases owner with
  | elseBranch condition thenBlock start => exact List.Perm.swap id thenBlock []
  | _ => exact List.Perm.refl [id]

theorem Owner.statement_isAction (owner : Owner) (id : BlockId) (close : Span) :
    (owner.statement id close).isAction = false := by
  cases owner <;> rfl

/-! ### What every clean round does to the table -/

theorem Header.facts {read : List Token} {block : OpenBlock} (header : Header read block) :
    (read.map Token.kind).count .openBrace = 1 ∧
      (read.map Token.kind).countP TokenKind.isAction = 0 ∧
      block.stmts = #[] ∧ block.owner.parked = [] := by
  cases header <;> exact ⟨rfl, rfl, rfl, rfl⟩

/-- A brace is read when its block is opened, and the block is open until it is in the table. -/
theorem Round.braces_eq {state after : ParseState} {tokens rest : List Token}
    (round : Round state tokens after rest) :
    after.blocks.size + after.nest.length + (rest.map Token.kind).count .openBrace =
      state.blocks.size + state.nest.length + (tokens.map Token.kind).count .openBrace := by
  cases round with
  | acts letter span =>
      rw [state.addStmt_blocks, state.addStmt_nest_length]
      simp
  | opens header =>
      obtain ⟨oneBrace, -⟩ := header.facts
      simp only [ParseState.enter, List.map_append, List.count_append, oneBrace, List.length_cons]
      omega
  | closes nested =>
      rw [ParseState.addStmt_blocks, ParseState.addStmt_nest_length]
      simp [ParseState.closeInto, nested]
      omega
  | reopens nested =>
      simp [ParseState.enter, ParseState.closeInto, nested]
      omega

/-- An action is read when its statement is added; no other statement is one. -/
theorem Round.actions_eq {state after : ParseState} {tokens rest : List Token}
    (round : Round state tokens after rest) :
    after.stmts.countP Stmt.isAction + (rest.map Token.kind).countP TokenKind.isAction =
      state.stmts.countP Stmt.isAction + (tokens.map Token.kind).countP TokenKind.isAction := by
  cases round with
  | acts letter span =>
      rw [(state.addStmt_stmts (.action letter span)).countP_eq, List.map_cons,
        List.countP_cons_of_pos rfl, List.countP_cons_of_pos rfl]
      omega
  | opens header =>
      obtain ⟨-, noAction, empty, -⟩ := header.facts
      rw [state.enter_stmts empty, List.map_append, List.countP_append, noAction]
      omega
  | @closes block _ nested brace =>
      have noAction := block.owner.statement_isAction state.nextId brace
      rw [(ParseState.addStmt_stmts _ _).countP_eq, ParseState.closeInto_stmts nested,
        List.map_cons, List.countP_cons_of_neg (by simp [noAction]),
        List.countP_cons_of_neg (by simp [TokenKind.isAction])]
  | @reopens block outer nested _ _ _ brace =>
      rw [ParseState.enter_stmts _ rfl, ParseState.closeInto_stmts nested]
      simp only [List.map_cons]
      rw [List.countP_cons_of_neg (by simp [TokenKind.isAction]),
        List.countP_cons_of_neg (by simp [TokenKind.isAction]),
        List.countP_cons_of_neg (by simp [TokenKind.isAction])]

/-- A round leaves the table as it is, or adds the innermost block to it and puts its number in
one new place. -/
theorem Round.table_cases {state after : ParseState} {tokens rest : List Token}
    (round : Round state tokens after rest) :
    (after.blocks = state.blocks ∧ after.references.Perm state.references) ∨
      ∃ block outer span, state.nest = block :: outer ∧
        after.blocks = state.blocks.push ⟨block.stmts, span⟩ ∧
        after.references.Perm (state.nextId :: state.references) := by
  cases round with
  | acts letter span =>
      exact Or.inl ⟨state.addStmt_blocks _, state.addStmt_references (.action letter span)⟩
  | opens header =>
      obtain ⟨-, -, empty, noneParked⟩ := header.facts
      have sameReferences := state.enter_references empty
      rw [noneParked] at sameReferences
      exact Or.inl ⟨rfl, sameReferences⟩
  | @closes block outer nested brace =>
      refine Or.inr ⟨block, outer, _, nested, ParseState.addStmt_blocks _ _, ?_⟩
      refine (ParseState.addStmt_references _ _).trans ?_
      refine ((block.owner.statement_blocks _ _).append_right _).trans ?_
      exact (ParseState.closeInto_references nested brace).cons _
  | @reopens block outer nested condition start owned brace word openBrace =>
      -- The number of the closed block is parked until its conditional is complete.
      have closed := ParseState.closeInto_references nested brace
      rw [owned] at closed
      refine Or.inr ⟨block, outer, _, nested, rfl, ?_⟩
      exact (ParseState.enter_references _ rfl).trans (closed.cons state.nextId)

/-! ### Blocks refer downwards

Beyond 2^32 blocks the numbers begin anew, so two blocks may get the same one, but never one that
the table does not have. -/

theorem ParseState.nextId_index_le (state : ParseState) :
    state.nextId.index ≤ state.blocks.size := by
  simp only [nextId, BlockId.index, UInt32.toNat_ofNat']
  exact Nat.mod_le _ _

/-- The numbers in use are within the table. -/
def ParseState.Covered (state : ParseState) : Prop :=
  ∀ id ∈ state.references, id.index < state.blocks.size

theorem ParseState.Covered.index_lt {state : ParseState} (covered : state.Covered) {stmt : Stmt}
    (read : stmt ∈ state.stmts) {id : BlockId} (refers : id ∈ stmt.blocks) :
    id.index < state.blocks.size :=
  covered id (List.mem_append_left _ (List.mem_flatMap_of_mem read refers))

theorem Round.covered {state after : ParseState} {tokens rest : List Token}
    (round : Round state tokens after rest) (covered : state.Covered) : after.Covered := by
  intro id refers
  rcases round.table_cases with ⟨sameBlocks, sameReferences⟩ | ⟨_, _, _, _, pushed, grown⟩
  · rw [sameBlocks]
    exact covered id (sameReferences.mem_iff.mp refers)
  · rw [pushed, Array.size_push]
    rcases List.mem_cons.mp (grown.mem_iff.mp refers) with rfl | before
    · exact Nat.lt_succ_of_le state.nextId_index_le
    · exact Nat.lt_succ_of_lt (covered id before)

/-- A new block whose references are old numbers keeps the table descending. -/
theorem descending_push {blocks : Array Block} {block : Block} {root next : BlockId}
    (descending : (Program.mk blocks root).Descending)
    (old : ∀ stmt ∈ block.stmts.toList, ∀ id ∈ stmt.blocks, id.index < blocks.size) :
    (Program.mk (blocks.push block) next).Descending := by
  intro index found here stmt member id refers
  rw [Array.getElem?_push] at here
  split at here
  · rename_i last
    obtain rfl := Option.some.inj here
    rw [last]
    exact old stmt member id refers
  · exact descending index found here stmt member id refers

theorem Round.descending {state after : ParseState} {tokens rest : List Token}
    (round : Round state tokens after rest) (covered : state.Covered)
    (descending : (Program.mk state.blocks state.nextId).Descending) :
    (Program.mk after.blocks after.nextId).Descending := by
  rcases round.table_cases with ⟨sameBlocks, -⟩ | ⟨block, outer, span, nested, pushed, -⟩
  · rw [sameBlocks]
    exact descending
  · rw [pushed]
    refine descending_push descending fun stmt member id refers => ?_
    apply covered.index_lt _ refers
    simp only [ParseState.stmts, nested, List.flatMap_cons, List.mem_append]
    exact Or.inl (Or.inr (Or.inl member))

/-- So does the top level, which comes last. -/
theorem ParseState.Covered.finish_descending {state : ParseState} (covered : state.Covered)
    (descending : (Program.mk state.blocks state.nextId).Descending) (span : Span) :
    (state.finish span).Descending := by
  refine descending_push descending fun stmt member id refers => ?_
  apply covered.index_lt _ refers
  exact List.mem_append_right _ member

/-! ### What every clean round keeps -/

/-- The numbers below the size of the table stand in one place each; blocks refer downwards; and
what is read and what is left make up the same numbers of braces and of actions. -/
structure Arranged (braces actions : Nat) (state : ParseState) (rest : List Token) : Prop where
  bracesLeft : state.blocks.size + state.nest.length +
    (rest.map Token.kind).count .openBrace = braces
  actionsLeft : state.stmts.countP Stmt.isAction +
    (rest.map Token.kind).countP TokenKind.isAction = actions
  placed : (state.references.map BlockId.index).Perm (List.range state.blocks.size)
  descending : (Program.mk state.blocks state.nextId).Descending

theorem Arranged.initial (tokens : List Token) :
    Arranged ((tokens.map Token.kind).count .openBrace)
      ((tokens.map Token.kind).countP TokenKind.isAction) ParseState.initial tokens where
  bracesLeft := by simp [ParseState.initial]
  actionsLeft := by simp [ParseState.initial, ParseState.stmts]
  placed := List.Perm.refl []
  descending := by
    intro index block here
    simp [ParseState.initial] at here

/-- As long as the table has room for its numbers, the next number is its size. -/
theorem ParseState.nextId_index {state : ParseState} (room : state.blocks.size < UInt32.size) :
    state.nextId.index = state.blocks.size := by
  simp only [nextId, BlockId.index, UInt32.toNat_ofNat']
  exact Nat.mod_eq_of_lt room

theorem Arranged.covered {braces actions : Nat} {state : ParseState} {rest : List Token}
    (arranged : Arranged braces actions state rest) : state.Covered := by
  intro id placed
  have inRange := arranged.placed.mem_iff.mp (List.mem_map_of_mem placed)
  exact List.mem_range.mp inRange

/-- A closed block was opened by a brace, so where braces are few the table has room. -/
theorem Arranged.size_lt {braces actions : Nat} (few : braces < UInt32.size) {state : ParseState}
    {rest : List Token} (arranged : Arranged braces actions state rest) :
    state.blocks.size < UInt32.size := by
  have left := arranged.bracesLeft
  omega

theorem Round.arranged {braces actions : Nat} (few : braces < UInt32.size)
    {state after : ParseState} {tokens rest : List Token} (round : Round state tokens after rest)
    (arranged : Arranged braces actions state tokens) : Arranged braces actions after rest := by
  have bracesLeft := round.braces_eq.trans arranged.bracesLeft
  have actionsLeft := round.actions_eq.trans arranged.actionsLeft
  have descending := round.descending arranged.covered arranged.descending
  rcases round.table_cases with ⟨sameBlocks, sameReferences⟩ | ⟨block, outer, span, nested, pushed,
    grown⟩
  · refine ⟨bracesLeft, actionsLeft, ?_, descending⟩
    rw [sameBlocks]
    exact (sameReferences.map BlockId.index).trans arranged.placed
  · have room := arranged.size_lt few
    refine ⟨bracesLeft, actionsLeft, ?_, descending⟩
    refine (grown.map BlockId.index).trans ?_
    rw [pushed, Array.size_push, List.map_cons, ParseState.nextId_index room, List.range_succ]
    exact (arranged.placed.cons _).trans (List.perm_append_singleton _ _).symm

/-! ### Accepted streams -/

/-- Every opening brace of an accepted stream has become a block, besides the top level. -/
theorem parseStream_size {limit : Option Nat} (room : limit.any (· ≤ 0) = false)
    {stream : TokenStream} {program : Program} (accepted : parseStream limit stream = .ok program) :
    program.blocks.size = (stream.tokens.map Token.kind).count .openBrace + 1 := by
  have kept := parseStream_preserves
    (P := fun state rest => state.blocks.size + state.nest.length +
      (rest.map Token.kind).count .openBrace = (stream.tokens.map Token.kind).count .openBrace)
    (fun round holds => round.braces_eq.trans holds) room (by simp [ParseState.initial]) accepted
  obtain ⟨-, closed, rfl⟩ := parseStream_eq_ok_iff.mp accepted
  rw [closed] at kept
  rw [ParseState.finish, Array.size_push, ← kept]
  rfl

/-- The blocks of an accepted stream refer downwards, however many there are. -/
theorem parseStream_descending {limit : Option Nat} (room : limit.any (· ≤ 0) = false)
    {stream : TokenStream} {program : Program} (accepted : parseStream limit stream = .ok program) :
    program.Descending := by
  have kept := parseStream_preserves
    (P := fun state _ => state.Covered ∧ (Program.mk state.blocks state.nextId).Descending)
    (fun round holds => ⟨round.covered holds.1, round.descending holds.1 holds.2⟩) room
    ⟨nofun, by simp [Program.Descending, ParseState.initial]⟩ accepted
  obtain ⟨covered, descending⟩ := kept
  obtain ⟨-, -, rfl⟩ := parseStream_eq_ok_iff.mp accepted
  exact covered.finish_descending descending stream.span

theorem parseStream_arranged {limit : Option Nat} (room : limit.any (· ≤ 0) = false)
    {stream : TokenStream} (few : (stream.tokens.map Token.kind).count .openBrace < UInt32.size)
    {program : Program} (accepted : parseStream limit stream = .ok program) :
    Arranged ((stream.tokens.map Token.kind).count .openBrace)
      ((stream.tokens.map Token.kind).countP TokenKind.isAction) (stream.finalState limit) [] :=
  parseStream_preserves (fun round holds => round.arranged few holds) room
    (Arranged.initial stream.tokens) accepted

theorem Program.block?_isSome_iff {program : Program} {id : BlockId} :
    (program.block? id).isSome = true ↔ id.index < program.blocks.size := by
  rw [Option.isSome_iff_ne_none, block?, ne_eq, Array.getElem?_eq_none_iff, Nat.not_le]
  exact Iff.rfl

namespace ParseState

theorem finish_stmts {state : ParseState} (closed : state.nest = []) (span : Span) :
    (state.finish span).stmts = state.stmts := by
  simp [Program.stmts, finish, stmts, closed]

theorem finish_references {state : ParseState} (closed : state.nest = []) (span : Span) :
    (state.finish span).references = state.references := by
  unfold Program.references references
  rw [finish_stmts closed]
  simp [parked, closed]

end ParseState

theorem Arranged.isTree {braces actions : Nat} (few : braces < UInt32.size) {state : ParseState}
    (arranged : Arranged braces actions state []) (closed : state.nest = []) (span : Span) :
    (state.finish span).IsTree := by
  have room := arranged.size_lt few
  have rootIndex : (state.finish span).root.index = state.blocks.size :=
    ParseState.nextId_index room
  have size : (state.finish span).blocks.size = state.blocks.size + 1 := Array.size_push _
  have counted : ∀ id : BlockId, (state.finish span).references.count id =
      (List.range state.blocks.size).count id.index := by
    intro id
    rw [ParseState.finish_references closed, ← arranged.placed.count_eq]
    exact (List.count_map_of_injective _ _ BlockId.index_injective id).symm
  refine ⟨?_, ?_, ?_, ?_, arranged.covered.finish_descending arranged.descending span⟩
  · intro id refers
    rw [Program.block?_isSome_iff, size]
    rw [ParseState.finish_references closed] at refers
    exact Nat.lt_succ_of_lt (arranged.covered id refers)
  · intro id inTable notRoot
    rw [Program.block?_isSome_iff, size] at inTable
    have notLast : id.index ≠ state.blocks.size := by
      intro last
      exact notRoot (BlockId.index_injective (last.trans rootIndex.symm))
    rw [counted]
    apply List.count_eq_one_of_mem List.nodup_range
    exact List.mem_range.mpr (by omega)
  · rw [counted, rootIndex]
    apply List.count_eq_zero_of_not_mem
    simp
  · rw [rootIndex, size]

namespace Program.IsTree

variable {program : Program}

/-- Every block but the top level belongs to a statement of a block after it. -/
theorem exists_holder (isTree : program.IsTree) {id : BlockId}
    (inTable : (program.block? id).isSome = true) (notRoot : id ≠ program.root) :
    ∃ holder block, program.block? holder = some block ∧ id.index < holder.index ∧
      ∃ stmt ∈ block.stmts.toList, id ∈ stmt.blocks := by
  have once := isTree.once id inTable notRoot
  have referred : id ∈ program.references := List.count_pos_iff.mp (once ▸ Nat.one_pos)
  obtain ⟨stmt, inProgram, refers⟩ := List.mem_flatMap.mp referred
  obtain ⟨block, inBlocks, member⟩ := List.mem_flatMap.mp inProgram
  obtain ⟨index, here⟩ := Array.mem_iff_getElem?.mp (Array.mem_toList_iff.mp inBlocks)
  have below : index < program.blocks.size := (Array.getElem?_eq_some_iff.mp here).1
  have rootLast := isTree.rootLast
  have fits : program.root.index < UInt32.size := program.root.number.toNat_lt
  have number : (UInt32.ofNat index).toNat = index := UInt32.toNat_ofNat_of_lt' (by omega)
  refine ⟨⟨UInt32.ofNat index⟩, block, ?_, ?_, stmt, member, refers⟩
  · rw [block?, number]
    exact here
  · rw [BlockId.index, BlockId.index, number]
    exact isTree.descending index block here stmt member id refers

/-- What holds of the top level and passes from each block to those of its statements holds of every
block: those that come after it in the table do so by induction. -/
theorem block_induction (isTree : program.IsTree) {P : BlockId → Prop} (root : P program.root)
    (step : ∀ id block, program.block? id = some block → P id →
      ∀ stmt ∈ block.stmts.toList, ∀ inner ∈ stmt.blocks, P inner)
    (id : BlockId) (inTable : (program.block? id).isSome = true) : P id := by
  by_cases isRoot : id = program.root
  · rw [isRoot]
    exact root
  · obtain ⟨holder, block, here, after, stmt, member, refers⟩ :=
      isTree.exists_holder inTable isRoot
    have present : (program.block? holder).isSome = true := Option.isSome_of_eq_some here
    have inside := block?_isSome_iff.mp present
    exact step holder block here (isTree.block_induction root step holder present) stmt member id
      refers
  termination_by program.blocks.size - id.index

end Program.IsTree

theorem parseStream_isTree {limit : Option Nat} (room : limit.any (· ≤ 0) = false)
    {stream : TokenStream} (few : (stream.tokens.map Token.kind).count .openBrace < UInt32.size)
    {program : Program} (accepted : parseStream limit stream = .ok program) : program.IsTree := by
  have arranged := parseStream_arranged room few accepted
  obtain ⟨-, closed, rfl⟩ := parseStream_eq_ok_iff.mp accepted
  exact arranged.isTree few closed stream.span

/-- The table of an accepted token list is a tree with one block for every opening brace and one
for the top level, and it holds as many actions as the list has letters. -/
theorem parseTokens_isTree {source : SourceFile} {tokens : List Token} {program : Program}
    (few : (kindsBeforeEnd tokens).count .openBrace < UInt32.size)
    (accepted : parseTokens source tokens = .ok program) :
    program.IsTree ∧
      program.blocks.size = 1 + (kindsBeforeEnd tokens).count .openBrace ∧
      program.actionCount = (kindsBeforeEnd tokens).countP TokenKind.isAction := by
  rw [parseTokens_eq_ok_iff] at accepted
  rw [← kinds_ofList] at few ⊢
  have size := parseStream_size rfl accepted
  have isTree := parseStream_isTree rfl few accepted
  have arranged := parseStream_arranged rfl few accepted
  obtain ⟨-, closed, rfl⟩ := parseStream_eq_ok_iff.mp accepted
  refine ⟨isTree, by omega, ?_⟩
  have actionsLeft := arranged.actionsLeft
  rw [← ParseState.finish_stmts closed (TokenStream.ofList tokens).span] at actionsLeft
  exact actionsLeft

/-- The blocks of a conditional are closed one after the other, so the number of the first one
waits for that of the second. -/
theorem parseTokens_isTree_alternative :
    (kindsBeforeEnd (lex "se luz {A} senao {2{B}} C")).count .openBrace < UInt32.size ∧
      ∃ program, parseTokens ⟨"aula", "se luz {A} senao {2{B}} C"⟩
          (lex "se luz {A} senao {2{B}} C") = .ok program ∧
        program.IsTree ∧ program.blocks.size = 4 ∧ program.actionCount = 3 := by
  have few : (kindsBeforeEnd (lex "se luz {A} senao {2{B}} C")).count .openBrace < UInt32.size := by
    decide +kernel
  have accepts : (parseTokens ⟨"aula", "se luz {A} senao {2{B}} C"⟩
      (lex "se luz {A} senao {2{B}} C")).isOk = true := by
    decide +kernel
  cases outcome : parseTokens ⟨"aula", "se luz {A} senao {2{B}} C"⟩
      (lex "se luz {A} senao {2{B}} C") with
  | error report =>
      rw [outcome] at accepts
      cases accepts
  | ok program =>
      obtain ⟨isTree, size, actions⟩ := parseTokens_isTree few outcome
      refine ⟨few, program, rfl, isTree, size.trans ?_, actions.trans ?_⟩
      · decide +kernel
      · decide +kernel

end RobotScript
