/-
Module: RobotScript.Proofs.FrameStack
Purpose: The frames of a running program mirror the nesting of its text. Every frame above the
  outermost one is what the statement before the cursor of the frame below it can have opened, at
  every moment of a step, so also where a step has failed midway.
Main exports: Stmt.Opened, Frame.apply_move_cases, Program.mem_stmts, Program.Calls, FrameStack,
  FrameStack.move, Tree.depth, reachable_frames_mirror_program
-/
import RobotScript.Proofs.MachineMoves
import RobotScript.Proofs.ParserCorrectness

namespace RobotScript

/-! ### Frames and the statements that open them -/

/-- The frames that a statement can have opened, wherever their cursor is by now. -/
inductive Stmt.Opened : Stmt → Frame → Prop where
  | block (id : BlockId) (cursor : Nat) : Opened (.block id) ⟨id, cursor, .block⟩
  | repeated (id : BlockId) (span : Span) (cursor : Nat) {count remaining : UInt32}
      (fewer : remaining < count) :
      Opened (.repeated count id span) ⟨id, cursor, .repeated remaining⟩
  | thenBranch (condition : Ident) (id : BlockId) (other? : Option BlockId) (span : Span)
      (cursor : Nat) : Opened (.conditional condition id other? span) ⟨id, cursor, .block⟩
  | elseBranch (condition : Ident) (id other : BlockId) (span : Span) (cursor : Nat) :
      Opened (.conditional condition id (some other) span) ⟨other, cursor, .block⟩
  | loop (condition : Ident) (id : BlockId) (span : Span) (cursor : Nat) :
      Opened (.loop condition id span) ⟨id, cursor, .loop condition.name⟩

/-- The inner frame was opened by the statement before the cursor of the outer one. -/
def Program.Calls (program : Program) (outer inner : Frame) : Prop :=
  ∃ block stmt, program.block? outer.block = some block ∧ 0 < outer.cursor ∧
    block.stmts[outer.cursor - 1]? = some stmt ∧ stmt.Opened inner

/-- The cursor stands in front of a statement of the block or at its end. -/
def Program.Holds (program : Program) (frame : Frame) : Prop :=
  ∃ block, program.block? frame.block = some block ∧ frame.cursor ≤ block.stmts.size

/-- Frames, innermost first, that mirror the nesting of the program. -/
inductive FrameStack (program : Program) : List Frame → Prop where
  | ended : FrameStack program []
  | root {cursor : Nat} (held : program.Holds ⟨program.root, cursor, .block⟩) :
      FrameStack program [⟨program.root, cursor, .block⟩]
  | call {inner outer : Frame} {frames : List Frame} (below : FrameStack program (outer :: frames))
      (calls : program.Calls outer inner) (held : program.Holds inner) :
      FrameStack program (inner :: outer :: frames)

theorem Stmt.Opened.mem_blocks {stmt : Stmt} {frame : Frame} (opened : stmt.Opened frame) :
    frame.block ∈ stmt.blocks := by
  cases opened <;> simp [Stmt.blocks]

theorem Stmt.Opened.setCursor {stmt : Stmt} {frame : Frame} (opened : stmt.Opened frame)
    (cursor : Nat) : stmt.Opened { frame with cursor := cursor } := by
  cases opened with
  | block id => exact .block id cursor
  | repeated id span _ fewer => exact .repeated id span cursor fewer
  | thenBranch condition id other? span => exact .thenBranch condition id other? span cursor
  | elseBranch condition id other span => exact .elseBranch condition id other span cursor
  | loop condition id span => exact .loop condition id span cursor

/-- Running a block again leaves it a frame that the same statement can have opened. -/
theorem Stmt.Opened.again {stmt : Stmt} {frame : Frame} (opened : stmt.Opened frame)
    {scope : Scope} {kind : FrameKind} (again : frame.kind.move scope = .again kind) :
    stmt.Opened { frame with cursor := 0, kind := kind } := by
  cases opened with
  | block id => cases again
  | thenBranch condition id other? span => cases again
  | elseBranch condition id other span => cases again
  | @repeated id span _ count remaining fewer =>
      simp only [FrameKind.move] at again
      split at again
      · cases again
      · rename_i left
        obtain rfl := Move.again.inj again
        refine .repeated id span 0 ?_
        have less := toNat_pred_add_one left
        rw [UInt32.lt_iff_toNat_lt] at fewer ⊢
        omega
  | loop condition id span =>
      simp only [FrameKind.move] at again
      split at again
      · obtain rfl := Move.again.inj again
        exact .loop condition id span 0
      · cases again

/-- What the move that starts a statement opens is a frame of that statement. -/
theorem Stmt.opened_of_move {stmt : Stmt} {scope : Scope} {reading? : Option Reading}
    {frame : Frame} (starts : stmt.move scope = .call reading? (some frame)) :
    stmt.Opened frame ∧ frame.cursor = 0 := by
  cases stmt with
  | action letter span => cases starts
  | block id =>
      obtain ⟨-, opens⟩ := Move.call.inj starts
      obtain rfl := Option.some.inj opens
      exact ⟨.block id 0, rfl⟩
  | repeated count id span =>
      obtain ⟨-, opens⟩ := Move.call.inj starts
      split at opens
      · cases opens
      · rename_i positive
        obtain rfl := Option.some.inj opens
        refine ⟨.repeated id span 0 ?_, rfl⟩
        have less := toNat_pred_add_one positive
        rw [UInt32.lt_iff_toNat_lt]
        omega
  | conditional condition id other? span =>
      obtain ⟨-, opens⟩ := Move.call.inj starts
      obtain ⟨branch, chosen, rfl⟩ := Option.map_eq_some_iff.mp opens
      split at chosen
      · obtain rfl := Option.some.inj chosen
        exact ⟨.thenBranch condition id other? span 0, rfl⟩
      · subst chosen
        exact ⟨.elseBranch condition id branch span 0, rfl⟩
  | loop condition id span =>
      obtain ⟨-, opens⟩ := Move.call.inj starts
      split at opens
      · obtain rfl := Option.some.inj opens
        exact ⟨.loop condition id span 0, rfl⟩
      · cases opens

/-! ### What every move keeps -/

/-- A statement starts an action or a call, never an end of block. -/
theorem Stmt.move_cases (scope : Scope) (stmt : Stmt) :
    (∃ letter, stmt.move scope = .act letter) ∨
      ∃ reading? opened?, stmt.move scope = .call reading? opened? := by
  cases stmt with
  | action letter span => exact Or.inl ⟨letter, rfl⟩
  | _ => exact Or.inr ⟨_, _, rfl⟩

theorem FrameKind.move_cases (scope : Scope) (kind : FrameKind) :
    kind.move scope = .leave ∨ ∃ next, kind.move scope = .again next := by
  cases kind with
  | block => exact Or.inl rfl
  | repeated remaining =>
      simp only [FrameKind.move]
      split
      · exact Or.inl rfl
      · exact Or.inr ⟨_, rfl⟩
  | loop condition =>
      simp only [FrameKind.move]
      split
      · exact Or.inr ⟨_, rfl⟩
      · exact Or.inl rfl

/-- The frames after a move: the innermost one has come a place further, perhaps with a frame opened
inside it, or has gone back to its beginning, or is left. -/
theorem Frame.apply_move_cases (scope : Scope) (block : Block) (frame : Frame)
    (outer : List Frame) :
    (frame.move scope block).apply frame outer =
        { frame with cursor := frame.cursor + 1 } :: outer ∨
      (∃ stmt opened, block.stmts[frame.cursor]? = some stmt ∧ stmt.Opened opened ∧
        opened.cursor = 0 ∧ (frame.move scope block).apply frame outer =
          opened :: { frame with cursor := frame.cursor + 1 } :: outer) ∨
      (∃ kind, frame.kind.move scope = .again kind ∧ (frame.move scope block).apply frame outer =
        { frame with cursor := 0, kind := kind } :: outer) ∨
      (frame.move scope block).apply frame outer = outer := by
  simp only [Frame.move]
  split
  · rename_i stmt there
    rcases stmt.move_cases scope with ⟨letter, acts⟩ | ⟨reading?, opened?, starts⟩
    · rw [acts]
      exact Or.inl rfl
    · cases opened? with
      | none =>
          rw [starts]
          exact Or.inl rfl
      | some opened =>
          have opens := Stmt.opened_of_move starts
          rw [starts]
          exact Or.inr (Or.inl ⟨stmt, opened, there, opens.1, opens.2, rfl⟩)
  · rcases frame.kind.move_cases scope with leaves | ⟨next, again⟩
    · rw [leaves]
      exact Or.inr (Or.inr (Or.inr rfl))
    · rw [again]
      exact Or.inr (Or.inr (Or.inl ⟨next, rfl, rfl⟩))

theorem Program.mem_stmts {program : Program} {id : BlockId} {block : Block}
    (here : program.block? id = some block) {index : Nat} {stmt : Stmt}
    (there : block.stmts[index]? = some stmt) : stmt ∈ program.stmts := by
  have inProgram : block ∈ program.blocks.toList :=
    Array.mem_toList_iff.mpr (Array.mem_of_getElem? here)
  have inBlock : stmt ∈ block.stmts.toList :=
    Array.mem_toList_iff.mpr (Array.mem_of_getElem? there)
  exact List.mem_flatMap_of_mem inProgram inBlock

/-- The blocks that statements refer to are there. -/
def Program.Closed (program : Program) : Prop :=
  ∀ id ∈ program.references, (program.block? id).isSome = true

theorem Program.Closed.opened {program : Program} (closed : program.Closed) {id : BlockId}
    {block : Block} (here : program.block? id = some block) {index : Nat} {stmt : Stmt}
    (there : block.stmts[index]? = some stmt) {frame : Frame} (opened : stmt.Opened frame)
    (fresh : frame.cursor = 0) : program.Holds frame := by
  have referred : frame.block ∈ program.references :=
    List.mem_flatMap_of_mem (Program.mem_stmts here there) opened.mem_blocks
  obtain ⟨inner, found⟩ := Option.isSome_iff_exists.mp (closed _ referred)
  exact ⟨inner, found, by rw [fresh]; exact Nat.zero_le _⟩

namespace FrameStack

variable {program : Program} {frame : Frame} {outer : List Frame}

theorem held (stack : FrameStack program (frame :: outer)) : program.Holds frame := by
  cases stack with
  | root held => exact held
  | call _ _ held => exact held

theorem tail (stack : FrameStack program (frame :: outer)) : FrameStack program outer := by
  cases stack with
  | root => exact .ended
  | call below => exact below

/-- Only the outermost frame has no statement that opened it, and it is never run again. -/
theorem replace (stack : FrameStack program (frame :: outer)) {cursor : Nat} {kind : FrameKind}
    (same : frame.kind = .block → kind = .block)
    (opened : ∀ stmt : Stmt, stmt.Opened frame → stmt.Opened ⟨frame.block, cursor, kind⟩)
    (held : program.Holds ⟨frame.block, cursor, kind⟩) :
    FrameStack program (⟨frame.block, cursor, kind⟩ :: outer) := by
  cases stack with
  | root =>
      obtain rfl := same rfl
      exact .root held
  | call below calls =>
      obtain ⟨block, stmt, here, positive, there, opens⟩ := calls
      exact .call below ⟨block, stmt, here, positive, there, opened stmt opens⟩ held

theorem step (stack : FrameStack program (frame :: outer)) {block : Block}
    (here : program.block? frame.block = some block) (inside : frame.cursor < block.stmts.size) :
    FrameStack program ({ frame with cursor := frame.cursor + 1 } :: outer) :=
  stack.replace id (fun _ opens => opens.setCursor _) ⟨block, here, inside⟩

/-- A move of the innermost frame leaves frames that mirror the program. -/
theorem move (stack : FrameStack program (frame :: outer)) (closed : program.Closed)
    {block : Block} (here : program.block? frame.block = some block) (scope : Scope) :
    FrameStack program ((frame.move scope block).apply frame outer) := by
  simp only [Frame.move]
  split
  · rename_i stmt there
    have inside : frame.cursor < block.stmts.size := (Array.getElem?_eq_some_iff.mp there).1
    have stepped := stack.step here inside
    rcases stmt.move_cases scope with ⟨letter, acts⟩ | ⟨reading?, opened?, starts⟩
    · rw [acts]
      exact stepped
    · rw [starts]
      cases opened? with
      | none => exact stepped
      | some opened =>
          obtain ⟨opens, fresh⟩ := Stmt.opened_of_move starts
          refine .call stepped ⟨block, stmt, here, Nat.succ_pos _, ?_, opens⟩
            (closed.opened here there opens fresh)
          simpa using there
  · rcases frame.kind.move_cases scope with leaves | ⟨next, again⟩
    · rw [leaves]
      exact stack.tail
    · rw [again]
      refine stack.replace ?_ (fun _ opens => opens.again again) ⟨block, here, Nat.zero_le _⟩
      intro isBlock
      rw [isBlock] at again
      cases again

end FrameStack

/-! ### Steps and runs -/

namespace Execution

variable {program : Program}

/-- Between two steps: the frames mirror the program, and the end is announced as soon as there
are none left. -/
structure Settled (program : Program) (execution : Execution) : Prop where
  stack : FrameStack program execution.frames
  finished_iff : execution.finished = true ↔ execution.frames = []

theorem settled_drive (closed : program.Closed) (capacity : Nat) (scope : Scope)
    {execution : Execution} (stack : FrameStack program execution.frames)
    (running : execution.finished = false) :
    Settled program (execution.drive capacity program scope).2 := by
  refine drive_preserves
    (P := fun execution => FrameStack program execution.frames ∧ execution.finished = false)
    (Q := fun _ execution => Settled program execution) ?_ ?_ ⟨stack, running⟩
  · rintro execution after ⟨stack, running⟩ advances
    cases advances with
    | goesOn top here =>
        rw [top] at stack
        exact ⟨stack.move closed here scope, running⟩
  · rintro execution result after ⟨stack, running⟩ advances
    cases advances with
    | ends empty => exact ⟨stack, by simp [empty]⟩
    | dangles top => exact ⟨stack, by simp [top, running]⟩
    | overflows top => exact ⟨stack, by simp [top, running]⟩
    | starves top => exact ⟨stack, by simp [charged, top, running]⟩
    | acts top here _ _ action =>
        rw [top] at stack
        have moved := stack.move closed here scope
        rw [action] at moved
        exact ⟨moved, by simp [Execution.moved, charged, Move.apply, running]⟩

theorem Settled.stepWithin (closed : program.Closed) {execution : Execution}
    (settled : Settled program execution) (capacity : Nat) (scope : Scope) :
    Settled program (execution.stepWithin capacity program scope).2 := by
  unfold Execution.stepWithin
  split
  · exact settled
  · rename_i running
    exact settled_drive closed capacity scope settled.stack (by simpa using running)

theorem Settled.step (closed : program.Closed) {execution : Execution}
    (settled : Settled program execution) (scope : Scope) :
    Settled program (execution.step program scope).2 :=
  settled.stepWithin closed gasCapacity scope

end Execution

/-! ### How deep the frames can be -/

mutual

/-- How many blocks stand inside each other in a statement. -/
def Tree.depth : Tree → Nat
  | .action _ => 0
  | .block body => depthOfAll body + 1
  | .repeated _ body => depthOfAll body + 1
  | .conditional _ body => depthOfAll body + 1
  | .alternative _ body otherwise => max (depthOfAll body) (depthOfAll otherwise) + 1
  | .loop _ body => depthOfAll body + 1

/-- The greatest depth of a list of statements. -/
def Tree.depthOfAll : List Tree → Nat
  | [] => 0
  | tree :: trees => max tree.depth (depthOfAll trees)

end

theorem Tree.depth_le_depthOfAll {tree : Tree} {trees : List Tree} (member : tree ∈ trees) :
    tree.depth ≤ Tree.depthOfAll trees := by
  induction trees with
  | nil => cases member
  | cons first later inductionHypothesis =>
      rw [Tree.depthOfAll]
      rcases List.mem_cons.mp member with rfl | inLater
      · exact Nat.le_max_left _ _
      · exact Nat.le_trans (inductionHypothesis inLater) (Nat.le_max_right _ _)

/-- The block of an opened frame is less deep than the statement that opened it. -/
theorem Stmt.Opened.depth_lt {program : Program} {stmt : Stmt} {frame : Frame}
    (opened : stmt.Opened frame) {tree : Tree} (unfolds : stmt.Unfolds program tree) :
    ∃ body, program.Unfolds frame.block body ∧ Tree.depthOfAll body + 1 ≤ tree.depth := by
  cases opened with
  | block =>
      cases unfolds with
      | block body => exact ⟨_, body, Nat.le_refl _⟩
  | repeated =>
      cases unfolds with
      | repeated body => exact ⟨_, body, Nat.le_refl _⟩
  | thenBranch =>
      cases unfolds with
      | conditional body => exact ⟨_, body, Nat.le_refl _⟩
      | alternative body _ => exact ⟨_, body, Nat.succ_le_succ (Nat.le_max_left _ _)⟩
  | elseBranch =>
      cases unfolds with
      | alternative _ other => exact ⟨_, other, Nat.succ_le_succ (Nat.le_max_right _ _)⟩
  | loop =>
      cases unfolds with
      | loop body => exact ⟨_, body, Nat.le_refl _⟩

/-- Statements and trees of a block stand at the same places. -/
theorem Program.Unfolds.tree_at {program : Program} {id : BlockId} {trees : List Tree}
    (unfolds : program.Unfolds id trees) {block : Block} (here : program.block? id = some block)
    {index : Nat} {stmt : Stmt} (there : block.stmts[index]? = some stmt) :
    ∃ tree, trees[index]? = some tree ∧ stmt.Unfolds program tree := by
  obtain ⟨found, alsoHere, stmtsUnfold⟩ := Program.unfolds_iff.mp unfolds
  obtain rfl : block = found := Option.some.inj (here.symm.trans alsoHere)
  rw [← Array.getElem?_toList] at there
  obtain ⟨inBlock, rfl⟩ := List.getElem?_eq_some_iff.mp there
  have inTrees : index < trees.length := stmtsUnfold.length_eq ▸ inBlock
  exact ⟨trees[index], List.getElem?_eq_getElem inTrees, stmtsUnfold.get inBlock inTrees⟩

namespace FrameStack

variable {program : Program}

/-- Every frame further in takes one off the depth that is left. -/
theorem depth_le {trees : List Tree} (unfolds : program.Unfolds program.root trees)
    {frame : Frame} {outer : List Frame} (stack : FrameStack program (frame :: outer)) :
    ∃ body, program.Unfolds frame.block body ∧
      Tree.depthOfAll body + outer.length ≤ Tree.depthOfAll trees := by
  generalize shape : frame :: outer = frames at stack
  induction stack generalizing frame outer with
  | ended => cases shape
  | root =>
      obtain ⟨rfl, rfl⟩ := List.cons.inj shape
      exact ⟨trees, unfolds, Nat.le_refl _⟩
  | call below calls _ inductionHypothesis =>
      obtain ⟨rfl, rfl⟩ := List.cons.inj shape
      obtain ⟨outerBody, outerUnfolds, outerDepth⟩ := inductionHypothesis rfl
      obtain ⟨block, stmt, here, _, there, opened⟩ := calls
      obtain ⟨tree, member, stmtUnfolds⟩ := outerUnfolds.tree_at here there
      obtain ⟨body, bodyUnfolds, less⟩ := opened.depth_lt stmtUnfolds
      have within := Tree.depth_le_depthOfAll (List.mem_of_getElem? member)
      refine ⟨body, bodyUnfolds, ?_⟩
      rw [List.length_cons]
      omega

theorem calls_chain {frames : List Frame} (stack : FrameStack program frames) :
    frames.IsChain fun inner outer => program.Calls outer inner := by
  induction stack with
  | ended => exact .nil
  | root => exact .singleton _
  | call _ calls _ inductionHypothesis => exact .cons_cons calls inductionHypothesis

theorem getLast_eq {frames : List Frame} (stack : FrameStack program frames) {frame : Frame}
    (last : frames.getLast? = some frame) :
    frame.block = program.root ∧ frame.kind = .block := by
  induction stack with
  | ended => cases last
  | root =>
      obtain rfl := Option.some.inj last
      exact ⟨rfl, rfl⟩
  | call _ _ _ inductionHypothesis => exact inductionHypothesis last

theorem holds_all {frames : List Frame} (stack : FrameStack program frames) :
    ∀ frame ∈ frames, program.Holds frame := by
  induction stack with
  | ended => exact fun _ member => nomatch member
  | root held =>
      intro frame member
      rw [List.mem_singleton.mp member]
      exact held
  | call _ _ held inductionHypothesis =>
      intro frame member
      rcases List.mem_cons.mp member with rfl | inRest
      · exact held
      · exact inductionHypothesis frame inRest

end FrameStack

/-- A frame runs a block with a smaller number than the frame that opened it. -/
theorem Program.Calls.number_lt {program : Program} (descending : program.Descending)
    {outer inner : Frame} (calls : program.Calls outer inner) :
    inner.block.number < outer.block.number := by
  obtain ⟨block, stmt, here, _, there, opened⟩ := calls
  have inBlock : stmt ∈ block.stmts.toList :=
    Array.mem_toList_iff.mpr (Array.mem_of_getElem? there)
  rw [UInt32.lt_iff_toNat_lt]
  exact descending _ block here stmt inBlock _ opened.mem_blocks

theorem FrameStack.numbers_decrease {program : Program} (descending : program.Descending)
    {frames : List Frame} (stack : FrameStack program frames) :
    frames.Pairwise fun inner outer => inner.block.number < outer.block.number := by
  have chain : frames.IsChain fun inner outer => inner.block.number < outer.block.number :=
    stack.calls_chain.imp fun _ _ calls => calls.number_lt descending
  have transitive : ∀ first second third : Frame, first.block.number < second.block.number →
      second.block.number < third.block.number → first.block.number < third.block.number :=
    fun _ _ _ => UInt32.lt_trans
  have : IsTrans Frame fun inner outer => inner.block.number < outer.block.number :=
    ⟨transitive⟩
  exact List.isChain_iff_pairwise.mp chain

/-! ### Accepted scripts -/

/-- The top level of a tree is a block of its table. -/
theorem Program.IsTree.holds_root {program : Program} (isTree : program.IsTree) :
    program.Holds ⟨program.root, 0, .block⟩ := by
  have inTable : program.root.index < program.blocks.size := by
    have last := isTree.rootLast
    omega
  obtain ⟨block, here⟩ := Option.isSome_iff_exists.mp (Program.block?_isSome_iff.mpr inTable)
  exact ⟨block, here, Nat.zero_le _⟩

theorem Execution.Reachable.settled {program : Program} (isTree : program.IsTree)
    {execution : Execution} (reachable : Execution.Reachable program execution) :
    execution.Settled program := by
  apply reachable.preserves
  · intro gasLimit
    exact ⟨.root isTree.holds_root, by simp [Execution.start]⟩
  · intro scope execution settled
    exact settled.step isTree.inTable scope

/-- Between two calls, the frames of an accepted script mirror the nesting of its text: the end is
announced exactly if none is left; the outermost one is the top level; every cursor is within its
block; every other frame is what the statement before the cursor of the next one opened. So block
numbers decrease inwards, and there are no more frames than blocks stand inside each other. -/
theorem reachable_frames_mirror_program {source : SourceFile} {program : Program}
    (accepted : parse source = .ok program) (few : program.blocks.size < UInt32.size)
    {execution : Execution} (reachable : Execution.Reachable program execution) :
    (execution.finished = true ↔ execution.frames = []) ∧
      (∀ frame, execution.frames.getLast? = some frame →
        frame.block = program.root ∧ frame.kind = .block) ∧
      (∀ frame ∈ execution.frames, ∃ block, program.block? frame.block = some block ∧
        frame.cursor ≤ block.stmts.size) ∧
      (execution.frames.IsChain fun inner outer => program.Calls outer inner) ∧
      (execution.frames.Pairwise fun inner outer => inner.block.number < outer.block.number) ∧
      ∃ trees, program.unfold? = some trees ∧
        execution.frames.length ≤ Tree.depthOfAll trees + 1 := by
  obtain ⟨isTree, trees, unfolded⟩ := parse_isTree_and_unfolds accepted few
  obtain ⟨stack, finished_iff⟩ := reachable.settled isTree
  refine ⟨finished_iff, fun frame => stack.getLast_eq, stack.holds_all, stack.calls_chain,
    stack.numbers_decrease isTree.descending, trees, unfolded, ?_⟩
  cases frames : execution.frames with
  | nil => exact Nat.zero_le _
  | cons frame outer =>
      rw [frames] at stack
      obtain ⟨body, -, depth⟩ := stack.depth_le ⟨_, unfolded⟩
      rw [List.length_cons]
      omega

/-- Paused at the action of a conditional within a repeat: three frames for two nested blocks. -/
theorem reachable_frames_nested :
    ∃ program execution, parse ⟨"aula", "2{se luz {A}} B"⟩ = .ok program ∧
      program.blocks.size < UInt32.size ∧ Execution.Reachable program execution ∧
      execution.frames.length = 3 ∧
      execution.frames.IsChain fun inner outer => program.Calls outer inner := by
  have runs : (parse ⟨"aula", "2{se luz {A}} B"⟩).toOption.any (fun program =>
      program.blocks.size < UInt32.size && ((Execution.start program none).step program
        (Scope.empty.set "luz" (.bool true))).2.frames.length == 3) = true := by
    decide +kernel
  cases accepted : parse ⟨"aula", "2{se luz {A}} B"⟩ with
  | error report =>
      rw [accepted] at runs
      cases runs
  | ok program =>
      rw [accepted] at runs
      obtain ⟨few, deep⟩ := (Bool.and_eq_true _ _).mp runs
      have started : Execution.Reachable program (.start program none) := .start none
      have reachable := started.step (Scope.empty.set "luz" (.bool true))
      have mirrored :=
        reachable_frames_mirror_program accepted (of_decide_eq_true few) reachable
      exact ⟨program, _, rfl, of_decide_eq_true few, reachable, beq_iff_eq.mp deep,
        mirrored.2.2.2.1⟩

end RobotScript
