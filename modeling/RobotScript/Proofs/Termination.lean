/-
Module: RobotScript.Proofs.Termination
Purpose: Steps return without a limit wherever no loop can go round without an action. Whatever
  frames are left, the machine comes through them to an action or to the end: a statement is
  passed if what follows it is come through, a repeat has finitely many rounds, and a loop that is
  entered, or begun again, comes to an action of its own body. Where no loop is entered at all,
  runs return as well.
Main exports: Program.LoopsAct, Program.LoopsIdle, ComesThrough, Tree.comesThrough,
  FrameStack.comesThrough, steps_return_where_loops_act
-/
import RobotScript.Proofs.RunCourse

namespace RobotScript

/-! ### Loops that act -/

/-- A loop has an action among the statements of its body, if its condition holds. -/
def Stmt.actsInLoop (program : Program) (scope : Scope) : Stmt → Bool
  | .loop condition body _ =>
      !scope.isTruthy condition.name ||
        (program.block? body).any fun block => block.stmts.any Stmt.isAction
  | _ => true

/-- A loop has a condition that does not hold. -/
def Stmt.skipsLoop (scope : Scope) : Stmt → Bool
  | .loop condition _ _ => !scope.isTruthy condition.name
  | _ => true

namespace Program

/-- Every loop of the program whose condition holds has an action directly in its body. -/
def LoopsAct (program : Program) (scope : Scope) : Prop :=
  ∀ stmt ∈ program.stmts, stmt.actsInLoop program scope = true

/-- No loop of the program has a condition that holds. -/
def LoopsIdle (program : Program) (scope : Scope) : Prop :=
  ∀ stmt ∈ program.stmts, stmt.skipsLoop scope = true

instance (program : Program) (scope : Scope) : Decidable (program.LoopsAct scope) :=
  inferInstanceAs (Decidable (∀ stmt ∈ program.stmts, stmt.actsInLoop program scope = true))

instance (program : Program) (scope : Scope) : Decidable (program.LoopsIdle scope) :=
  inferInstanceAs (Decidable (∀ stmt ∈ program.stmts, stmt.skipsLoop scope = true))

/-- Loops whose conditions hold are allowed only where the machine may rest at an action, and their
bodies have one. -/
def LoopsRest (program : Program) (scope : Scope) (rests : Prop) : Prop :=
  ∀ condition body span, .loop condition body span ∈ program.stmts →
    scope.isTruthy condition.name = true →
    rests ∧ ∃ block, program.block? body = some block ∧
      ∃ stmt ∈ block.stmts.toList, stmt.isAction = true

variable {program : Program} {scope : Scope}

theorem LoopsAct.rest (acting : program.LoopsAct scope) : program.LoopsRest scope True := by
  intro condition body span member holds
  have acts := acting _ member
  simp only [Stmt.actsInLoop, holds, Bool.not_true, Bool.false_or] at acts
  obtain ⟨block, here, hasAction⟩ := (Option.any_eq_true _ _).mp acts
  obtain ⟨stmt, inBlock, isAction⟩ := Array.any_eq_true'.mp hasAction
  exact ⟨trivial, block, here, stmt, Array.mem_toList_iff.mpr inBlock, isAction⟩

theorem LoopsIdle.rest (idle : program.LoopsIdle scope) : program.LoopsRest scope False := by
  intro condition body span member holds
  have skips := idle _ member
  simp only [Stmt.skipsLoop, holds, Bool.not_true, Bool.false_eq_true] at skips

end Program

/-! ### Coming through -/

/-- From these frames the machine comes to the end of the program or, where it may rest there, to
an action. -/
inductive ComesThrough (program : Program) (scope : Scope) (rests : Prop) :
    List Frame → Prop where
  | ended : ComesThrough program scope rests []
  | acts {frame : Frame} {outer : List Frame} {block : Block} {letter : Char}
      (here : program.block? frame.block = some block)
      (action : frame.move scope block = .act letter) (may : rests) :
      ComesThrough program scope rests (frame :: outer)
  | moves {frame : Frame} {outer : List Frame} {block : Block}
      (here : program.block? frame.block = some block)
      (later : ComesThrough program scope rests ((frame.move scope block).apply frame outer)) :
      ComesThrough program scope rests (frame :: outer)

/-- From this cursor on, the machine comes through a block, whatever kind of frame runs it, if it
comes through what the end of the block leads to. -/
def PassesBlock (program : Program) (scope : Scope) (rests : Prop) (id : BlockId)
    (cursor : Nat) : Prop :=
  ∀ (kind : FrameKind) (outer : List Frame),
    ComesThrough program scope rests ((kind.move scope).apply ⟨id, cursor, kind⟩ outer) →
    ComesThrough program scope rests (⟨id, cursor, kind⟩ :: outer)

section Passing

variable {program : Program} {scope : Scope} {rests : Prop} {frame : Frame} {outer : List Frame}
  {block : Block}

theorem ComesThrough.starts (here : program.block? frame.block = some block) {stmt : Stmt}
    (there : block.stmts[frame.cursor]? = some stmt)
    (later : ComesThrough program scope rests ((stmt.move scope).apply frame outer)) :
    ComesThrough program scope rests (frame :: outer) := by
  apply ComesThrough.moves here
  rw [Frame.move, there]
  exact later

theorem ComesThrough.ends (here : program.block? frame.block = some block)
    (atEnd : block.stmts[frame.cursor]? = none)
    (later : ComesThrough program scope rests ((frame.kind.move scope).apply frame outer)) :
    ComesThrough program scope rests (frame :: outer) := by
  apply ComesThrough.moves here
  rw [Frame.move, atEnd]
  exact later

/-- However many rounds remain, they come to an end. -/
theorem PassesBlock.times {id : BlockId} (passes : PassesBlock program scope rests id 0)
    (later : ComesThrough program scope rests outer) (remaining : UInt32) :
    ComesThrough program scope rests (.enter id (.repeated remaining) :: outer) := by
  induction rounds : remaining.toNat generalizing remaining with
  | zero =>
      obtain rfl : remaining = 0 := UInt32.toNat_inj.mp rounds
      exact passes (.repeated 0) outer later
  | succ rounds inductionHypothesis =>
      apply passes
      rw [FrameKind.move]
      split
      · exact later
      · rename_i someLeft
        apply inductionHypothesis
        have fewer := toNat_pred_add_one someLeft
        omega

end Passing

/-! ### Statements and blocks -/

/-- A frame in front of a statement that starts an action makes that action. -/
theorem Stmt.acts_of_isAction {stmt : Stmt} (isAction : stmt.isAction = true) (scope : Scope) :
    ∃ letter, stmt.move scope = .act letter := by
  cases stmt with
  | action letter span => exact ⟨letter, rfl⟩
  | _ => cases isAction

section Statements

variable {program : Program} {scope : Scope} {rests : Prop}

mutual

/-- A statement is passed if what follows it is come through. -/
theorem Tree.comesThrough (loops : program.LoopsRest scope rests) {frame : Frame} {block : Block}
    (here : program.block? frame.block = some block) (outer : List Frame)
    (later : ComesThrough program scope rests
      ({ frame with cursor := frame.cursor + 1 } :: outer)) :
    ∀ (tree : Tree) (stmt : Stmt), stmt.Unfolds program tree →
      block.stmts[frame.cursor]? = some stmt →
      ComesThrough program scope rests (frame :: outer)
  | .action letter, _, .action _ span, there => .starts here there later
  | .block body, _, .block unfolds, there => by
      obtain ⟨inner, innerHere, stmtsUnfold⟩ := Program.unfolds_iff.mp unfolds
      apply ComesThrough.starts here there
      exact comesThroughAll loops innerHere 0 body stmtsUnfold .block _ later
  | .repeated count body, _, .repeated unfolds, there => by
      obtain ⟨inner, innerHere, stmtsUnfold⟩ := Program.unfolds_iff.mp unfolds
      apply ComesThrough.starts here there
      rw [Stmt.move]
      split
      · exact later
      · exact (comesThroughAll loops innerHere 0 body stmtsUnfold).times later (count - 1)
  | .conditional _ body, _, .conditional unfolds, there => by
      obtain ⟨inner, innerHere, stmtsUnfold⟩ := Program.unfolds_iff.mp unfolds
      apply ComesThrough.starts here there
      simp only [Stmt.move]
      split
      · exact comesThroughAll loops innerHere 0 body stmtsUnfold .block _ later
      · exact later
  | .alternative _ body otherwise, _, .alternative unfolds otherUnfolds, there => by
      obtain ⟨inner, innerHere, stmtsUnfold⟩ := Program.unfolds_iff.mp unfolds
      obtain ⟨other, otherHere, otherUnfold⟩ := Program.unfolds_iff.mp otherUnfolds
      apply ComesThrough.starts here there
      simp only [Stmt.move]
      split
      · exact comesThroughAll loops innerHere 0 body stmtsUnfold .block _ later
      · exact comesThroughAll loops otherHere 0 otherwise otherUnfold .block _ later
  | .loop _ body, _, .loop unfolds, there => by
      obtain ⟨inner, innerHere, stmtsUnfold⟩ := Program.unfolds_iff.mp unfolds
      apply ComesThrough.starts here there
      simp only [Stmt.move]
      split
      · -- An entered loop need not be come to the end of: its own body has the action to rest at.
        rename_i holds
        obtain ⟨may, found, alsoHere, hasAction⟩ :=
          loops _ _ _ (Program.mem_stmts here there) holds
        obtain rfl : inner = found := Option.some.inj (innerHere.symm.trans alsoHere)
        exact restsInAll loops may innerHere 0 body stmtsUnfold hasAction _ _
      · exact later

/-- So is a block, statement by statement. -/
theorem Tree.comesThroughAll (loops : program.LoopsRest scope rests) {id : BlockId}
    {block : Block} (here : program.block? id = some block) (cursor : Nat) :
    ∀ trees : List Tree,
      List.Forall₂ (Stmt.Unfolds program) (block.stmts.toList.drop cursor) trees →
      PassesBlock program scope rests id cursor
  | [], stmtsUnfold => by
      intro kind outer later
      have atEnd : block.stmts[cursor]? = none := by
        have ends := List.drop_eq_nil_iff.mp (List.forall₂_nil_right_iff.mp stmtsUnfold)
        exact Array.getElem?_eq_none ends
      exact .ends here atEnd later
  | tree :: trees, stmtsUnfold => by
      intro kind outer later
      obtain ⟨stmt, there, -, unfolds, restUnfold⟩ := Block.unfolds_at stmtsUnfold
      rw [kind.apply_move scope id cursor (cursor + 1)] at later
      have passed := comesThroughAll loops here (cursor + 1) trees restUnfold kind outer later
      exact comesThrough loops here outer passed tree stmt unfolds there

/-- A block with an action ahead is never come to the end of, where the machine may rest. -/
theorem Tree.restsInAll (loops : program.LoopsRest scope rests) (may : rests) {id : BlockId}
    {block : Block} (here : program.block? id = some block) (cursor : Nat) :
    ∀ trees : List Tree,
      List.Forall₂ (Stmt.Unfolds program) (block.stmts.toList.drop cursor) trees →
      (∃ stmt ∈ block.stmts.toList.drop cursor, stmt.isAction = true) →
      ∀ (kind : FrameKind) (outer : List Frame),
        ComesThrough program scope rests (⟨id, cursor, kind⟩ :: outer)
  | [], stmtsUnfold, hasAction => by
      obtain ⟨stmt, member, -⟩ := hasAction
      rw [List.forall₂_nil_right_iff.mp stmtsUnfold] at member
      cases member
  | tree :: trees, stmtsUnfold, hasAction => by
      intro kind outer
      obtain ⟨stmt, there, whole, unfolds, restUnfold⟩ := Block.unfolds_at stmtsUnfold
      cases isAction : stmt.isAction with
      | true =>
          obtain ⟨letter, acts⟩ := stmt.acts_of_isAction isAction scope
          have action : Frame.move scope block ⟨id, cursor, kind⟩ = .act letter := by
            rw [Frame.move, there]
            exact acts
          exact .acts here action may
      | false =>
          obtain ⟨action, member, acts⟩ := hasAction
          rw [whole] at member
          rcases List.mem_cons.mp member with rfl | inRest
          · rw [isAction] at acts
            cases acts
          · have passed := restsInAll loops may here (cursor + 1) trees restUnfold
              ⟨action, inRest, acts⟩ kind outer
            exact comesThrough loops here outer passed tree stmt unfolds there

end

end Statements

/-! ### Stacks of frames -/

/-- In a table whose blocks refer downwards, the statements of every block unfold. -/
theorem Program.Descending.stmts_unfold {program : Program} (descending : program.Descending)
    {id : BlockId} {block : Block} (here : program.block? id = some block) :
    ∃ trees, List.Forall₂ (Stmt.Unfolds program) block.stmts.toList trees := by
  have inTable : id.number.toNat < program.blocks.size := (Array.getElem?_eq_some_iff.mp here).1
  obtain ⟨trees, unfolds⟩ := descending.exists_unfolds inTable
  obtain ⟨found, alsoHere, stmtsUnfold⟩ := Program.unfolds_iff.mp unfolds
  obtain rfl : block = found := Option.some.inj (here.symm.trans alsoHere)
  exact ⟨trees, stmtsUnfold⟩

/-- The machine comes through any frames that mirror the program: through the rest of the innermost
block, through the rounds that its frame may still make, and then through the frames around it. -/
theorem FrameStack.comesThrough {program : Program} {scope : Scope} {rests : Prop}
    (loops : program.LoopsRest scope rests) (descending : program.Descending)
    {frames : List Frame} (stack : FrameStack program frames) :
    ComesThrough program scope rests frames := by
  have passes {id : BlockId} {block : Block} (here : program.block? id = some block)
      (cursor : Nat) : PassesBlock program scope rests id cursor := by
    obtain ⟨trees, stmtsUnfold⟩ := descending.stmts_unfold here
    exact Tree.comesThroughAll loops here cursor _ (List.forall₂_drop cursor stmtsUnfold)
  -- From the outermost frame inwards: what is around a frame is come through, once its block is.
  induction stack with
  | ended => exact .ended
  | root held =>
      obtain ⟨block, here, -⟩ := held
      exact passes here _ .block [] .ended
  | @call inner outer frames below calls held inductionHypothesis =>
      obtain ⟨block, here, -⟩ := held
      apply passes here inner.cursor inner.kind
      obtain ⟨outerBlock, stmt, outerHere, -, there, opened⟩ := calls
      cases opened with
      | block => exact inductionHypothesis
      | thenBranch => exact inductionHypothesis
      | elseBranch => exact inductionHypothesis
      | @repeated id span cursor count remaining fewer =>
          rw [FrameKind.move]
          split
          · exact inductionHypothesis
          · exact (passes here 0).times inductionHypothesis (remaining - 1)
      | loop condition id span cursor =>
          rw [FrameKind.move]
          split
          · rename_i holds
            obtain ⟨may, found, alsoHere, hasAction⟩ :=
              loops _ _ _ (Program.mem_stmts outerHere there) holds
            obtain rfl : block = found := Option.some.inj (here.symm.trans alsoHere)
            obtain ⟨trees, stmtsUnfold⟩ := descending.stmts_unfold here
            exact Tree.restsInAll loops may here 0 trees stmtsUnfold hasAction _ _
          · exact inductionHypothesis

/-! ### Steps and runs -/

namespace ComesThrough

variable {program : Program} {scope : Scope} {rests : Prop} {frames : List Frame}

/-- A step from frames that are come through returns, if the counter has room for the way. -/
theorem drive_returns (through : ComesThrough program scope rests frames) :
    ∃ cost, ∀ capacity gas, gas + cost < capacity →
      ∃ answer, ((⟨frames, false, gas, none⟩ : Execution).drive capacity program scope).1 =
        .ok answer := by
  -- Every move takes one unit, and an action on the way ends the step before.
  have atAction {frame : Frame} {outer : List Frame} {block : Block} {letter : Char}
      (here : program.block? frame.block = some block)
      (action : frame.move scope block = .act letter) (capacity gas : Nat)
      (room : gas + 1 < capacity) :
      ((⟨frame :: outer, false, gas, none⟩ : Execution).drive capacity program scope).1 =
        .ok (some letter) := by
    have acts : Execution.Advances capacity program scope ⟨frame :: outer, false, gas, none⟩ _ :=
      .acts rfl here room (Execution.exceededLimit?_of_no_limit rfl) action
    rw [Execution.drive_of_stop acts.advance_eq]
  induction through with
  | ended =>
      refine ⟨0, fun capacity gas _ => ⟨none, ?_⟩⟩
      have ends : Execution.Advances capacity program scope ⟨[], false, gas, none⟩ _ := .ends rfl
      rw [Execution.drive_of_stop ends.advance_eq]
  | acts here action _ =>
      exact ⟨1, fun capacity gas room => ⟨_, atAction here action capacity gas room⟩⟩
  | @moves frame outer block here later inductionHypothesis =>
      obtain ⟨cost, returns⟩ := inductionHypothesis
      refine ⟨cost + 1, fun capacity gas room => ?_⟩
      by_cases acts : ∃ letter, frame.move scope block = .act letter
      · obtain ⟨letter, action⟩ := acts
        exact ⟨_, atAction here action capacity gas (by omega)⟩
      · have noAction : ∀ letter, frame.move scope block ≠ .act letter :=
          fun letter action => acts ⟨letter, action⟩
        have goesOn : Execution.Advances capacity program scope
            ⟨frame :: outer, false, gas, none⟩ _ :=
          .goesOn rfl here (Nat.lt_of_le_of_lt (by simp) room)
            (Execution.exceededLimit?_of_no_limit rfl) noAction
        rw [Execution.drive_of_next goesOn.advance_eq]
        exact returns capacity (gas + 1) (by omega)

/-- Where the machine comes through without resting, its course has an end. -/
theorem leads (through : ComesThrough program scope False frames) :
    ∃ more cost, ∀ letters gas, Stage.Leads program (fun _ => scope) ⟨letters, gas, frames⟩
      ⟨letters ++ more, gas + cost, []⟩ := by
  induction through with
  | ended =>
      refine ⟨[], 0, fun letters gas => ?_⟩
      rw [List.append_nil]
      exact .refl
  | acts _ _ may => exact may.elim
  | @moves frame outer block here later inductionHypothesis =>
      obtain ⟨more, cost, goesOn⟩ := inductionHypothesis
      refine ⟨(frame.move scope block).letters ++ more, cost + 1, fun letters gas => ?_⟩
      have moves : Stage.Moves program (fun _ => scope) ⟨letters, gas, frame :: outer⟩ _ :=
        .move here
      have rest := goesOn (letters ++ (frame.move scope block).letters) (gas + 1)
      rw [List.append_assoc, Nat.add_assoc, Nat.add_comm 1] at rest
      exact .head moves rest

theorem run_returns (through : ComesThrough program scope False frames) :
    ∃ cost, ∀ capacity gas, gas + cost < capacity →
      ∃ letters, ((⟨frames, false, gas, none⟩ : Execution).runWithin capacity program scope).1 =
        .ok letters := by
  obtain ⟨letters, cost, course⟩ := through.leads
  refine ⟨cost, fun capacity gas room => ⟨letters, ?_⟩⟩
  have ends := ((course [] gas).outcome_eq room).trans (Stage.outcome_of_ended rfl)
  exact congrArg Prod.fst ends

end ComesThrough

/-! ### Accepted scripts -/

theorem Execution.settled_afterCalls {program : Program} (isTree : program.IsTree)
    (capacity : Nat) (scopes : Nat → Scope) (calls : Nat) :
    ((Execution.start program none).afterCalls capacity program scopes calls).Settled
      program := by
  induction calls with
  | zero => exact ⟨.root isTree.holds_root, by simp [afterCalls, start]⟩
  | succ calls inductionHypothesis =>
      exact inductionHypothesis.stepWithin isTree.inTable capacity (scopes calls)

/-- Without a limit, steps on an accepted script return wherever loops act. Calls under any scopes
have brought the execution to some place, with a counter of any capacity. From there, under a scope
under which every loop of the script whose condition holds has an action directly in its body, a
step returns an action or the end as soon as the counter has room for the way, however much that
is; and under a scope under which no condition of a loop holds, so does a run. -/
theorem steps_return_where_loops_act {source : SourceFile} {program : Program}
    (accepted : parse source = .ok program) (few : program.blocks.size < UInt32.size)
    (capacity : Nat) (scopes : Nat → Scope) (calls : Nat) (scope : Scope) :
    let reached := (Execution.start program none).afterCalls capacity program scopes calls
    (program.LoopsAct scope →
      ∃ cost, ∀ larger, reached.gasUsed + cost < larger →
        ∃ answer, (reached.stepWithin larger program scope).1 = .ok answer) ∧
    (program.LoopsIdle scope →
      ∃ cost, ∀ larger, reached.gasUsed + cost < larger →
        ∃ letters, (reached.runWithin larger program scope).1 = .ok letters) := by
  intro reached
  obtain ⟨isTree, -⟩ := parse_isTree_and_unfolds accepted few
  have unlimited : reached.gasLimit = none :=
    Execution.afterCalls_gasLimit_eq capacity program scopes _ calls
  have settled : reached.Settled program :=
    Execution.settled_afterCalls isTree capacity scopes calls
  generalize reached = execution at unlimited settled
  obtain ⟨frames, finished, gas, limit⟩ := execution
  obtain rfl : limit = none := unlimited
  have atEnd (larger : Nat) : (⟨frames, true, gas, none⟩ : Execution).stepWithin larger program
      scope = (.ok none, ⟨frames, true, gas, none⟩) := if_pos rfl
  refine ⟨fun acting => ?_, fun idle => ?_⟩
  · cases finished with
    | true => exact ⟨0, fun larger _ => ⟨none, by rw [atEnd]⟩⟩
    | false =>
        have through := settled.stack.comesThrough acting.rest isTree.descending
        obtain ⟨cost, returns⟩ := through.drive_returns
        exact ⟨cost, fun larger room => returns larger gas room⟩
  · cases finished with
    | true => exact ⟨0, fun larger _ => ⟨[], by rw [Execution.runWithin_eq, atEnd]⟩⟩
    | false =>
        have through := settled.stack.comesThrough idle.rest isTree.descending
        obtain ⟨cost, returns⟩ := through.run_returns
        exact ⟨cost, fun larger room => returns larger gas room⟩

/-- Paused behind the action of a loop that goes on: the rest of the round has none, but the next
round has. Without light the script runs to its end. -/
theorem steps_return_behind_action :
    let source : SourceFile := ⟨"aula", "enquanto luz {A 2{}} B"⟩
    let light := Scope.empty.set "luz" (.bool true)
    ∃ program, parse source = .ok program ∧ program.blocks.size < UInt32.size ∧
      program.LoopsAct light ∧ program.LoopsIdle .empty ∧
      let reached := (Execution.start program none).afterCalls gasCapacity program
        (fun _ => light) 1
      (∃ cost, ∀ larger, reached.gasUsed + cost < larger →
        ∃ answer, (reached.stepWithin larger program light).1 = .ok answer) ∧
      ∃ cost, ∀ larger, reached.gasUsed + cost < larger →
        ∃ letters, (reached.runWithin larger program .empty).1 = .ok letters := by
  intro source light
  have checked : (parse source).toOption.any (fun program =>
      decide (program.blocks.size < UInt32.size) && decide (program.LoopsAct light) &&
        decide (program.LoopsIdle .empty)) = true := by
    decide +kernel
  obtain ⟨program, found, holds⟩ := (Option.any_eq_true _ _).mp checked
  simp only [Bool.and_eq_true, decide_eq_true_eq] at holds
  obtain ⟨⟨few, acting⟩, idle⟩ := holds
  have accepted : parse source = .ok program := toOption_eq_some_iff.mp found
  have lit := steps_return_where_loops_act accepted few gasCapacity (fun _ => light) 1 light
  have dark := steps_return_where_loops_act accepted few gasCapacity (fun _ => light) 1 .empty
  exact ⟨program, accepted, few, acting, idle, lit.1 acting, dark.2 idle⟩

end RobotScript
