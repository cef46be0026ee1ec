/-
Module: RobotScript.Execution.Step
Purpose: The machine that runs programs. One move starts a statement or ends a block and costs one
  unit of gas; a step makes moves until an action is due, the program ends or cannot go on; a run
  makes steps until the end. Every move raises the gas counter, and the counter is bounded: that
  is why steps and runs end.
Main exports: Move, Execution.advance, Execution.stepWithin, Execution.step, Execution.runWithin,
  Execution.run
-/
import RobotScript.Execution.Basic
import RobotScript.Scope
import RobotScript.Token.Basic

namespace RobotScript

/-! ### Moves -/

/-- A condition as it was read when a statement was started. -/
structure Reading where
  /-- The word of the statement that reads the condition. -/
  word : Keyword
  condition : String
  holds : Bool
  deriving Repr, Inhabited, DecidableEq

/-- What the machine does next. -/
inductive Move where
  /-- Starts an action. -/
  | act (letter : Char)
  /-- Starts any other statement: what it read, if it reads a condition, and the frame it opens,
  if it opens one. -/
  | call (reading? : Option Reading) (opened? : Option Frame)
  /-- Goes back to the beginning of the block, which is now of this kind. -/
  | again (kind : FrameKind)
  /-- Leaves the block. -/
  | leave
  deriving Repr, Inhabited, DecidableEq

/-- The move that starts a statement. -/
def Stmt.move (scope : Scope) : Stmt → Move
  | action letter _ => .act letter
  | block body => .call none (some (.enter body .block))
  | repeated count body _ =>
      .call none (if count = 0 then none else some (.enter body (.repeated (count - 1))))
  | conditional condition thenBlock elseBlock? _ =>
      let holds := scope.isTruthy condition.name
      .call (some ⟨.se, condition.name, holds⟩)
        ((if holds then some thenBlock else elseBlock?).map fun branch => .enter branch .block)
  | loop condition body _ =>
      let holds := scope.isTruthy condition.name
      .call (some ⟨.enquanto, condition.name, holds⟩)
        (if holds then some (.enter body (.loop condition.name)) else none)

/-- The move at the end of a block. -/
def FrameKind.move (scope : Scope) : FrameKind → Move
  | block => .leave
  | repeated remaining => if remaining = 0 then .leave else .again (.repeated (remaining - 1))
  | loop condition => if scope.isTruthy condition then .again (.loop condition) else .leave

/-- The move that a frame makes in its block. -/
def Frame.move (scope : Scope) (block : Block) (frame : Frame) : Move :=
  match block.stmts[frame.cursor]? with
  | some stmt => stmt.move scope
  | none => frame.kind.move scope

/-- The frames after a move of the innermost one. -/
def Move.apply (move : Move) (frame : Frame) (outer : List Frame) : List Frame :=
  match move with
  | .act _ => { frame with cursor := frame.cursor + 1 } :: outer
  | .call _ none => { frame with cursor := frame.cursor + 1 } :: outer
  | .call _ (some opened) => opened :: { frame with cursor := frame.cursor + 1 } :: outer
  | .again kind => { frame with cursor := 0, kind := kind } :: outer
  | .leave => outer

/-! ### Gas -/

/-- The numbers that a gas counter of 64 bits holds: those below this one. -/
def gasCapacity : Nat := UInt64.size

/-- The gas limit, if the counter is above it. -/
def Execution.exceededLimit? (execution : Execution) : Option Nat :=
  execution.gasLimit.filter (· < execution.gasUsed)

/-- Counts one unit of gas. The unit stays counted if it is one too many. -/
def Execution.charge (capacity : Nat) (execution : Execution) : Option EvalError × Execution :=
  if execution.gasUsed + 1 < capacity then
    let charged := { execution with gasUsed := execution.gasUsed + 1 }
    (charged.exceededLimit?.map .gasExhausted, charged)
  else (some .counterOverflow, execution)

/-! ### One move -/

/-- What a step ends with: an action, the end of the program, or an error. -/
abbrev StepResult := Except EvalError (Option Char)

/-- The machine after one move: either it goes on, or the step is over. -/
inductive Transition where
  | next (execution : Execution)
  | stop (result : StepResult) (execution : Execution)
  deriving Repr, Inhabited

/-- Makes one move. Nothing is charged for finding that the program has ended or that its block is
missing; any other move is paid for before it is made. -/
def Execution.advance (capacity : Nat) (program : Program) (scope : Scope)
    (execution : Execution) : Transition :=
  match execution.frames with
  | [] => .stop (.ok none) { execution with finished := true }
  | frame :: outer =>
      match program.block? frame.block with
      | none => .stop (.error (.danglingBlock frame.block)) execution
      | some block =>
          match execution.charge capacity with
          | (some error, charged) => .stop (.error error) charged
          | (none, charged) =>
              let move := frame.move scope block
              let moved := { charged with frames := move.apply frame outer }
              match move with
              | .act letter => .stop (.ok (some letter)) moved
              | _ => .next moved

theorem Execution.charge_eq_none {capacity : Nat} {execution charged : Execution}
    (paid : execution.charge capacity = (none, charged)) :
    charged = { execution with gasUsed := execution.gasUsed + 1 } ∧
      execution.gasUsed + 1 < capacity := by
  unfold charge at paid
  split at paid
  · rename_i room
    simp only [Prod.mk.injEq] at paid
    exact ⟨paid.2.symm, room⟩
  · simp at paid

/-- A move after which the step goes on has raised the gas counter by one. -/
theorem Execution.advance_next {capacity : Nat} {program : Program} {scope : Scope}
    {execution moved : Execution}
    (goesOn : execution.advance capacity program scope = .next moved) :
    moved.gasUsed = execution.gasUsed + 1 ∧ execution.gasUsed + 1 < capacity := by
  unfold advance at goesOn
  split at goesOn
  · simp at goesOn
  split at goesOn
  · simp at goesOn
  split at goesOn
  · simp at goesOn
  · rename_i charged paid
    obtain ⟨rfl, room⟩ := charge_eq_none paid
    dsimp only at goesOn
    split at goesOn
    · simp at goesOn
    · simp only [Transition.next.injEq] at goesOn
      subst goesOn
      exact ⟨rfl, room⟩

/-- So has a move that starts an action. -/
theorem Execution.advance_action {capacity : Nat} {program : Program} {scope : Scope}
    {execution moved : Execution} {letter : Char}
    (acts : execution.advance capacity program scope = .stop (.ok (some letter)) moved) :
    moved.gasUsed = execution.gasUsed + 1 ∧ execution.gasUsed + 1 < capacity := by
  unfold advance at acts
  split at acts
  · simp at acts
  split at acts
  · simp at acts
  split at acts
  · simp at acts
  · rename_i charged paid
    obtain ⟨rfl, room⟩ := charge_eq_none paid
    dsimp only at acts
    split at acts
    · simp only [Transition.stop.injEq] at acts
      rw [← acts.2]
      exact ⟨rfl, room⟩
    · simp at acts

/-! ### Steps -/

/-- Makes moves until one ends the step. -/
def Execution.drive (capacity : Nat) (program : Program) (scope : Scope) (execution : Execution) :
    StepResult × Execution :=
  match _goesOn : execution.advance capacity program scope with
  | .next moved => moved.drive capacity program scope
  | .stop result stopped => (result, stopped)
  termination_by capacity - execution.gasUsed
  decreasing_by
    have := Execution.advance_next _goesOn
    omega

/-- Runs up to the next action, with a gas counter of the given capacity. Once the end has been
announced it is announced again and again. -/
def Execution.stepWithin (capacity : Nat) (program : Program) (scope : Scope)
    (execution : Execution) : StepResult × Execution :=
  if execution.finished then (.ok none, execution) else execution.drive capacity program scope

/-- Runs up to the next action and gives its letter, or nothing once the program has ended.
Conditions are read from `scope` at the moment they are reached. -/
def Execution.step (program : Program) (scope : Scope) (execution : Execution) :
    StepResult × Execution :=
  execution.stepWithin gasCapacity program scope

theorem Execution.drive_action {capacity : Nat} {program : Program} {scope : Scope}
    {execution stopped : Execution} {letter : Char}
    (acts : execution.drive capacity program scope = (.ok (some letter), stopped)) :
    execution.gasUsed < stopped.gasUsed ∧ stopped.gasUsed < capacity := by
  fun_induction drive capacity program scope execution with
  | case1 execution moved goesOn inductionHypothesis =>
      have := advance_next goesOn
      have := inductionHypothesis acts
      omega
  | case2 execution result halted goesOn =>
      simp only [Prod.mk.injEq] at acts
      obtain ⟨rfl, rfl⟩ := acts
      have := advance_action goesOn
      omega

/-- A step that gives an action has raised the gas counter. -/
theorem Execution.stepWithin_action {capacity : Nat} {program : Program} {scope : Scope}
    {execution stopped : Execution} {letter : Char}
    (acts : execution.stepWithin capacity program scope = (.ok (some letter), stopped)) :
    execution.gasUsed < stopped.gasUsed ∧ stopped.gasUsed < capacity := by
  unfold stepWithin at acts
  split at acts
  · simp at acts
  · exact drive_action acts

/-! ### Runs -/

/-- What a run ends with: all its actions, or an error. -/
abbrev RunResult := Except EvalError (List Char)

/-- Makes steps until the program ends, adding the actions to those already done. An error loses
them. -/
def Execution.runOnto (capacity : Nat) (program : Program) (scope : Scope) (done : Array Char)
    (execution : Execution) : RunResult × Execution :=
  match _acts : execution.stepWithin capacity program scope with
  | (.ok (some letter), stopped) => stopped.runOnto capacity program scope (done.push letter)
  | (.ok none, stopped) => (.ok done.toList, stopped)
  | (.error error, stopped) => (.error error, stopped)
  termination_by capacity - execution.gasUsed
  decreasing_by
    have := Execution.stepWithin_action _acts
    omega

/-- Runs to the end, with a gas counter of the given capacity. -/
def Execution.runWithin (capacity : Nat) (program : Program) (scope : Scope)
    (execution : Execution) : RunResult × Execution :=
  execution.runOnto capacity program scope #[]

/-- Runs to the end and gives all actions on the way. -/
def Execution.run (program : Program) (scope : Scope) (execution : Execution) :
    RunResult × Execution :=
  execution.runWithin gasCapacity program scope

theorem Execution.runOnto_of_action {capacity : Nat} {program : Program} {scope : Scope}
    {execution stopped : Execution} {letter : Char} (done : Array Char)
    (acts : execution.stepWithin capacity program scope = (.ok (some letter), stopped)) :
    execution.runOnto capacity program scope done =
      stopped.runOnto capacity program scope (done.push letter) := by
  rw [runOnto]
  split <;> simp_all

/-- The actions already done only stand in front of those still to come. -/
theorem Execution.runOnto_eq (capacity : Nat) (program : Program) (scope : Scope)
    (done : Array Char) (execution : Execution) :
    execution.runOnto capacity program scope done =
      ((execution.runWithin capacity program scope).1.map (done.toList ++ ·),
        (execution.runWithin capacity program scope).2) := by
  unfold runWithin
  induction left : capacity - execution.gasUsed using Nat.strongRecOn
    generalizing execution done with
  | ind left inductionHypothesis =>
      match acts : execution.stepWithin capacity program scope with
      | (.ok (some letter), stopped) =>
          have raised := stepWithin_action acts
          rw [runOnto_of_action done acts, runOnto_of_action #[] acts,
            inductionHypothesis _ (by omega) (done.push letter) stopped rfl,
            inductionHypothesis _ (by omega) (#[].push letter) stopped rfl]
          cases (stopped.runOnto capacity program scope #[]).1 <;> simp [Except.map]
      | (.ok none, stopped) =>
          rw [runOnto, runOnto]
          split <;> simp_all [Except.map]
      | (.error error, stopped) =>
          rw [runOnto, runOnto]
          split <;> simp_all [Except.map]

/-- A run is a step, and if that gives an action, a run from there. -/
theorem Execution.runWithin_eq (capacity : Nat) (program : Program) (scope : Scope)
    (execution : Execution) :
    execution.runWithin capacity program scope =
      match execution.stepWithin capacity program scope with
      | (.ok (some letter), stopped) =>
          ((stopped.runWithin capacity program scope).1.map (letter :: ·),
            (stopped.runWithin capacity program scope).2)
      | (.ok none, stopped) => (.ok [], stopped)
      | (.error error, stopped) => (.error error, stopped) := by
  conv => lhs; unfold runWithin; rw [runOnto]
  split
  · rename_i letter stopped acts
    simp [runOnto_eq, acts]
  · rename_i stopped acts
    simp [acts]
  · rename_i error stopped acts
    simp [acts]

end RobotScript
