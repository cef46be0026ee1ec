/-
Module: RobotScript.Proofs.MachineMoves
Purpose: What one move of the machine can be, said once. A move finds the program ended or its
  block missing, cannot be paid for, starts an action, or goes on; in every case it says what
  becomes of the execution. What moves keep, steps and runs keep.
Main exports: Execution.Advances, Execution.advances, Execution.charge_cases,
  Execution.drive_preserves, Execution.stepWithin_finished_iff, Execution.runWithin_preserves,
  Execution.runWithin_error, Execution.Reachable
-/
import RobotScript.Execution.Step

namespace RobotScript

theorem toOption_eq_some_iff {ε α : Type} {result : Except ε α} {value : α} :
    result.toOption = some value ↔ result = .ok value := by
  cases result <;> simp [Except.toOption]

/-- A count that is not zero is one more than the count that remains. -/
theorem toNat_pred_add_one {count : UInt32} (positive : count ≠ 0) :
    (count - 1).toNat + 1 = count.toNat := by
  have notZero : count.toNat ≠ 0 := fun zero => positive (UInt32.toNat_inj.mp zero)
  have one : (1 : UInt32) ≤ count := UInt32.le_iff_toNat_le.mpr (Nat.pos_of_ne_zero notZero)
  rw [UInt32.toNat_sub_of_le _ _ one]
  exact Nat.sub_add_cancel (Nat.pos_of_ne_zero notZero)

namespace Execution

/-! ### One move -/

/-- The execution with one more unit of gas counted. -/
def charged (execution : Execution) : Execution :=
  { execution with gasUsed := execution.gasUsed + 1 }

/-- The execution after its innermost frame has made a move. -/
def moved (execution : Execution) (move : Move) (frame : Frame) (outer : List Frame) : Execution :=
  { execution.charged with frames := move.apply frame outer }

/-- A unit of gas is counted if the counter has room for it, and only then can it exceed the
limit. -/
theorem charge_cases (capacity : Nat) (execution : Execution) :
    (capacity ≤ execution.gasUsed + 1 ∧
      execution.charge capacity = (some .counterOverflow, execution)) ∨
    (execution.gasUsed + 1 < capacity ∧ execution.charged.exceededLimit? = none ∧
      execution.charge capacity = (none, execution.charged)) ∨
    ∃ limit, execution.gasUsed + 1 < capacity ∧
      execution.charged.exceededLimit? = some limit ∧
      execution.charge capacity = (some (.gasExhausted limit), execution.charged) := by
  simp only [charge]
  split
  · rename_i room
    cases exceeded : execution.charged.exceededLimit? with
    | none =>
        refine Or.inr (Or.inl ⟨room, rfl, ?_⟩)
        change (execution.charged.exceededLimit?.map _, _) = _
        rw [exceeded]
        rfl
    | some limit =>
        refine Or.inr (Or.inr ⟨limit, room, rfl, ?_⟩)
        change (execution.charged.exceededLimit?.map _, _) = _
        rw [exceeded]
        rfl
  · rename_i full
    exact Or.inl ⟨Nat.le_of_not_lt full, rfl⟩

/-- The move of an execution, and what it leads to. -/
inductive Advances (capacity : Nat) (program : Program) (scope : Scope) (execution : Execution) :
    Transition → Prop where
  | ends (empty : execution.frames = []) :
      Advances capacity program scope execution
        (.stop (.ok none) { execution with finished := true })
  | dangles {frame : Frame} {outer : List Frame} (top : execution.frames = frame :: outer)
      (missing : program.block? frame.block = none) :
      Advances capacity program scope execution
        (.stop (.error (.danglingBlock frame.block)) execution)
  | overflows {frame : Frame} {outer : List Frame} {block : Block}
      (top : execution.frames = frame :: outer) (here : program.block? frame.block = some block)
      (full : capacity ≤ execution.gasUsed + 1) :
      Advances capacity program scope execution (.stop (.error .counterOverflow) execution)
  | starves {frame : Frame} {outer : List Frame} {block : Block} {limit : Nat}
      (top : execution.frames = frame :: outer) (here : program.block? frame.block = some block)
      (room : execution.gasUsed + 1 < capacity)
      (exceeded : execution.charged.exceededLimit? = some limit) :
      Advances capacity program scope execution
        (.stop (.error (.gasExhausted limit)) execution.charged)
  | acts {frame : Frame} {outer : List Frame} {block : Block} {letter : Char}
      (top : execution.frames = frame :: outer) (here : program.block? frame.block = some block)
      (room : execution.gasUsed + 1 < capacity)
      (within : execution.charged.exceededLimit? = none)
      (action : frame.move scope block = .act letter) :
      Advances capacity program scope execution
        (.stop (.ok (some letter)) (execution.moved (.act letter) frame outer))
  | goesOn {frame : Frame} {outer : List Frame} {block : Block}
      (top : execution.frames = frame :: outer) (here : program.block? frame.block = some block)
      (room : execution.gasUsed + 1 < capacity)
      (within : execution.charged.exceededLimit? = none)
      (noAction : ∀ letter, frame.move scope block ≠ .act letter) :
      Advances capacity program scope execution
        (.next (execution.moved (frame.move scope block) frame outer))

theorem advances (capacity : Nat) (program : Program) (scope : Scope) (execution : Execution) :
    Advances capacity program scope execution (execution.advance capacity program scope) := by
  simp only [advance]
  split
  · rename_i empty
    exact .ends empty
  · rename_i frame outer top
    split
    · rename_i missing
      exact .dangles top missing
    · rename_i block here
      rcases execution.charge_cases capacity with ⟨full, refused⟩ | ⟨room, within, paid⟩ |
        ⟨limit, room, exceeded, refused⟩
      · rw [refused]
        exact .overflows top here full
      · rw [paid]
        dsimp only
        split
        · rename_i letter action
          rw [action]
          exact .acts top here room within action
        · rename_i noAction
          exact .goesOn top here room within noAction
      · rw [refused]
        exact .starves top here room exceeded

/-! ### Steps and runs -/

/-- What moves keep holds while a step goes on; what the last move gives holds of its result. -/
theorem drive_preserves {capacity : Nat} {program : Program} {scope : Scope}
    {P : Execution → Prop} {Q : StepResult → Execution → Prop}
    (kept : ∀ execution after, P execution →
      Advances capacity program scope execution (.next after) → P after)
    (reached : ∀ execution result after, P execution →
      Advances capacity program scope execution (.stop result after) → Q result after)
    {execution : Execution} (holds : P execution) :
    Q (execution.drive capacity program scope).1 (execution.drive capacity program scope).2 := by
  fun_induction drive capacity program scope execution with
  | case1 execution after goesOn inductionHypothesis =>
      apply inductionHypothesis
      apply kept execution after holds
      exact goesOn ▸ execution.advances capacity program scope
  | case2 execution result stopped stops =>
      apply reached execution result stopped holds
      exact stops ▸ execution.advances capacity program scope

theorem Advances.running_of_next {capacity : Nat} {program : Program} {scope : Scope}
    {execution after : Execution} (running : execution.finished = false)
    (advances : Advances capacity program scope execution (.next after)) :
    after.finished = false := by
  cases advances with
  | goesOn => exact running

/-- A step marks the execution as finished exactly if it finds the end. -/
theorem stepWithin_finished_iff {capacity : Nat} {program : Program} {scope : Scope}
    {execution : Execution} :
    (execution.stepWithin capacity program scope).2.finished = true ↔
      (execution.stepWithin capacity program scope).1 = .ok none := by
  unfold stepWithin
  split
  · rename_i finished
    exact iff_of_true finished rfl
  · rename_i running
    refine drive_preserves (P := fun later => later.finished = false)
      (Q := fun result after => after.finished = true ↔ result = .ok none) ?_ ?_
      (Bool.eq_false_iff.mpr running)
    · intro later after stillRunning advances
      exact advances.running_of_next stillRunning
    · intro later result after stillRunning advances
      have notYet : ¬ later.finished = true := Bool.eq_false_iff.mp stillRunning
      cases advances with
      | ends => exact iff_of_true rfl rfl
      | dangles => exact iff_of_false notYet (by simp)
      | overflows => exact iff_of_false notYet (by simp)
      | starves => exact iff_of_false notYet (by simp)
      | acts => exact iff_of_false notYet (by simp)

/-- What steps keep, runs keep. -/
theorem runWithin_preserves {capacity : Nat} {program : Program} {scope : Scope}
    {P : Execution → Prop}
    (kept : ∀ execution, P execution → P (execution.stepWithin capacity program scope).2)
    {execution : Execution} (holds : P execution) :
    P (execution.runWithin capacity program scope).2 := by
  simp only [runWithin]
  generalize #[] = done
  fun_induction runOnto capacity program scope done execution with
  | case1 done execution letter stopped acts inductionHypothesis =>
      have after := kept execution holds
      rw [acts] at after
      exact inductionHypothesis after
  | case2 done execution stopped ends =>
      have after := kept execution holds
      rwa [ends] at after
  | case3 done execution error stopped fails =>
      have after := kept execution holds
      rwa [fails] at after

/-- A run fails only as one of its steps does; what actions keep still holds there. -/
theorem runWithin_error {capacity : Nat} {program : Program} {scope : Scope}
    {P : Execution → Prop} {Q : EvalError → Prop}
    (kept : ∀ execution letter after, P execution →
      execution.stepWithin capacity program scope = (.ok (some letter), after) → P after)
    (fails : ∀ execution error, P execution →
      (execution.stepWithin capacity program scope).1 = .error error → Q error)
    {execution : Execution} (holds : P execution) {error : EvalError}
    (failed : (execution.runWithin capacity program scope).1 = .error error) : Q error := by
  simp only [runWithin] at failed
  generalize #[] = done at failed
  fun_induction runOnto capacity program scope done execution with
  | case1 done execution letter stopped acts inductionHypothesis =>
      exact inductionHypothesis (kept execution letter stopped holds acts) failed
  | case2 done execution stopped ends => cases failed
  | case3 done execution cause stopped stops =>
      obtain rfl := Except.error.inj failed
      apply fails execution cause holds
      rw [stops]

/-- The executions that steps and runs lead to from the start of a program, each under a scope of
its own, whatever they returned. -/
inductive Reachable (program : Program) : Execution → Prop where
  | start (gasLimit : Option Nat) : Reachable program (.start program gasLimit)
  | step {execution : Execution} (before : Reachable program execution) (scope : Scope) :
      Reachable program (execution.step program scope).2
  | run {execution : Execution} (before : Reachable program execution) (scope : Scope) :
      Reachable program (execution.run program scope).2

/-- What holds at the start and is kept by steps holds of all reachable executions. -/
theorem Reachable.preserves {program : Program} {P : Execution → Prop}
    (starts : ∀ gasLimit, P (.start program gasLimit))
    (kept : ∀ scope execution, P execution → P (execution.step program scope).2)
    {execution : Execution} (reachable : Reachable program execution) : P execution := by
  induction reachable with
  | start gasLimit => exact starts gasLimit
  | step _ scope holds => exact kept scope _ holds
  | run _ scope holds => exact runWithin_preserves (kept scope) holds

end Execution

end RobotScript
