/-
Module: RobotScript.Proofs.GasBound
Purpose: A limit bounds what a program can do, whatever the program is. Blocks may hold themselves,
  be shared or be missing, a cursor may stand behind the end of its block, and the counter may be
  beyond the limit from the start: a move either ends the step or is paid for, and only one unit
  beyond the limit is ever counted. So a step returns after the units that are left and one more,
  and a run returns with no more actions than units are left.
Main exports: Execution.ReturnsUnder, Execution.drive_spends, Execution.stepWithin_spends,
  Execution.runWithin_letters, Execution.runWithin_larger, limit_bounds_steps_and_runs
-/
import Mathlib.Algebra.Group.Nat.Defs
import RobotScript.Proofs.GasCost

namespace RobotScript

namespace Execution

variable {capacity other limit : Nat} {program : Program} {scope : Scope} {execution : Execution}

/-- How a call under a limit returns: with an answer, for want of gas, or at a missing block. -/
inductive ReturnsUnder {α : Type} (limit : Nat) : Except EvalError α → Prop where
  | answers (value : α) : ReturnsUnder limit (.ok value)
  | exhausted : ReturnsUnder limit (.error (.gasExhausted limit))
  | dangles (block : BlockId) : ReturnsUnder limit (.error (.danglingBlock block))

theorem ReturnsUnder.of_errors {α : Type} {result : Except EvalError α}
    (errors : ∀ error, result = .error error → LimitedError limit error) :
    ReturnsUnder limit result := by
  cases result with
  | ok value => exact .answers value
  | error error =>
      rcases errors error rfl with rfl | ⟨block, rfl⟩
      · exact .exhausted
      · exact .dangles block

/-- A call that returns has not filled the counter. -/
theorem ReturnsUnder.ne_overflow {α : Type} {result : Except EvalError α}
    (returns : ReturnsUnder limit result) : result ≠ .error .counterOverflow := by
  cases returns <;> exact nofun

/-! ### What is spent -/

/-- A unit that the limit allows leaves the counter within the limit. -/
theorem gasUsed_lt_of_within (hasLimit : execution.gasLimit = some limit)
    (within : execution.charged.exceededLimit? = none) : execution.gasUsed < limit := by
  rw [exceededLimit?_of_limit hasLimit] at within
  split at within
  · cases within
  · rename_i notBeyond
    exact Nat.le_of_not_lt notBeyond

theorem Advances.gasUsed_le_succ {transition : Transition}
    (advances : Advances capacity program scope execution transition) :
    transition.execution.gasUsed ≤ execution.gasUsed + 1 := by
  cases advances with
  | ends => exact Nat.le_succ _
  | dangles => exact Nat.le_succ _
  | overflows => exact Nat.le_succ _
  | starves => exact Nat.le_refl _
  | acts => exact Nat.le_refl _
  | goesOn => exact Nat.le_refl _

/-- A step goes on within the limit only, so it counts at most one unit beyond the limit, or beyond
what was counted before if that is more; and a step that gives an action stays within. -/
theorem drive_spends (capacity : Nat) (program : Program) (scope : Scope)
    (hasLimit : execution.gasLimit = some limit) :
    (execution.drive capacity program scope).2.gasUsed ≤ max limit execution.gasUsed + 1 ∧
      ∀ letter, (execution.drive capacity program scope).1 = .ok (some letter) →
        (execution.drive capacity program scope).2.gasUsed ≤ limit := by
  apply drive_preserves
    (P := fun later => later.gasLimit = some limit ∧
      later.gasUsed ≤ max limit execution.gasUsed)
    (Q := fun result later => later.gasUsed ≤ max limit execution.gasUsed + 1 ∧
      ∀ letter, result = .ok (some letter) → later.gasUsed ≤ limit)
  · intro later next holds advances
    cases advances with
    | goesOn top here room within =>
        have paid : later.gasUsed + 1 ≤ limit := gasUsed_lt_of_within holds.1 within
        exact ⟨holds.1, Nat.le_trans paid (Nat.le_max_left _ _)⟩
  · intro later result last holds advances
    constructor
    · exact Nat.le_trans advances.gasUsed_le_succ (Nat.succ_le_succ holds.2)
    · intro letter acted
      subst acted
      cases advances with
      | acts top here room within => exact gasUsed_lt_of_within holds.1 within
  · exact ⟨hasLimit, Nat.le_max_right _ _⟩

theorem stepWithin_spends (capacity : Nat) (program : Program) (scope : Scope)
    (hasLimit : execution.gasLimit = some limit) :
    (execution.stepWithin capacity program scope).2.gasUsed ≤
        max limit execution.gasUsed + 1 ∧
      ∀ letter, (execution.stepWithin capacity program scope).1 = .ok (some letter) →
        (execution.stepWithin capacity program scope).2.gasUsed ≤ limit := by
  simp only [stepWithin]
  split
  · constructor
    · exact Nat.le_succ_of_le (Nat.le_max_right _ _)
    · intro letter impossible
      cases impossible
  · exact drive_spends capacity program scope hasLimit

/-- Each action of a run has its own unit, and none of these is beyond the limit. -/
theorem runWithin_letters {letters : List Char} {final : Execution}
    (hasLimit : execution.gasLimit = some limit)
    (runs : execution.runWithin capacity program scope = (.ok letters, final)) :
    letters.length ≤ limit - execution.gasUsed := by
  induction letters generalizing execution with
  | nil => exact Nat.zero_le _
  | cons first rest inductionHypothesis =>
      rcases runWithin_ok_cases runs with
        ⟨impossible, -⟩ | ⟨letter, later, stopped, same, acts, goesOn⟩
      · cases impossible
      · cases same
        have sameLimit := execution.stepWithin_gasLimit_eq capacity program scope
        have within := (stepWithin_spends capacity program scope hasLimit).2 first
        rw [acts] at sameLimit within
        have fewer : rest.length ≤ limit - stopped.gasUsed :=
          inductionHypothesis (sameLimit.trans hasLimit) goesOn
        have spent : stopped.gasUsed ≤ limit := within rfl
        have raised := stepWithin_action acts
        simp only [List.length_cons]
        omega

/-! ### The counter does not matter -/

theorem stepWithin_eq_of_larger (larger : capacity ≤ other) {stopped : Execution}
    {result : Except EvalError (Option Char)} (fits : result ≠ .error .counterOverflow)
    (steps : execution.stepWithin capacity program scope = (result, stopped)) :
    execution.stepWithin other program scope = (result, stopped) := by
  rw [← steps]
  apply stepWithin_larger larger
  rw [steps]
  exact fits

theorem runOnto_larger (larger : capacity ≤ other) {done : Array Char}
    (fits : (execution.runOnto capacity program scope done).1 ≠ .error .counterOverflow) :
    execution.runOnto other program scope done =
      execution.runOnto capacity program scope done := by
  fun_induction runOnto capacity program scope done execution with
  | case1 done execution letter stopped acts inductionHypothesis =>
      have same := stepWithin_eq_of_larger larger (fun full => by cases full) acts
      rw [runOnto_of_action done same]
      exact inductionHypothesis fits
  | case2 done execution stopped ends =>
      have same := stepWithin_eq_of_larger larger (fun full => by cases full) ends
      rw [runOnto]
      split <;> simp_all
  | case3 done execution error stopped fails =>
      have notFull : (.error error : Except EvalError (Option Char)) ≠ .error .counterOverflow := by
        intro full
        cases full
        exact fits rfl
      have same := stepWithin_eq_of_larger larger notFull fails
      rw [runOnto]
      split <;> simp_all

/-- A run that the counter has room for is also made with a larger counter. -/
theorem runWithin_larger (larger : capacity ≤ other)
    (fits : (execution.runWithin capacity program scope).1 ≠ .error .counterOverflow) :
    execution.runWithin other program scope = execution.runWithin capacity program scope :=
  runOnto_larger larger fits

section Limit

variable (hasLimit : execution.gasLimit = some limit) (fits : limit + 1 < capacity)
  (room : execution.gasUsed + 1 < capacity)

include hasLimit fits room

theorem stepWithin_returns (program : Program) (scope : Scope) :
    ReturnsUnder limit (execution.stepWithin capacity program scope).1 :=
  .of_errors (stepWithin_of_limit fits program scope hasLimit room).1

theorem runWithin_returns (program : Program) (scope : Scope) :
    ReturnsUnder limit (execution.runWithin capacity program scope).1 :=
  .of_errors fun _ => runWithin_of_limit fits program scope hasLimit room

/-- All counters with room for a unit beyond the limit, and for one more than is counted already,
lead to the same. -/
theorem calls_of_room (program : Program) (scope : Scope) (fitsOther : limit + 1 < other)
    (roomOther : execution.gasUsed + 1 < other) :
    execution.stepWithin other program scope = execution.stepWithin capacity program scope ∧
      execution.runWithin other program scope = execution.runWithin capacity program scope := by
  rcases Nat.le_total capacity other with larger | smaller
  · have step := (stepWithin_returns hasLimit fits room program scope).ne_overflow
    have run := (runWithin_returns hasLimit fits room program scope).ne_overflow
    exact ⟨stepWithin_larger larger step, runWithin_larger larger run⟩
  · have step := (stepWithin_returns hasLimit fitsOther roomOther program scope).ne_overflow
    have run := (runWithin_returns hasLimit fitsOther roomOther program scope).ne_overflow
    exact ⟨(stepWithin_larger smaller step).symm, (runWithin_larger smaller run).symm⟩

end Limit

end Execution

/-- A limit bounds every step and every run, of any program, under any scope and from any execution.
Both return, with an answer, for want of gas or at a missing block, and what they return does not
depend on the size of the counter. A step counts at most the units that are left, if any are, and
one more; a run gives at most as many actions as units are left. -/
theorem limit_bounds_steps_and_runs (program : Program) (scope : Scope) {execution : Execution}
    {limit : Nat} (hasLimit : execution.gasLimit = some limit) (fits : limit < 2 ^ 64 - 1)
    (room : execution.gasUsed < 2 ^ 64 - 1) :
    Execution.ReturnsUnder limit (execution.step program scope).1 ∧
    Execution.ReturnsUnder limit (execution.run program scope).1 ∧
    (execution.step program scope).2.gasUsed ≤
      execution.gasUsed + (limit - execution.gasUsed) + 1 ∧
    (∀ letters, (execution.run program scope).1 = .ok letters →
      letters.length ≤ limit - execution.gasUsed) ∧
    ∀ capacity, limit + 1 < capacity → execution.gasUsed + 1 < capacity →
      execution.stepWithin capacity program scope = execution.step program scope ∧
      execution.runWithin capacity program scope = execution.run program scope := by
  have size : gasCapacity = 2 ^ 64 := rfl
  have fitsCounter : limit + 1 < gasCapacity := by omega
  have roomInCounter : execution.gasUsed + 1 < gasCapacity := by omega
  refine ⟨Execution.stepWithin_returns hasLimit fitsCounter roomInCounter program scope,
    Execution.runWithin_returns hasLimit fitsCounter roomInCounter program scope, ?_, ?_, ?_⟩
  · have spends := (Execution.stepWithin_spends gasCapacity program scope hasLimit).1
    have bound : max limit execution.gasUsed + 1 =
        execution.gasUsed + (limit - execution.gasUsed) + 1 := by omega
    exact Nat.le_trans spends (Nat.le_of_eq bound)
  · intro letters runs
    exact Execution.runWithin_letters hasLimit (Prod.ext runs rfl)
  · intro capacity fitsOther roomOther
    exact Execution.calls_of_room hasLimit fitsCounter roomInCounter program scope fitsOther
      roomOther

/-- A block that acts and then enters itself, taken up behind its end in the last round but one of a
repeat, with ten units left: the stack grows with every round, and the run still ends. -/
theorem limit_bounds_circling_run :
    let circle : Program := ⟨#[⟨#[.action 'A' .origin, .block ⟨0⟩], .origin⟩], ⟨0⟩⟩
    let execution : Execution := ⟨[⟨⟨0⟩, 5, .repeated 1⟩], false, 90, some 100⟩
    execution.gasLimit = some 100 ∧ 100 < 2 ^ 64 - 1 ∧ execution.gasUsed < 2 ^ 64 - 1 ∧
      (execution.step circle .empty).2.gasUsed ≤ 101 ∧
      Execution.ReturnsUnder 100 (execution.run circle .empty).1 ∧
      (∀ letters, (execution.run circle .empty).1 = .ok letters → letters.length ≤ 10) ∧
      (execution.run circle .empty).2.frames.length = 5 := by
  intro circle execution
  have fits : 100 < 2 ^ 64 - 1 := by decide
  have room : execution.gasUsed < 2 ^ 64 - 1 := by decide
  have hasLimit : execution.gasLimit = some 100 := rfl
  have bounds := limit_bounds_steps_and_runs circle .empty hasLimit fits room
  exact ⟨hasLimit, fits, room, bounds.2.2.1, bounds.2.1, bounds.2.2.2.1, by decide +kernel⟩

end RobotScript
