/-
Module: RobotScript.Proofs.GasLimit
Purpose: What a gas limit changes. As long as an unlimited execution has not spent more than the
  limit, the limited one makes the same moves; the first move beyond the limit ends the step with
  an error. So a step under a limit ends, whatever the program, for a reason that the program or
  the limit gives, and not because the counter is full.
Main exports: Execution.limited, Execution.Advances.limited, Execution.Advances.starved,
  Execution.stepWithin_limited, Execution.NeverReturns, Execution.runWithin_of_limit,
  limited_calls_agree
-/
import RobotScript.Proofs.MachineMoves

namespace RobotScript

/-- The execution that a move leads to. -/
def Transition.execution : Transition → Execution
  | .next execution => execution
  | .stop _ execution => execution

/-- The same execution under a limit. -/
def Execution.limited (limit : Nat) (execution : Execution) : Execution :=
  { execution with gasLimit := some limit }

/-- The same move under a limit. -/
def Transition.limited (limit : Nat) : Transition → Transition
  | .next execution => .next (execution.limited limit)
  | .stop result execution => .stop result (execution.limited limit)

namespace Execution

variable {capacity : Nat} {program : Program} {scope : Scope} {execution after : Execution}

/-! ### What every move keeps -/

theorem Advances.gasLimit_eq {transition : Transition}
    (advances : Advances capacity program scope execution transition) :
    transition.execution.gasLimit = execution.gasLimit := by
  cases advances <;> rfl

/-- A move counts at most one unit. -/
theorem Advances.gasUsed_le {transition : Transition}
    (advances : Advances capacity program scope execution transition) :
    execution.gasUsed ≤ transition.execution.gasUsed := by
  cases advances with
  | ends => exact Nat.le_refl _
  | dangles => exact Nat.le_refl _
  | overflows => exact Nat.le_refl _
  | starves => exact Nat.le_succ _
  | acts => exact Nat.le_succ _
  | goesOn => exact Nat.le_succ _

/-- What a unit costs is decided by the room in the counter and the limit. -/
theorem charge_of_room (room : execution.gasUsed + 1 < capacity) :
    execution.charge capacity =
      (execution.charged.exceededLimit?.map .gasExhausted, execution.charged) :=
  if_pos room

theorem charge_of_full (full : capacity ≤ execution.gasUsed + 1) :
    execution.charge capacity = (some .counterOverflow, execution) :=
  if_neg (Nat.not_lt.mpr full)

/-- An execution makes only one move. -/
theorem Advances.advance_eq {transition : Transition}
    (advances : Advances capacity program scope execution transition) :
    execution.advance capacity program scope = transition := by
  cases advances with
  | ends empty => simp only [advance, empty]
  | dangles top missing => simp only [advance, top, missing]
  | overflows top here full => simp only [advance, top, here, charge_of_full full]
  | starves top here room exceeded =>
      simp only [advance, top, here, charge_of_room room, exceeded, Option.map_some]
  | acts top here room within action =>
      simp only [advance, top, here, charge_of_room room, within, Option.map_none, action]
      rfl
  | goesOn top here room within noAction =>
      simp only [advance, top, here, charge_of_room room, within, Option.map_none]
      rfl

theorem drive_of_next
    (goesOn : execution.advance capacity program scope = .next after) :
    execution.drive capacity program scope = after.drive capacity program scope := by
  rw [drive]
  split <;> simp_all

theorem drive_of_stop {result : StepResult}
    (stops : execution.advance capacity program scope = .stop result after) :
    execution.drive capacity program scope = (result, after) := by
  rw [drive]
  split <;> simp_all

/-- The gas counter never goes back. -/
theorem drive_gasUsed_le (capacity : Nat) (program : Program) (scope : Scope)
    (execution : Execution) :
    execution.gasUsed ≤ (execution.drive capacity program scope).2.gasUsed := by
  refine drive_preserves (P := fun later => execution.gasUsed ≤ later.gasUsed)
    (Q := fun _ later => execution.gasUsed ≤ later.gasUsed) ?_ ?_ (Nat.le_refl _)
  · intro later next spent advances
    exact Nat.le_trans spent advances.gasUsed_le
  · intro later result next spent advances
    exact Nat.le_trans spent advances.gasUsed_le

theorem stepWithin_gasUsed_le (capacity : Nat) (program : Program) (scope : Scope)
    (execution : Execution) :
    execution.gasUsed ≤ (execution.stepWithin capacity program scope).2.gasUsed := by
  simp only [stepWithin]
  split
  · exact Nat.le_refl _
  · exact execution.drive_gasUsed_le capacity program scope

/-- No step changes the limit. -/
theorem stepWithin_gasLimit_eq (capacity : Nat) (program : Program) (scope : Scope)
    (execution : Execution) :
    (execution.stepWithin capacity program scope).2.gasLimit = execution.gasLimit := by
  simp only [stepWithin]
  split
  · rfl
  · refine drive_preserves (P := fun later => later.gasLimit = execution.gasLimit)
      (Q := fun _ later => later.gasLimit = execution.gasLimit) ?_ ?_ rfl
    · intro later next same advances
      exact advances.gasLimit_eq.trans same
    · intro later result next same advances
      exact advances.gasLimit_eq.trans same

theorem runWithin_gasLimit_eq (capacity : Nat) (program : Program) (scope : Scope)
    (execution : Execution) :
    (execution.runWithin capacity program scope).2.gasLimit = execution.gasLimit := by
  refine runWithin_preserves (P := fun later => later.gasLimit = execution.gasLimit) ?_ rfl
  intro later same
  exact (later.stepWithin_gasLimit_eq capacity program scope).trans same

/-! ### Up to the limit, and beyond it -/

theorem exceededLimit?_of_limit {limit : Nat} (hasLimit : execution.gasLimit = some limit) :
    execution.charged.exceededLimit? =
      if limit < execution.gasUsed + 1 then some limit else none := by
  simp only [exceededLimit?, charged, hasLimit, Option.filter_some, decide_eq_true_eq]

theorem exceededLimit?_of_no_limit (unlimited : execution.gasLimit = none) :
    execution.charged.exceededLimit? = none := by
  simp only [exceededLimit?, charged, unlimited, Option.filter_none]

section Limited

/- The unlimited execution and the limited one may have counters of different capacities, as long
as both have room for one unit beyond the limit. -/
variable {limit otherCapacity : Nat} (fits : limit + 1 < capacity)

include fits

theorem within_of_lt (below : execution.gasUsed < limit) :
    execution.gasUsed + 1 < capacity ∧
      (execution.limited limit).charged.exceededLimit? = none := by
  refine ⟨Nat.lt_trans (Nat.succ_lt_succ below) fits, ?_⟩
  exact (exceededLimit?_of_limit rfl).trans (if_neg (Nat.not_lt.mpr below))

theorem exceeded_of_eq (spent : execution.gasUsed = limit) :
    execution.gasUsed + 1 < capacity ∧
      (execution.limited limit).charged.exceededLimit? = some limit := by
  refine ⟨spent ▸ fits, ?_⟩
  exact (exceededLimit?_of_limit rfl).trans (if_pos (spent ▸ Nat.lt_succ_self limit))

/-- A move that does not take an unlimited execution beyond the limit is made under the limit
too. -/
theorem Advances.limited {transition : Transition}
    (advances : Advances otherCapacity program scope execution transition)
    (room : limit + 1 < otherCapacity) (unlimited : execution.gasLimit = none)
    (within : transition.execution.gasUsed ≤ limit) :
    Advances capacity program scope (execution.limited limit) (transition.limited limit) := by
  cases advances with
  | ends empty => exact .ends empty
  | dangles top missing => exact .dangles top missing
  | overflows top here full =>
      have spent : execution.gasUsed ≤ limit := within
      omega
  | starves top here _ exceeded => cases (exceededLimit?_of_no_limit unlimited).symm.trans exceeded
  | acts top here _ _ action =>
      obtain ⟨fitsMove, notExceeded⟩ := within_of_lt fits within
      exact .acts top here fitsMove notExceeded action
  | goesOn top here _ _ noAction =>
      obtain ⟨fitsMove, notExceeded⟩ := within_of_lt fits within
      exact .goesOn top here fitsMove notExceeded noAction

/-- A move that takes an unlimited execution beyond the limit is refused under the limit. -/
theorem Advances.starved {transition : Transition}
    (advances : Advances otherCapacity program scope execution transition)
    (before : execution.gasUsed ≤ limit) (beyond : limit < transition.execution.gasUsed) :
    Advances capacity program scope (execution.limited limit)
      (.stop (.error (.gasExhausted limit)) (execution.limited limit).charged) := by
  -- Only a move that is paid for can go beyond the limit, and it does so by one unit.
  have refused {frame : Frame} {outer : List Frame} {block : Block}
      (top : execution.frames = frame :: outer) (here : program.block? frame.block = some block)
      (paid : limit < execution.gasUsed + 1) :
      Advances capacity program scope (execution.limited limit)
        (.stop (.error (.gasExhausted limit)) (execution.limited limit).charged) := by
    obtain ⟨fitsMove, exceeded⟩ :=
      exceeded_of_eq fits (Nat.le_antisymm before (Nat.le_of_lt_succ paid))
    exact .starves top here fitsMove exceeded
  cases advances with
  | ends => exact absurd before (Nat.not_le_of_lt beyond)
  | dangles => exact absurd before (Nat.not_le_of_lt beyond)
  | overflows => exact absurd before (Nat.not_le_of_lt beyond)
  | starves top here => exact refused top here beyond
  | acts top here => exact refused top here beyond
  | goesOn top here => exact refused top here beyond

/-- A step of an unlimited execution that spends no more than the limit is made under the limit
too; one that spends more is refused under the limit. -/
theorem drive_limited (room : limit + 1 < otherCapacity) (unlimited : execution.gasLimit = none)
    (before : execution.gasUsed ≤ limit) :
    ((execution.drive otherCapacity program scope).2.gasUsed ≤ limit →
      (execution.limited limit).drive capacity program scope =
        ((execution.drive otherCapacity program scope).1,
          (execution.drive otherCapacity program scope).2.limited limit)) ∧
    (limit < (execution.drive otherCapacity program scope).2.gasUsed →
      ((execution.limited limit).drive capacity program scope).1 =
        .error (.gasExhausted limit)) := by
  fun_induction drive otherCapacity program scope execution with
  | case1 execution moved goesOn inductionHypothesis =>
      have advances := execution.advances otherCapacity program scope
      rw [goesOn] at advances
      rcases Nat.lt_or_ge limit moved.gasUsed with beyond | within
      · have stops := (advances.starved fits before beyond).advance_eq
        have spent := drive_gasUsed_le otherCapacity program scope moved
        refine ⟨fun fewer => absurd fewer (by omega), fun _ => ?_⟩
        rw [drive_of_stop stops]
      · have follows := (advances.limited fits room unlimited within).advance_eq
        rw [drive_of_next follows]
        exact inductionHypothesis (advances.gasLimit_eq.trans unlimited) within
  | case2 execution result stopped stops =>
      have advances := execution.advances otherCapacity program scope
      rw [stops] at advances
      refine ⟨fun within => ?_, fun beyond => ?_⟩
      · rw [drive_of_stop (advances.limited fits room unlimited within).advance_eq]
      · rw [drive_of_stop (advances.starved fits before beyond).advance_eq]

theorem stepWithin_limited (room : limit + 1 < otherCapacity)
    (unlimited : execution.gasLimit = none) (before : execution.gasUsed ≤ limit) :
    ((execution.stepWithin otherCapacity program scope).2.gasUsed ≤ limit →
      (execution.limited limit).stepWithin capacity program scope =
        ((execution.stepWithin otherCapacity program scope).1,
          (execution.stepWithin otherCapacity program scope).2.limited limit)) ∧
    (limit < (execution.stepWithin otherCapacity program scope).2.gasUsed →
      ((execution.limited limit).stepWithin capacity program scope).1 =
        .error (.gasExhausted limit)) := by
  cases finished : execution.finished with
  | true =>
      have sameFinished : (execution.limited limit).finished = true := finished
      simp only [stepWithin, finished, sameFinished, if_true]
      exact ⟨fun _ => trivial, fun beyond => absurd before (Nat.not_le_of_lt beyond)⟩
  | false =>
      have sameFinished : (execution.limited limit).finished = false := finished
      simp only [stepWithin, finished, sameFinished, Bool.false_eq_true, if_false]
      exact drive_limited fits room unlimited before

end Limited

/-! ### Steps that never return -/

/-- Without a limit a step ends for want of room only where the counter is full. -/
theorem stepWithin_overflow
    (overflows : (execution.stepWithin capacity program scope).1 = .error .counterOverflow) :
    capacity ≤ (execution.stepWithin capacity program scope).2.gasUsed + 1 := by
  simp only [stepWithin] at overflows ⊢
  split at overflows
  · cases overflows
  · rename_i running
    rw [if_neg running]
    refine drive_preserves (P := fun _ => True)
      (Q := fun result later => result = .error .counterOverflow → capacity ≤ later.gasUsed + 1)
      (fun _ _ _ _ => trivial) ?_ trivial overflows
    intro execution result after _ advances isOverflow
    subst isOverflow
    cases advances with
    | overflows _ _ full => exact full

/-- The step fills a counter of any capacity: it would go on for ever. -/
def NeverReturns (program : Program) (scope : Scope) (execution : Execution) : Prop :=
  ∀ capacity, execution.gasUsed < capacity →
    (execution.stepWithin capacity program scope).1 = .error .counterOverflow

/-! ### Why a limited execution stops -/

/-- Under a limit that the counter has room for, an error names the limit or a missing block. -/
def LimitedError (limit : Nat) (error : EvalError) : Prop :=
  error = .gasExhausted limit ∨ ∃ id, error = .danglingBlock id

section Limit

variable {limit : Nat} (fits : limit + 1 < capacity)

include fits

/-- A unit within the limit leaves room for the next one. -/
theorem room_of_within (hasLimit : execution.gasLimit = some limit)
    (within : execution.charged.exceededLimit? = none) :
    execution.charged.gasUsed + 1 < capacity := by
  rw [exceededLimit?_of_limit hasLimit] at within
  split at within
  · cases within
  · rename_i notBeyond
    exact Nat.lt_of_le_of_lt (Nat.succ_le_succ (Nat.not_lt.mp notBeyond)) fits

theorem stepWithin_of_limit (program : Program) (scope : Scope)
    (hasLimit : execution.gasLimit = some limit) (room : execution.gasUsed + 1 < capacity) :
    (∀ error, (execution.stepWithin capacity program scope).1 = .error error →
      LimitedError limit error) ∧
    (∀ letter, (execution.stepWithin capacity program scope).1 = .ok (some letter) →
      (execution.stepWithin capacity program scope).2.gasUsed + 1 < capacity) := by
  simp only [stepWithin]
  split
  · exact ⟨nofun, nofun⟩
  refine drive_preserves
    (P := fun execution => execution.gasLimit = some limit ∧ execution.gasUsed + 1 < capacity)
    (Q := fun result after => (∀ error, result = .error error → LimitedError limit error) ∧
      ∀ letter, result = .ok (some letter) → after.gasUsed + 1 < capacity) ?_ ?_ ⟨hasLimit, room⟩
  · rintro execution after ⟨hasLimit, _⟩ advances
    cases advances with
    | goesOn _ _ _ within => exact ⟨hasLimit, room_of_within fits hasLimit within⟩
  · rintro execution result after ⟨hasLimit, room⟩ advances
    cases advances with
    | ends => exact ⟨nofun, nofun⟩
    | dangles =>
        refine ⟨fun error failed => ?_, nofun⟩
        obtain rfl := Except.error.inj failed
        exact Or.inr ⟨_, rfl⟩
    | overflows _ _ full => exact absurd room (Nat.not_lt.mpr full)
    | starves _ _ _ exceeded =>
        refine ⟨fun error failed => ?_, nofun⟩
        obtain rfl := Except.error.inj failed
        rw [exceededLimit?_of_limit hasLimit] at exceeded
        split at exceeded
        · obtain rfl := Option.some.inj exceeded
          exact Or.inl rfl
        · cases exceeded
    | acts _ _ _ within => exact ⟨nofun, fun _ _ => room_of_within fits hasLimit within⟩

/-- A run under a limit gives its actions or fails for want of gas, unless a block is missing. -/
theorem runWithin_of_limit (program : Program) (scope : Scope)
    (hasLimit : execution.gasLimit = some limit) (room : execution.gasUsed + 1 < capacity)
    {error : EvalError} (failed : (execution.runWithin capacity program scope).1 = .error error) :
    LimitedError limit error := by
  refine runWithin_error
    (P := fun execution => execution.gasLimit = some limit ∧ execution.gasUsed + 1 < capacity)
    ?_ ?_ ⟨hasLimit, room⟩ failed
  · rintro execution letter after ⟨hasLimit, room⟩ acts
    have same := execution.stepWithin_gasLimit_eq capacity program scope
    have keeps := (stepWithin_of_limit fits program scope hasLimit room).2 letter
    rw [acts] at same keeps
    exact ⟨same.trans hasLimit, keeps rfl⟩
  · rintro execution error ⟨hasLimit, room⟩ fails
    exact (stepWithin_of_limit fits program scope hasLimit room).1 error fails

end Limit

/-! ### Calls -/

/-- The execution after a number of calls, each under a scope of its own. -/
def afterCalls (capacity : Nat) (program : Program) (scopes : Nat → Scope)
    (execution : Execution) : Nat → Execution
  | 0 => execution
  | calls + 1 =>
      ((afterCalls capacity program scopes execution calls).stepWithin capacity program
        (scopes calls)).2

theorem afterCalls_gasLimit_eq (capacity : Nat) (program : Program) (scopes : Nat → Scope)
    (execution : Execution) (calls : Nat) :
    (execution.afterCalls capacity program scopes calls).gasLimit = execution.gasLimit := by
  induction calls with
  | zero => rfl
  | succ calls inductionHypothesis =>
      exact (stepWithin_gasLimit_eq _ _ _ _).trans inductionHypothesis

theorem afterCalls_gasUsed_le (capacity : Nat) (program : Program) (scopes : Nat → Scope)
    (execution : Execution) (calls : Nat) :
    (execution.afterCalls capacity program scopes calls).gasUsed ≤
      (execution.afterCalls capacity program scopes (calls + 1)).gasUsed :=
  stepWithin_gasUsed_le _ _ _ _

/-- As long as the unlimited execution is within the limit, the limited one has come to the same
place. -/
theorem afterCalls_limited {limit otherCapacity : Nat} (fits : limit + 1 < capacity)
    (room : limit + 1 < otherCapacity) (unlimited : execution.gasLimit = none)
    (scopes : Nat → Scope) {calls : Nat}
    (within : (execution.afterCalls otherCapacity program scopes calls).gasUsed ≤ limit) :
    (execution.limited limit).afterCalls capacity program scopes calls =
      (execution.afterCalls otherCapacity program scopes calls).limited limit := by
  induction calls with
  | zero => rfl
  | succ calls inductionHypothesis =>
      have earlier := Nat.le_trans
        (execution.afterCalls_gasUsed_le otherCapacity program scopes calls) within
      have same := inductionHypothesis earlier
      have stillUnlimited :=
        (execution.afterCalls_gasLimit_eq otherCapacity program scopes calls).trans unlimited
      have agrees := (stepWithin_limited fits room stillUnlimited earlier).1 within
      rw [afterCalls, same, agrees]
      rfl

end Execution

/-- Calls under a limit and calls without one, side by side, each pair under a scope of its own. A
call that leaves the unlimited execution within the limit returns the same under the limit and
leaves the same execution behind; the first one that takes it beyond the limit, or would never
return, finds the gas exhausted. The unlimited execution may have a counter of any capacity with
room for the limit, that of `Execution.step` among them. -/
theorem limited_calls_agree (program : Program) (scopes : Nat → Scope) {limit capacity : Nat}
    (fits : limit + 1 < gasCapacity) (room : limit + 1 < capacity) :
    let free := (Execution.start program none).afterCalls capacity program scopes
    let metered := (Execution.start program (some limit)).afterCalls gasCapacity program scopes
    ∀ call,
      ((free (call + 1)).gasUsed ≤ limit →
        ((metered call).step program (scopes call)).1 =
            ((free call).stepWithin capacity program (scopes call)).1 ∧
          metered (call + 1) = { free (call + 1) with gasLimit := some limit }) ∧
      ((free call).gasUsed ≤ limit → limit < (free (call + 1)).gasUsed →
        ((metered call).step program (scopes call)).1 = .error (.gasExhausted limit)) ∧
      ((free call).gasUsed ≤ limit → (free call).NeverReturns program (scopes call) →
        ((metered call).step program (scopes call)).1 = .error (.gasExhausted limit)) := by
  intro free metered call
  have unlimited : (free call).gasLimit = none :=
    Execution.afterCalls_gasLimit_eq capacity program scopes _ call
  have agrees : (free call).gasUsed ≤ limit → metered call = (free call).limited limit :=
    fun within => Execution.afterCalls_limited fits room rfl scopes within
  have exhausted : (free call).gasUsed ≤ limit → limit < (free (call + 1)).gasUsed →
      ((metered call).step program (scopes call)).1 = .error (.gasExhausted limit) := by
    intro before beyond
    rw [agrees before]
    exact (Execution.stepWithin_limited fits room unlimited before).2 beyond
  refine ⟨fun within => ?_, exhausted, fun before endless => ?_⟩
  · have before : (free call).gasUsed ≤ limit :=
      Nat.le_trans (Execution.afterCalls_gasUsed_le capacity program scopes _ call) within
    refine ⟨?_, Execution.afterCalls_limited fits room rfl scopes within⟩
    rw [agrees before, Execution.step,
      (Execution.stepWithin_limited fits room unlimited before).1 within]
  · have fills := Execution.stepWithin_overflow (endless capacity (by omega))
    exact exhausted before (Nat.lt_of_succ_lt_succ (Nat.lt_of_lt_of_le room fills))

/-- A block that holds nothing but itself is entered again and again. -/
theorem limited_calls_stop_circle :
    let circle : Program := ⟨#[⟨#[.block ⟨0⟩], .origin⟩], ⟨0⟩⟩
    (Execution.start circle none).NeverReturns circle .empty ∧
      ((Execution.start circle (some 100)).step circle .empty).1 = .error (.gasExhausted 100) := by
  intro circle
  have endless : (Execution.start circle none).NeverReturns circle .empty := by
    intro capacity _
    refine Execution.drive_preserves
      (P := fun execution => execution.gasLimit = none ∧
        ∃ outer, execution.frames = Frame.enter ⟨0⟩ .block :: outer)
      (Q := fun result _ => result = .error .counterOverflow) ?_ ?_ ⟨rfl, [], rfl⟩
    · rintro execution after ⟨unlimited, outer, enters⟩ advances
      cases advances with
      | goesOn top here =>
          obtain ⟨rfl, rfl⟩ := List.cons.inj (enters.symm.trans top)
          obtain rfl := Option.some.inj here
          exact ⟨unlimited, _, rfl⟩
    · rintro execution result after ⟨unlimited, outer, enters⟩ advances
      cases advances with
      | ends empty => cases enters.symm.trans empty
      | dangles top missing =>
          obtain ⟨rfl, rfl⟩ := List.cons.inj (enters.symm.trans top)
          cases missing
      | overflows => rfl
      | starves _ _ _ exceeded =>
          cases (Execution.exceededLimit?_of_no_limit unlimited).symm.trans exceeded
      | acts top here _ _ action =>
          obtain ⟨rfl, rfl⟩ := List.cons.inj (enters.symm.trans top)
          obtain rfl := Option.some.inj here
          cases action
  refine ⟨endless, ?_⟩
  have fits : 100 + 1 < gasCapacity := by decide
  have calls := limited_calls_agree circle (fun _ => .empty) fits fits 0
  exact calls.2.2 (Nat.zero_le _) endless

/-- One action costs two units, and the second one pays for leaving the program: with just these
two the run ends well. -/
example :
    let once : Program := ⟨#[⟨#[.action 'A' .origin], .origin⟩], ⟨0⟩⟩
    let enough := (Execution.start once (some 2)).run once .empty
    let short := (Execution.start once (some 1)).run once .empty
    enough.1.toOption = some ['A'] ∧ enough.2 = ⟨[], true, 2, some 2⟩ ∧
      short.1.toOption = none := by
  decide +kernel

end RobotScript
