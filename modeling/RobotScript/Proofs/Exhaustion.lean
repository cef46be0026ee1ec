/-
Module: RobotScript.Proofs.Exhaustion
Purpose: What is left of an execution that has run out of gas. A unit is counted before the move it
  pays for, and a unit that exceeds the limit stays counted; but the move is not made. So the
  frames are those of an execution without a limit that has spent just the limit, and only the
  counter is ahead, by one unit for every call that failed. Where the limit is lifted or raised,
  calls go on from there as if nothing had happened.
Main exports: Execution.overcharged, Execution.Advances.overcharged, Execution.SpentUp,
  Execution.stepWithin_metered, Execution.callsWithin, exhaustion_loses_nothing
-/
import Mathlib.Control.Monad.Basic
import RobotScript.Proofs.GasLimit

namespace RobotScript

/-- The same execution with more units counted, and under another limit or none. -/
def Execution.overcharged (units : Nat) (limit? : Option Nat) (execution : Execution) :
    Execution :=
  { execution with gasUsed := execution.gasUsed + units, gasLimit := limit? }

/-- The same move with more units counted, and under another limit or none. -/
def Transition.overcharged (units : Nat) (limit? : Option Nat) : Transition → Transition
  | .next execution => .next (execution.overcharged units limit?)
  | .stop result execution => .stop result (execution.overcharged units limit?)

namespace Execution

variable {capacity other units limit : Nat} {limit? : Option Nat} {program : Program}
  {scope : Scope} {execution : Execution}

/-! ### Counting more does not matter -/

theorem moved_overcharged (units : Nat) (limit? : Option Nat) (execution : Execution)
    (move : Move) (frame : Frame) (outer : List Frame) :
    (execution.overcharged units limit?).moved move frame outer =
      (execution.moved move frame outer).overcharged units limit? := by
  simp only [moved, charged, overcharged, Nat.add_right_comm]

theorem charged_overcharged_within (units : Nat) (limit? : Option Nat)
    (within : ∀ limit ∈ limit?, execution.charged.gasUsed + units ≤ limit) :
    (execution.overcharged units limit?).charged.exceededLimit? = none := by
  cases limit? with
  | none => exact exceededLimit?_of_no_limit rfl
  | some limit =>
      have enough : execution.gasUsed + 1 + units ≤ limit := within limit rfl
      apply (exceededLimit?_of_limit rfl).trans
      apply if_neg
      simp only [overcharged]
      omega

/-- A move without a limit is also made with more units counted, if the counter has as much more
room and the limit, where there is one, is not exceeded. -/
theorem Advances.overcharged {transition : Transition}
    (advances : Advances capacity program scope execution transition)
    (unlimited : execution.gasLimit = none) (units : Nat) (limit? : Option Nat)
    (within : ∀ limit ∈ limit?, transition.execution.gasUsed + units ≤ limit) :
    Advances (capacity + units) program scope (execution.overcharged units limit?)
      (transition.overcharged units limit?) := by
  have shifted {bound : Nat} (room : execution.gasUsed + 1 < bound) :
      (execution.overcharged units limit?).gasUsed + 1 < bound + units := by
    simp only [Execution.overcharged]
    omega
  cases advances with
  | ends empty => exact .ends empty
  | dangles top missing => exact .dangles top missing
  | overflows top here full =>
      refine .overflows top here ?_
      simp only [Execution.overcharged]
      omega
  | starves top here _ exceeded => cases (exceededLimit?_of_no_limit unlimited).symm.trans exceeded
  | acts top here room _ action =>
      have acts : Advances (capacity + units) program scope
          (execution.overcharged units limit?) _ :=
        .acts top here (shifted room) (charged_overcharged_within units limit? within) action
      rw [moved_overcharged] at acts
      exact acts
  | goesOn top here room _ noAction =>
      have goesOn : Advances (capacity + units) program scope
          (execution.overcharged units limit?) _ :=
        .goesOn top here (shifted room) (charged_overcharged_within units limit? within) noAction
      rw [moved_overcharged] at goesOn
      exact goesOn

theorem drive_overcharged (unlimited : execution.gasLimit = none) (units : Nat)
    (limit? : Option Nat) (within : ∀ limit ∈ limit?,
      (execution.drive capacity program scope).2.gasUsed + units ≤ limit) :
    (execution.overcharged units limit?).drive (capacity + units) program scope =
      ((execution.drive capacity program scope).1,
        (execution.drive capacity program scope).2.overcharged units limit?) := by
  fun_induction drive capacity program scope execution with
  | case1 execution after goesOn inductionHypothesis =>
      have advances := execution.advances capacity program scope
      rw [goesOn] at advances
      have later := drive_gasUsed_le capacity program scope after
      have follows := advances.overcharged unlimited units limit? fun limit isLimit =>
        Nat.le_trans (Nat.add_le_add_right later units) (within limit isLimit)
      rw [drive_of_next follows.advance_eq]
      exact inductionHypothesis (advances.gasLimit_eq.trans unlimited) within
  | case2 execution result after stops =>
      have advances := execution.advances capacity program scope
      rw [stops] at advances
      exact drive_of_stop (advances.overcharged unlimited units limit? within).advance_eq

theorem stepWithin_overcharged (unlimited : execution.gasLimit = none) (units : Nat)
    (limit? : Option Nat) (within : ∀ limit ∈ limit?,
      (execution.stepWithin capacity program scope).2.gasUsed + units ≤ limit) :
    (execution.overcharged units limit?).stepWithin (capacity + units) program scope =
      ((execution.stepWithin capacity program scope).1,
        (execution.stepWithin capacity program scope).2.overcharged units limit?) := by
  have sameFinished : (execution.overcharged units limit?).finished = execution.finished := rfl
  simp only [stepWithin, sameFinished] at within ⊢
  split
  · rfl
  · rename_i running
    simp only [running] at within
    exact drive_overcharged unlimited units limit? within

/-! ### A larger counter -/

/-- A move that the counter has room for is also made with a larger counter. -/
theorem Advances.larger {transition : Transition}
    (advances : Advances capacity program scope execution transition)
    (larger : capacity ≤ other)
    (fits : ∀ after, transition ≠ .stop (.error .counterOverflow) after) :
    Advances other program scope execution transition := by
  cases advances with
  | ends empty => exact .ends empty
  | dangles top missing => exact .dangles top missing
  | overflows => exact absurd rfl (fits _)
  | starves top here room exceeded =>
      exact .starves top here (Nat.lt_of_lt_of_le room larger) exceeded
  | acts top here room within action =>
      exact .acts top here (Nat.lt_of_lt_of_le room larger) within action
  | goesOn top here room within noAction =>
      exact .goesOn top here (Nat.lt_of_lt_of_le room larger) within noAction

theorem drive_larger (larger : capacity ≤ other)
    (fits : (execution.drive capacity program scope).1 ≠ .error .counterOverflow) :
    execution.drive other program scope = execution.drive capacity program scope := by
  fun_induction drive capacity program scope execution with
  | case1 execution after goesOn inductionHypothesis =>
      have advances := execution.advances capacity program scope
      rw [goesOn] at advances
      have follows : Advances other program scope execution (.next after) := by
        apply advances.larger larger
        rintro _ ⟨⟩
      rw [drive_of_next follows.advance_eq]
      exact inductionHypothesis fits
  | case2 execution result after stops =>
      have advances := execution.advances capacity program scope
      rw [stops] at advances
      apply drive_of_stop
      apply Advances.advance_eq
      apply advances.larger larger
      rintro _ ⟨⟩
      exact fits rfl

/-- A step that the counter has room for is also made with a larger counter. -/
theorem stepWithin_larger (larger : capacity ≤ other)
    (fits : (execution.stepWithin capacity program scope).1 ≠ .error .counterOverflow) :
    execution.stepWithin other program scope = execution.stepWithin capacity program scope := by
  simp only [stepWithin] at fits ⊢
  split
  · rfl
  · rename_i running
    simp only [running] at fits
    exact drive_larger larger fits

/-- To go on for ever it is enough to fill all large counters. -/
theorem neverReturns_of_large (capacity : Nat)
    (fills : ∀ other, capacity ≤ other →
      (execution.stepWithin other program scope).1 = .error .counterOverflow) :
    execution.NeverReturns program scope := by
  -- A step that fits into a small counter fits into a large one as well, and does not fill it.
  intro small _
  apply Classical.byContradiction
  intro fits
  have same := stepWithin_larger (Nat.le_max_right capacity small) fits
  have filled := fills (max capacity small) (Nat.le_max_left capacity small)
  rw [same] at filled
  exact fits filled

theorem neverReturns_congr {first second : Execution}
    (same : ∀ other, capacity ≤ other →
      first.stepWithin other program scope = second.stepWithin other program scope) :
    first.NeverReturns program scope ↔ second.NeverReturns program scope := by
  have forwards {one two : Execution}
      (same : ∀ other, capacity ≤ other →
        one.stepWithin other program scope = two.stepWithin other program scope)
      (endless : one.NeverReturns program scope) : two.NeverReturns program scope := by
    apply neverReturns_of_large (max capacity (one.gasUsed + 1))
    intro other large
    obtain ⟨large, room⟩ := Nat.max_le.mp large
    rw [← same other large]
    exact endless other room
  exact ⟨forwards same, forwards fun other large => (same other large).symm⟩

/-- It does not matter for going on for ever how much has been counted. -/
theorem neverReturns_overcharged_iff (unlimited : execution.gasLimit = none) (units : Nat) :
    (execution.overcharged units none).NeverReturns program scope ↔
      execution.NeverReturns program scope := by
  have same (capacity : Nat) :
      ((execution.overcharged units none).stepWithin (capacity + units) program scope).1 =
        (execution.stepWithin capacity program scope).1 := by
    rw [stepWithin_overcharged unlimited units none nofun]
  constructor
  · intro endless capacity room
    rw [← same]
    exact endless (capacity + units) (Nat.add_lt_add_right room units)
  · intro endless
    apply neverReturns_of_large (execution.gasUsed + 1 + units)
    intro other large
    obtain ⟨more, rfl⟩ := Nat.exists_eq_add_of_le large
    rw [Nat.add_right_comm, same]
    exact endless _ (by omega)

/-! ### At the limit -/

theorem stepWithin_of_running (running : execution.finished = false) :
    execution.stepWithin capacity program scope = execution.drive capacity program scope := by
  simp only [stepWithin, running, Bool.false_eq_true, if_false]

/-- An execution without a limit that has spent just so much and has another move to pay for. -/
structure SpentUp (program : Program) (limit : Nat) (execution : Execution) : Prop where
  unlimited : execution.gasLimit = none
  running : execution.finished = false
  spent : execution.gasUsed = limit
  due : ∃ frame outer block, execution.frames = frame :: outer ∧
    program.block? frame.block = some block

/-- Under the limit such an execution is refused its next move, as often as it is asked for it and
as long as the counter has room for the units that this takes. -/
theorem SpentUp.stepWithin_eq (spentUp : execution.SpentUp program limit) (capacity : Nat)
    (scope : Scope) (units : Nat) :
    (execution.overcharged units (some limit)).stepWithin capacity program scope =
      if limit + units + 1 < capacity then
        (.error (.gasExhausted limit), execution.overcharged (units + 1) (some limit))
      else (.error .counterOverflow, execution.overcharged units (some limit)) := by
  obtain ⟨frame, outer, block, top, here⟩ := spentUp.due
  have counted : (execution.overcharged units (some limit)).gasUsed = limit + units :=
    congrArg (· + units) spentUp.spent
  rw [stepWithin_of_running (by exact spentUp.running)]
  split
  · rename_i room
    have exceeded : (execution.overcharged units (some limit)).charged.exceededLimit? =
        some limit := by
      apply (exceededLimit?_of_limit rfl).trans
      apply if_pos
      omega
    have refused : Advances capacity program scope (execution.overcharged units (some limit)) _ :=
      .starves top here (by rwa [counted]) exceeded
    exact drive_of_stop refused.advance_eq
  · rename_i full
    have overflows : Advances capacity program scope
        (execution.overcharged units (some limit)) _ :=
      .overflows top here (by rw [counted]; exact Nat.le_of_not_lt full)
    exact drive_of_stop overflows.advance_eq

/-- The limit breaks a step off: the execution has come to where the limit is spent up, and a unit
more is counted. -/
def BrokenOff (capacity : Nat) (program : Program) (scope : Scope) (limit : Nat)
    (execution : Execution) : Prop :=
  ∃ middle, SpentUp program limit middle ∧ limit + 1 < capacity ∧
    (∀ other, limit < other →
      execution.stepWithin other program scope = middle.stepWithin other program scope) ∧
    (execution.limited limit).stepWithin capacity program scope =
      (.error (.gasExhausted limit), middle.overcharged 1 (some limit))

theorem BrokenOff.of_due (unlimited : execution.gasLimit = none)
    (running : execution.finished = false) {frame : Frame} {outer : List Frame} {block : Block}
    (top : execution.frames = frame :: outer) (here : program.block? frame.block = some block)
    (room : execution.gasUsed + 1 < capacity) :
    execution.BrokenOff capacity program scope execution.gasUsed := by
  have spentUp : SpentUp program execution.gasUsed execution :=
    ⟨unlimited, running, rfl, frame, outer, block, top, here⟩
  refine ⟨execution, spentUp, room, fun _ _ => rfl, ?_⟩
  exact (spentUp.stepWithin_eq capacity scope 0).trans (if_pos room)

theorem BrokenOff.head {after : Execution}
    (goesOn : Advances capacity program scope execution (.next after))
    (unlimited : execution.gasLimit = none) (running : execution.finished = false)
    (below : execution.gasUsed < limit) (broken : after.BrokenOff capacity program scope limit) :
    execution.BrokenOff capacity program scope limit := by
  obtain ⟨middle, spentUp, room, same, refused⟩ := broken
  refine ⟨middle, spentUp, room, fun other fits => ?_, ?_⟩
  -- The move is made with every counter that has room for the limit, and under the limit.
  · cases goesOn with
    | goesOn top here _ within noAction =>
        have follows : Advances other program scope execution _ :=
          .goesOn top here (Nat.lt_of_le_of_lt below fits) within noAction
        rw [← same other fits, stepWithin_of_running running,
          stepWithin_of_running (by exact running), drive_of_next follows.advance_eq]
  · have spent : after.gasUsed ≤ limit := (advance_next goesOn.advance_eq).1 ▸ below
    have follows := goesOn.overcharged unlimited 0 (some limit) (by
      rintro _ ⟨⟩
      exact spent)
    have stillRunning : after.finished = false := by
      cases goesOn with
      | goesOn => exact running
    rw [stepWithin_of_running (by exact stillRunning)] at refused
    rw [stepWithin_of_running (by exact running), ← refused]
    exact drive_of_next follows.advance_eq

theorem drive_brokenOff (unlimited : execution.gasLimit = none)
    (running : execution.finished = false) (before : execution.gasUsed ≤ limit)
    (beyond : limit < (execution.drive capacity program scope).2.gasUsed) :
    execution.BrokenOff capacity program scope limit := by
  -- Along the moves of the step without a limit: each is paid for by one unit, so there is one
  -- before which the limit is spent exactly.
  fun_induction drive capacity program scope execution with
  | case1 execution after goesOn inductionHypothesis =>
      have advances := execution.advances capacity program scope
      rw [goesOn] at advances
      rcases Nat.lt_or_eq_of_le before with below | rfl
      · apply BrokenOff.head advances unlimited running below
        have spent := (advance_next goesOn).1
        cases advances with
        | goesOn => exact inductionHypothesis unlimited running (spent ▸ below) beyond
      · cases advances with
        | goesOn top here room => exact .of_due unlimited running top here room
  | case2 execution result after stops =>
      have advances := execution.advances capacity program scope
      rw [stops] at advances
      cases advances with
      | ends => exact absurd before (Nat.not_le_of_lt beyond)
      | dangles => exact absurd before (Nat.not_le_of_lt beyond)
      | overflows => exact absurd before (Nat.not_le_of_lt beyond)
      | starves _ _ _ exceeded => cases (exceededLimit?_of_no_limit unlimited).symm.trans exceeded
      | acts top here room =>
          obtain rfl : execution.gasUsed = limit :=
            Nat.le_antisymm before (Nat.le_of_lt_succ beyond)
          exact .of_due unlimited running top here room

/-- A step under a limit is the step without one, if that stays within the limit. If not, it is
broken off. -/
theorem stepWithin_metered (capacity : Nat) (program : Program) (scope : Scope)
    (unlimited : execution.gasLimit = none) (before : execution.gasUsed ≤ limit) :
    ((execution.stepWithin capacity program scope).2.gasUsed ≤ limit ∧
      (execution.limited limit).stepWithin capacity program scope =
        ((execution.stepWithin capacity program scope).1,
          (execution.stepWithin capacity program scope).2.limited limit)) ∨
    (limit < (execution.stepWithin capacity program scope).2.gasUsed ∧
      execution.BrokenOff capacity program scope limit) := by
  rcases Nat.lt_or_ge limit (execution.stepWithin capacity program scope).2.gasUsed with
    beyond | within
  · refine Or.inr ⟨beyond, ?_⟩
    cases finished : execution.finished with
    | true =>
        simp only [stepWithin, finished, if_true] at beyond
        exact absurd before (Nat.not_le_of_lt beyond)
    | false =>
        rw [stepWithin_of_running finished] at beyond
        exact drive_brokenOff unlimited finished before beyond
  · refine Or.inl ⟨within, ?_⟩
    apply stepWithin_overcharged unlimited 0 (some limit)
    rintro _ ⟨⟩
    exact within

/-- Without a limit no gas can be wanting. -/
theorem stepWithin_ne_gasExhausted (unlimited : execution.gasLimit = none) :
    (execution.stepWithin capacity program scope).1 ≠ .error (.gasExhausted limit) := by
  simp only [stepWithin]
  split
  · rintro ⟨⟩
  · refine drive_preserves (P := fun later => later.gasLimit = none)
      (Q := fun result _ => result ≠ .error (.gasExhausted limit)) ?_ ?_ unlimited
    · intro later next unlimited advances
      exact advances.gasLimit_eq.trans unlimited
    · rintro later result next unlimited advances rfl
      cases advances with
      | starves _ _ _ exceeded => cases (exceededLimit?_of_no_limit unlimited).symm.trans exceeded

/-! ### Calls under one scope -/

/-- Makes so many calls under one scope: what they return, one after the other, and the execution
they leave behind. -/
def callsWithin (capacity : Nat) (program : Program) (scope : Scope) :
    Nat → Execution → List StepResult × Execution
  | 0, execution => ([], execution)
  | calls + 1, execution =>
      let call := execution.stepWithin capacity program scope
      let later := callsWithin capacity program scope calls call.2
      (call.1 :: later.1, later.2)

theorem callsWithin_length (capacity : Nat) (program : Program) (scope : Scope) (calls : Nat)
    (execution : Execution) :
    (execution.callsWithin capacity program scope calls).1.length = calls := by
  induction calls generalizing execution with
  | zero => rfl
  | succ calls inductionHypothesis => exact congrArg (· + 1) (inductionHypothesis _)

theorem callsWithin_add (capacity : Nat) (program : Program) (scope : Scope)
    (first second : Nat) (execution : Execution) :
    execution.callsWithin capacity program scope (first + second) =
      ((execution.callsWithin capacity program scope first).1 ++
          ((execution.callsWithin capacity program scope first).2.callsWithin capacity program
            scope second).1,
        ((execution.callsWithin capacity program scope first).2.callsWithin capacity program
          scope second).2) := by
  induction first generalizing execution with
  | zero => simp only [callsWithin, Nat.zero_add, List.nil_append]
  | succ first inductionHypothesis =>
      simp only [callsWithin, Nat.succ_add, inductionHypothesis, List.cons_append]

theorem callsWithin_gasUsed_le (capacity : Nat) (program : Program) (scope : Scope)
    (calls : Nat) (execution : Execution) :
    execution.gasUsed ≤ (execution.callsWithin capacity program scope calls).2.gasUsed := by
  induction calls generalizing execution with
  | zero => exact Nat.le_refl _
  | succ calls inductionHypothesis =>
      exact Nat.le_trans (stepWithin_gasUsed_le ..) (inductionHypothesis _)

theorem callsWithin_gasLimit_eq (capacity : Nat) (program : Program) (scope : Scope)
    (calls : Nat) (execution : Execution) :
    (execution.callsWithin capacity program scope calls).2.gasLimit = execution.gasLimit := by
  induction calls generalizing execution with
  | zero => rfl
  | succ calls inductionHypothesis =>
      exact (inductionHypothesis _).trans (stepWithin_gasLimit_eq ..)

theorem callsWithin_overcharged (execution : Execution) (unlimited : execution.gasLimit = none)
    (units : Nat) (limit? : Option Nat) {calls : Nat}
    (within : ∀ limit ∈ limit?,
      (execution.callsWithin capacity program scope calls).2.gasUsed + units ≤ limit) :
    (execution.overcharged units limit?).callsWithin (capacity + units) program scope calls =
      ((execution.callsWithin capacity program scope calls).1,
        (execution.callsWithin capacity program scope calls).2.overcharged units limit?) := by
  induction calls generalizing execution with
  | zero => rfl
  | succ calls inductionHypothesis =>
      have call := stepWithin_overcharged unlimited units limit? fun limit isLimit => Nat.le_trans
        (Nat.add_le_add_right (callsWithin_gasUsed_le capacity program scope calls _) units)
        (within limit isLimit)
      have later := inductionHypothesis _ ((stepWithin_gasLimit_eq ..).trans unlimited) within
      simp only [callsWithin, call, later]

theorem callsWithin_larger (larger : capacity ≤ other) {calls : Nat}
    (fits : .error .counterOverflow ∉ (execution.callsWithin capacity program scope calls).1) :
    execution.callsWithin other program scope calls =
      execution.callsWithin capacity program scope calls := by
  induction calls generalizing execution with
  | zero => rfl
  | succ calls inductionHypothesis =>
      simp only [callsWithin, List.mem_cons, not_or] at fits
      have call := stepWithin_larger larger (Ne.symm fits.1)
      simp only [callsWithin, call, inductionHypothesis fits.2]

/-- Where the next call is the same with all large counters, all calls are. -/
theorem callsWithin_congr {first second : Execution}
    (same : ∀ other, capacity ≤ other →
      first.stepWithin other program scope = second.stepWithin other program scope)
    (calls : Nat) :
    (first.callsWithin capacity program scope calls).1 =
        (second.callsWithin capacity program scope calls).1 ∧
      ∀ other, capacity ≤ other →
        (first.callsWithin capacity program scope calls).2.stepWithin other program scope =
          (second.callsWithin capacity program scope calls).2.stepWithin other program scope := by
  cases calls with
  | zero => exact ⟨rfl, same⟩
  | succ calls =>
      have call := same capacity (Nat.le_refl capacity)
      simp only [callsWithin, call]
      exact ⟨trivial, fun _ _ => trivial⟩

/-! ### Calls under a limit -/

/-- Calls that return actions under a limit return them without one too. -/
theorem callsWithin_metered (unlimited : execution.gasLimit = none)
    (before : execution.gasUsed ≤ limit) {letters : List Char}
    (acts : ((execution.limited limit).callsWithin capacity program scope letters.length).1 =
      letters.map fun letter => .ok (some letter)) :
    let free := execution.callsWithin capacity program scope letters.length
    free.1 = (letters.map fun letter => .ok (some letter)) ∧ free.2.gasUsed ≤ limit ∧
      ((execution.limited limit).callsWithin capacity program scope letters.length).2 =
        free.2.limited limit := by
  induction letters generalizing execution with
  | nil => exact ⟨rfl, before, rfl⟩
  | cons letter letters inductionHypothesis =>
      simp only [List.length_cons, List.map_cons, callsWithin, List.cons.injEq] at acts ⊢
      obtain ⟨now, later⟩ := acts
      rcases stepWithin_metered capacity program scope unlimited before with
        ⟨within, same⟩ | ⟨-, middle, -, -, -, refused⟩
      · rw [same] at now later ⊢
        have rest :=
          inductionHypothesis ((stepWithin_gasLimit_eq ..).trans unlimited) within later
        exact ⟨⟨now, rest.1⟩, rest.2⟩
      · rw [refused] at now
        cases now

theorem SpentUp.callsWithin_eq (spentUp : execution.SpentUp program limit) {failures : Nat}
    (starved : ((execution.overcharged units (some limit)).callsWithin capacity program scope
      failures).1 = List.replicate failures (.error (.gasExhausted limit))) :
    ((execution.overcharged units (some limit)).callsWithin capacity program scope failures).2 =
      execution.overcharged (units + failures) (some limit) := by
  induction failures generalizing units with
  | zero => rfl
  | succ failures inductionHypothesis =>
      simp only [callsWithin, List.replicate_succ, List.cons.injEq,
        spentUp.stepWithin_eq capacity scope units] at starved ⊢
      split at starved
      · rename_i room
        rw [if_pos room, inductionHypothesis starved.2, Nat.add_right_comm, Nat.add_assoc]
      · cases starved.1

/-- Calls that fail for want of gas leave an execution behind from which the calls that they were
to make can still be made. -/
theorem callsWithin_starved (unlimited : execution.gasLimit = none)
    (before : execution.gasUsed ≤ limit) {failures : Nat}
    (starved : ((execution.limited limit).callsWithin capacity program scope failures).1 =
      List.replicate failures (.error (.gasExhausted limit))) :
    ∃ middle : Execution, middle.gasLimit = none ∧
      (∀ other, capacity ≤ other →
        execution.stepWithin other program scope = middle.stepWithin other program scope) ∧
      ((execution.limited limit).callsWithin capacity program scope failures).2 =
        middle.overcharged failures (some limit) := by
  cases failures with
  | zero => exact ⟨execution, unlimited, fun _ _ => rfl, rfl⟩
  | succ failures =>
      simp only [callsWithin, List.replicate_succ, List.cons.injEq] at starved ⊢
      rcases stepWithin_metered capacity program scope unlimited before with
        ⟨-, same⟩ | ⟨-, middle, spentUp, room, sameStep, refused⟩
      · rw [same] at starved
        exact absurd starved.1 (stepWithin_ne_gasExhausted unlimited)
      · rw [refused] at starved ⊢
        refine ⟨middle, spentUp.unlimited, fun other larger => ?_, ?_⟩
        · exact sameStep other (by omega)
        · rw [spentUp.callsWithin_eq starved.2, Nat.add_comm]

/-- Calls that return letters and then fail for want of gas stop short of a call that an execution
without a limit can make after the same letters. -/
theorem callsWithin_exhausted (unlimited : execution.gasLimit = none)
    (before : execution.gasUsed ≤ limit) {letters : List Char} {failures : Nat}
    {stopped : Execution}
    (metered : (execution.limited limit).callsWithin capacity program scope
        (letters.length + failures) =
      ((letters.map fun letter => .ok (some letter)) ++
        List.replicate failures (.error (.gasExhausted limit)), stopped)) :
    let free := execution.callsWithin capacity program scope letters.length
    free.1 = (letters.map fun letter => .ok (some letter)) ∧
      ∃ middle : Execution, middle.gasLimit = none ∧
        stopped = middle.overcharged failures (some limit) ∧
        ∀ other, capacity ≤ other →
          free.2.stepWithin other program scope = middle.stepWithin other program scope := by
  rw [callsWithin_add] at metered
  obtain ⟨results, left⟩ := Prod.mk.inj metered
  have sameLength : ((execution.limited limit).callsWithin capacity program scope
      letters.length).1.length =
        (letters.map fun letter => (.ok (some letter) : StepResult)).length := by
    rw [callsWithin_length, List.length_map]
  obtain ⟨acts, starved⟩ := List.append_inj results sameLength
  obtain ⟨freeActs, within, same⟩ := callsWithin_metered unlimited before acts
  rw [same] at starved left
  have stillUnlimited := (callsWithin_gasLimit_eq capacity program scope letters.length
    execution).trans unlimited
  obtain ⟨middle, middleUnlimited, sameStep, reached⟩ :=
    callsWithin_starved stillUnlimited within starved
  exact ⟨freeActs, middle, middleUnlimited, left.symm.trans reached, sameStep⟩

end Execution

/-- Running out of gas loses nothing and does nothing twice. Calls under a limit have returned
letters and then failed for want of gas any number of times. If the limit is lifted, the calls that
follow return what the calls of an execution without a limit return after those letters, be it
letters, the end or a missing block, as long as the counter does not overflow; and where the one
would go on for ever, so would the other. A limit that is raised to what these calls take does as
well as none. The counters may have any capacity, that of `Execution.step` among them. -/
theorem exhaustion_loses_nothing (program : Program) (scope : Scope) (letters : List Char)
    (failures : Nat) {capacity limit : Nat} {stopped : Execution}
    (metered : (Execution.start program (some limit)).callsWithin capacity program scope
        (letters.length + failures) =
      ((letters.map fun letter => .ok (some letter)) ++
        List.replicate failures (.error (.gasExhausted limit)), stopped)) (calls : Nat) :
    let lifted := { stopped with gasLimit := none }.callsWithin capacity program scope calls
    let free := (Execution.start program none).callsWithin capacity program scope
      (letters.length + calls)
    .error .counterOverflow ∉ lifted.1 →
      free.1 = (letters.map fun letter => .ok (some letter)) ++ lifted.1 ∧
      (lifted.2.NeverReturns program scope ↔ free.2.NeverReturns program scope) ∧
      ∀ raised, lifted.2.gasUsed ≤ raised →
        ({ stopped with gasLimit := some raised }.callsWithin capacity program scope calls).1 =
          lifted.1 := by
  intro lifted free fits
  have limited : ((Execution.start program none).limited limit).callsWithin capacity program scope
      (letters.length + failures) = _ := metered
  obtain ⟨acts, middle, unlimited, rfl, sameStep⟩ :=
    Execution.callsWithin_exhausted rfl (Nat.zero_le _) limited
  -- Every failed call left a unit on the counter, so the calls from `middle` are those after
  -- lifting the limit with a counter that has as many units less room.
  have resumes : lifted = ((middle.callsWithin capacity program scope calls).1,
      (middle.callsWithin capacity program scope calls).2.overcharged failures none) := by
    have larger := Execution.callsWithin_larger (Nat.le_add_right capacity failures) fits
    exact larger.symm.trans (middle.callsWithin_overcharged unlimited failures none nofun)
  have frees : free = _ := Execution.callsWithin_add capacity program scope letters.length calls
    (.start program none)
  obtain ⟨sameResults, sameNext⟩ := Execution.callsWithin_congr sameStep calls
  refine ⟨?_, ?_, ?_⟩
  · rw [frees, resumes, acts, sameResults]
  · have stillUnlimited := (Execution.callsWithin_gasLimit_eq capacity program scope calls
      middle).trans unlimited
    rw [frees, resumes, Execution.neverReturns_overcharged_iff stillUnlimited]
    exact Execution.neverReturns_congr fun other large => (sameNext other large).symm
  · intro raised enough
    have within : ∀ limit ∈ some raised, lifted.2.gasUsed + 0 ≤ limit := by
      rintro _ ⟨⟩
      exact enough
    have raises := (middle.overcharged failures none).callsWithin_overcharged rfl 0 (some raised)
      within
    have sameReturns := congrArg Prod.fst raises
    exact sameReturns

/-- The gas runs out between two rounds of a repeat, and three calls fail there: the second round is
still made, and made once. -/
theorem exhaustion_loses_nothing_between_rounds :
    let program : Program :=
      ⟨#[⟨#[.action 'B' .origin], .origin⟩,
        ⟨#[.action 'A' .origin, .repeated 2 ⟨0⟩ .origin], .origin⟩], ⟨1⟩⟩
    let stopped : Execution :=
      ⟨[⟨⟨0⟩, 0, .repeated 0⟩, ⟨⟨1⟩, 2, .block⟩], false, 7, some 4⟩
    let lifted := { stopped with gasLimit := none }.callsWithin gasCapacity program .empty 2
    let raised := { stopped with gasLimit := some 10 }.callsWithin gasCapacity program .empty 2
    (Execution.start program (some 4)).callsWithin gasCapacity program .empty 5 =
        ([.ok (some 'A'), .ok (some 'B'), .error (.gasExhausted 4), .error (.gasExhausted 4),
          .error (.gasExhausted 4)], stopped) ∧
      lifted = ([.ok (some 'B'), .ok none], ⟨[], true, 10, none⟩) ∧
      ((Execution.start program none).callsWithin gasCapacity program .empty 4).1 =
        [.ok (some 'A'), .ok (some 'B')] ++ lifted.1 ∧
      raised.1 = lifted.1 := by
  intro program stopped lifted raised
  have metered : (Execution.start program (some 4)).callsWithin gasCapacity program .empty 5 =
      ([.ok (some 'A'), .ok (some 'B'), .error (.gasExhausted 4), .error (.gasExhausted 4),
        .error (.gasExhausted 4)], stopped) := by
    decide +kernel
  have resumed : lifted = ([.ok (some 'B'), .ok none], ⟨[], true, 10, none⟩) := by
    decide +kernel
  have fits : .error .counterOverflow ∉ lifted.1 := by
    rw [resumed]
    decide
  have goesOn := exhaustion_loses_nothing program .empty ['A', 'B'] 3 metered 2 fits
  refine ⟨metered, resumed, goesOn.1, goesOn.2.2 10 ?_⟩
  exact Nat.le_of_eq (congrArg (fun calls => calls.2.gasUsed) resumed)

end RobotScript
