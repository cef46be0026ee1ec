/-
Module: RobotScript.Proofs.FinalOutcomes
Purpose: The end of a program, a missing block and the want of gas are final. A step may fail after
  many moves, but it fails before the move that it cannot make and leaves the frames as that move
  would find them: the next step comes to the same verdict at once, whatever its scope. Only the
  counter goes on, by one unit for every call that the limit refuses.
Main exports: Execution.RestsIn, Execution.stepWithin_restsIn, Execution.RestsIn.stepWithin_eq,
  Execution.RestsIn.nextCall_eq, Execution.RestsIn.nextCall_of_free, final_outcomes_are_absorbing
-/
import RobotScript.Proofs.Exhaustion

namespace RobotScript

namespace Execution

variable {capacity : Nat} {program : Program} {scope : Scope} {execution : Execution}
  {result : StepResult}

/-! ### Executions at rest -/

/-- The next step makes no move and gives this result: the end has been announced, the block to go on
in is missing, or the limit is exceeded already. -/
inductive RestsIn (program : Program) (execution : Execution) : StepResult → Prop where
  | ended (announced : execution.finished = true) : RestsIn program execution (.ok none)
  | dangling {frame : Frame} {outer : List Frame} (running : execution.finished = false)
      (top : execution.frames = frame :: outer) (missing : program.block? frame.block = none) :
      RestsIn program execution (.error (.danglingBlock frame.block))
  | starved {frame : Frame} {outer : List Frame} {block : Block} {limit : Nat}
      (running : execution.finished = false) (top : execution.frames = frame :: outer)
      (here : program.block? frame.block = some block)
      (limited : execution.gasLimit = some limit) (exceeded : limit < execution.gasUsed) :
      RestsIn program execution (.error (.gasExhausted limit))

/-- The units that are counted each time a step gives this result at rest. -/
def feeAtRest : StepResult → Nat
  | .error (.gasExhausted _) => 1
  | _ => 0

theorem feeAtRest_le_one (result : StepResult) : feeAtRest result ≤ 1 := by
  unfold feeAtRest
  split
  · exact Nat.le_refl 1
  · exact Nat.zero_le 1

theorem exceededLimit?_eq_some_iff {limit : Nat} :
    execution.exceededLimit? = some limit ↔
      execution.gasLimit = some limit ∧ limit < execution.gasUsed := by
  simp only [exceededLimit?, Option.filter_eq_some_iff, decide_eq_true_eq]

/-- A step that gives neither an action nor up on the counter leaves an execution at rest in what it
gave. -/
theorem stepWithin_restsIn (noAction : ∀ letter,
      (execution.stepWithin capacity program scope).1 ≠ .ok (some letter))
    (fits : (execution.stepWithin capacity program scope).1 ≠ .error .counterOverflow) :
    (execution.stepWithin capacity program scope).2.RestsIn program
      (execution.stepWithin capacity program scope).1 := by
  cases running : execution.finished with
  | true =>
      simp only [stepWithin, running, if_true]
      exact .ended running
  | false =>
      rw [stepWithin_of_running running] at noAction fits ⊢
      revert noAction fits
      apply drive_preserves (P := fun later => later.finished = false)
        (Q := fun result after => (∀ letter, result ≠ .ok (some letter)) →
          result ≠ .error .counterOverflow → after.RestsIn program result)
      · intro later after stillRunning advances
        cases advances with
        | goesOn => exact stillRunning
      · intro later result after stillRunning advances noAction fits
        cases advances with
        | ends => exact .ended rfl
        | dangles top missing => exact .dangling stillRunning top missing
        | overflows => exact absurd rfl fits
        | starves top here room exceeded =>
            have beyond := exceededLimit?_eq_some_iff.mp exceeded
            exact .starved stillRunning top here beyond.1 beyond.2
        | acts => exact absurd rfl (noAction _)
      · exact running

namespace RestsIn

/-- Counting more units does not disturb an execution at rest. -/
theorem counting (rests : execution.RestsIn program result) (units : Nat) :
    { execution with gasUsed := execution.gasUsed + units }.RestsIn program result := by
  cases rests with
  | ended announced => exact .ended announced
  | dangling running top missing => exact .dangling running top missing
  | starved running top here limited exceeded =>
      exact .starved running top here limited (Nat.lt_add_right units exceeded)

/-- At rest, a step gives the same result again and changes nothing but the counter. -/
theorem stepWithin_eq (rests : execution.RestsIn program result) (scope : Scope)
    (room : feeAtRest result = 0 ∨ execution.gasUsed + 1 < capacity) :
    execution.stepWithin capacity program scope =
      (result, { execution with gasUsed := execution.gasUsed + feeAtRest result }) := by
  cases rests with
  | ended announced => exact if_pos announced
  | dangling running top missing =>
      have dangles : Advances capacity program scope execution _ := .dangles top missing
      rw [stepWithin_of_running running, drive_of_stop dangles.advance_eq]
      rfl
  | starved running top here limited exceeded =>
      have beyond : execution.charged.exceededLimit? = some _ :=
        exceededLimit?_eq_some_iff.mpr ⟨limited, Nat.lt_succ_of_lt exceeded⟩
      have starves : Advances capacity program scope execution _ :=
        .starves top here (room.resolve_left Nat.one_ne_zero) beyond
      rw [stepWithin_of_running running, drive_of_stop starves.advance_eq]
      rfl

/-- So does the call that follows any number of others. -/
theorem nextCall_eq (rests : execution.RestsIn program result) (scopes : Nat → Scope)
    (scope : Scope) {calls : Nat}
    (room : feeAtRest result = 0 ∨ execution.gasUsed + (calls + 1) < capacity) :
    (execution.afterCalls capacity program scopes calls).stepWithin capacity program scope =
      (result,
        { execution with gasUsed := execution.gasUsed + (calls + 1) * feeAtRest result }) := by
  induction calls generalizing scope with
  | zero =>
      have once := rests.stepWithin_eq scope room
      rw [Nat.zero_add, Nat.one_mul]
      exact once
  | succ calls inductionHypothesis =>
      have before := inductionHypothesis (scopes calls) (room.imp_right (Nat.lt_of_succ_lt ·))
      have counted : (calls + 1) * feeAtRest result ≤ (calls + 1) * 1 :=
        Nat.mul_le_mul_left (calls + 1) (feeAtRest_le_one result)
      have roomHere : feeAtRest result = 0 ∨
          execution.gasUsed + (calls + 1) * feeAtRest result + 1 < capacity :=
        room.imp_right fun fits => by omega
      have once := (rests.counting ((calls + 1) * feeAtRest result)).stepWithin_eq scope roomHere
      rw [afterCalls, before, once, Nat.succ_mul (calls + 1), Nat.add_assoc]

/-- Where nothing is charged, nothing changes at all. -/
theorem nextCall_of_free (rests : execution.RestsIn program result)
    (free : feeAtRest result = 0) (capacity : Nat) (scopes : Nat → Scope) (scope : Scope)
    (calls : Nat) :
    (execution.afterCalls capacity program scopes calls).stepWithin capacity program scope =
      (result, execution) := by
  rw [rests.nextCall_eq scopes scope (Or.inl free), free, Nat.mul_zero]
  rfl

end RestsIn

end Execution

/-- Whatever the program and the execution, once a step has announced the end, has found a block
missing or has run out of gas, every later one does the same, under any scopes, and leaves the
execution as it is; only a step that the limit refuses counts a unit, as long as the counter has room
for it. -/
theorem final_outcomes_are_absorbing (program : Program) (execution : Execution) (scope : Scope)
    (scopes : Nat → Scope) :
    let first := execution.step program scope
    let later := first.2.afterCalls gasCapacity program scopes
    ∀ call,
      (first.1 = .ok none → (later call).step program (scopes call) = first) ∧
      (∀ id, first.1 = .error (.danglingBlock id) →
        (later call).step program (scopes call) = first) ∧
      (∀ limit, first.1 = .error (.gasExhausted limit) →
        first.2.gasUsed + (call + 1) < gasCapacity →
        (later call).step program (scopes call) =
          (.error (.gasExhausted limit),
            { first.2 with gasUsed := first.2.gasUsed + (call + 1) })) := by
  intro first later call
  have rests : (∀ letter, first.1 ≠ .ok (some letter)) → first.1 ≠ .error .counterOverflow →
      first.2.RestsIn program first.1 := Execution.stepWithin_restsIn
  refine ⟨?_, ?_, ?_⟩
  · intro ended
    rw [ended] at rests
    have again := (rests nofun nofun).nextCall_of_free rfl gasCapacity scopes (scopes call) call
    exact again.trans (Prod.ext ended.symm rfl)
  · intro id dangling
    rw [dangling] at rests
    have again := (rests nofun nofun).nextCall_of_free rfl gasCapacity scopes (scopes call) call
    exact again.trans (Prod.ext dangling.symm rfl)
  · intro limit starved room
    rw [starved] at rests
    have again := (rests nofun nofun).nextCall_eq scopes (scopes call) (Or.inr room)
    rw [Execution.feeAtRest, Nat.mul_one] at again
    exact again

/-- The statement behind an action names a block that is not there. Without a limit it is started,
and the block is missed from then on; with a limit of one unit it is never started. -/
theorem final_outcomes_absorb_missing_block :
    let program : Program := ⟨#[⟨#[.action 'A' .origin, .block ⟨7⟩], .origin⟩], ⟨0⟩⟩
    let scopes : Nat → Scope := fun call => Scope.empty.set "luz" (.int (Int64.ofNat call))
    let behind : Execution := ⟨[⟨⟨0⟩, 1, .block⟩], false, 1, none⟩
    let dangling := behind.step program .empty
    let starved := (behind.limited 1).step program .empty
    dangling = (.error (.danglingBlock ⟨7⟩),
      ⟨[⟨⟨7⟩, 0, .block⟩, ⟨⟨0⟩, 2, .block⟩], false, 2, none⟩) ∧
    (dangling.2.afterCalls gasCapacity program scopes 3).step program (scopes 3) = dangling ∧
    starved = (.error (.gasExhausted 1), ⟨[⟨⟨0⟩, 1, .block⟩], false, 2, some 1⟩) ∧
    (starved.2.afterCalls gasCapacity program scopes 3).step program (scopes 3) =
      (.error (.gasExhausted 1), ⟨[⟨⟨0⟩, 1, .block⟩], false, 6, some 1⟩) := by
  intro program scopes behind dangling starved
  have dangles : dangling = (.error (.danglingBlock ⟨7⟩),
      ⟨[⟨⟨7⟩, 0, .block⟩, ⟨⟨0⟩, 2, .block⟩], false, 2, none⟩) := by
    decide +kernel
  have starves : starved =
      (.error (.gasExhausted 1), ⟨[⟨⟨0⟩, 1, .block⟩], false, 2, some 1⟩) := by
    decide +kernel
  have room : starved.2.gasUsed + (3 + 1) < gasCapacity := by
    rw [starves]
    decide
  have missing := final_outcomes_are_absorbing program behind .empty scopes 3
  have spent := final_outcomes_are_absorbing program (behind.limited 1) .empty scopes 3
  refine ⟨dangles, missing.2.1 ⟨7⟩ (congrArg Prod.fst dangles), starves, ?_⟩
  exact (spent.2.2 1 (congrArg Prod.fst starves) room).trans (by decide +kernel)

end RobotScript
