/-
Module: RobotScript.Proofs.Pausing
Purpose: A run can be interrupted after any action, stored, read back and continued in another
  session that has read the same text: the actions, the way it ends and the execution it ends with
  are those of the run without interruptions. An execution says all that is needed to go on, and
  whatever a run leads to can be stored, since no place and no counter outgrows 64 bits.
Main exports: Pause, Interpreter.follow, Interpreter.HasRead, Execution.Metered,
  Execution.run_of_action, Execution.run_of_end, pausing_is_invisible
-/
import RobotScript.Proofs.JsonRoundTrip
import RobotScript.Proofs.LifeCycle

namespace RobotScript

/-! ### Interrupted runs -/

/-- What a host can do while a run is interrupted. -/
inductive Pause where
  /-- Asks for one more action. -/
  | call
  /-- Stores the execution as JSON, reads it back and goes on with it in another session. -/
  | transfer (target : Interpreter)

namespace Interpreter

/-- An interrupted run: does one thing after the other and then runs to the end. It stops at the
first error. The result is that of the whole, with all actions on the way. There is none if no
execution is loaded that could be stored, or a stored one cannot be read. -/
def follow (interpreter : Interpreter) : List Pause → Option (RunResult × Interpreter)
  | [] => some interpreter.run
  | .call :: later =>
      match interpreter.nextAction with
      | (.ok (some letter), next) =>
          (next.follow later).map fun (result, last) => (result.map (letter :: ·), last)
      | (.ok none, next) => next.follow later
      | (.error error, next) => some (.error error, next)
  | .transfer target :: later => do
      let execution ← interpreter.execution?
      let stored ← decode (encode execution)
      match target.restore stored with
      | (.ok (), next) => next.follow later
      | (.error error, next) => return (.error error, next)

/-- The session has the program that it makes of this text, in whatever place. -/
def HasRead (text : String) (interpreter : Interpreter) : Prop :=
  ∃ program, interpreter.read text = .ok program ∧ interpreter.program? = some program

end Interpreter

/-- The name of a text matters for the report on it, not for its program. -/
theorem parse_ok_of_name {name otherName text : String} {program : Program}
    (accepted : parse ⟨name, text⟩ = .ok program) : parse ⟨otherName, text⟩ = .ok program :=
  parseTokens_eq_ok_iff.mpr (parseTokens_eq_ok_iff.mp accepted)

namespace Execution

variable {program : Program} {scope : Scope} {execution stopped : Execution}

/-! ### Runs from where a step has stopped -/

theorem run_eq (program : Program) (scope : Scope) (execution : Execution) :
    execution.run program scope =
      match execution.step program scope with
      | (.ok (some letter), stopped) =>
          ((stopped.run program scope).1.map (letter :: ·), (stopped.run program scope).2)
      | (.ok none, stopped) => (.ok [], stopped)
      | (.error error, stopped) => (.error error, stopped) :=
  execution.runWithin_eq gasCapacity program scope

theorem run_of_action {letter : Char}
    (acts : execution.step program scope = (.ok (some letter), stopped)) :
    execution.run program scope =
      ((stopped.run program scope).1.map (letter :: ·), (stopped.run program scope).2) := by
  rw [run_eq, acts]

theorem run_of_error {error : EvalError}
    (fails : execution.step program scope = (.error error, stopped)) :
    execution.run program scope = (.error error, stopped) := by
  rw [run_eq, fails]

/-- The step that finds no frames left marks the execution as finished. -/
theorem finished_of_end (ends : execution.step program scope = (.ok none, stopped)) :
    stopped.finished = true := by
  have finished : (execution.step program scope).2.finished = true :=
    stepWithin_finished_iff.mpr (congrArg Prod.fst ends)
  rwa [ends] at finished

/-- The end is announced again and again. -/
theorem run_of_end (ends : execution.step program scope = (.ok none, stopped)) :
    execution.run program scope = stopped.run program scope := by
  have again : stopped.step program scope = (.ok none, stopped) := by
    simp [step, stepWithin, finished_of_end ends]
  rw [run_eq, ends, run_eq, again]

/-! ### What a run leads to can be stored -/

/-- No frame has come further than the gas spent allows, and the counter is not full. -/
structure Metered (execution : Execution) : Prop where
  cursors : ∀ frame ∈ execution.frames, frame.cursor ≤ execution.gasUsed
  room : execution.gasUsed < gasCapacity

theorem metered_start (program : Program) (gasLimit : Option Nat) :
    (start program gasLimit).Metered := by
  constructor
  · intro frame member
    rw [List.mem_singleton.mp member]
    exact Nat.le_refl 0
  · exact Nat.two_pow_pos 64

/-- A move takes one frame one place further, or enters a block at its beginning. -/
theorem cursors_move {frame : Frame} {outer : List Frame} {gas : Nat}
    (cursors : ∀ running ∈ frame :: outer, running.cursor ≤ gas) (scope : Scope) (block : Block) :
    ∀ running ∈ (frame.move scope block).apply frame outer, running.cursor ≤ gas + 1 := by
  rw [List.forall_mem_cons] at cursors
  have below : ∀ running ∈ outer, running.cursor ≤ gas + 1 :=
    fun running member => Nat.le_succ_of_le (cursors.2 running member)
  have further : ∀ running ∈ { frame with cursor := frame.cursor + 1 } :: outer,
      running.cursor ≤ gas + 1 :=
    List.forall_mem_cons.mpr ⟨Nat.succ_le_succ cursors.1, below⟩
  rcases frame.apply_move_cases scope block outer with
    stepped | ⟨stmt, opened, -, -, fresh, entered⟩ | ⟨kind, -, again⟩ | left
  · rw [stepped]
    exact further
  · rw [entered]
    exact List.forall_mem_cons.mpr ⟨fresh ▸ Nat.zero_le _, further⟩
  · rw [again]
    exact List.forall_mem_cons.mpr ⟨Nat.zero_le _, below⟩
  · rw [left]
    exact below

theorem Metered.charged (metered : execution.Metered)
    (room : execution.gasUsed + 1 < gasCapacity) : execution.charged.Metered :=
  ⟨fun frame member => Nat.le_succ_of_le (metered.cursors frame member), room⟩

theorem Metered.step (metered : execution.Metered) (program : Program) (scope : Scope) :
    (execution.step program scope).2.Metered := by
  simp only [Execution.step, stepWithin]
  split
  · exact metered
  refine drive_preserves (P := Metered) (Q := fun _ after => after.Metered) ?_ ?_ metered
  · intro execution after metered advances
    cases advances with
    | goesOn top here room =>
        have cursors := metered.cursors
        rw [top] at cursors
        exact ⟨cursors_move cursors scope _, room⟩
  · intro execution result after metered advances
    cases advances with
    | ends => exact ⟨metered.cursors, metered.room⟩
    | dangles => exact metered
    | overflows => exact metered
    | starves _ _ room => exact metered.charged room
    | @acts frame outer block letter top here room _ action =>
        have cursors := metered.cursors
        rw [top] at cursors
        have moved := cursors_move cursors scope block
        rw [action] at moved
        exact ⟨moved, room⟩

/-- An execution that a session with the program takes up, and that can be stored. -/
structure Resumable (program : Program) (execution : Execution) : Prop where
  backed : execution.Backed program
  metered : execution.Metered
  limit : ∀ limit, execution.gasLimit = some limit → limit < UInt64.size

theorem Resumable.step (closed : program.Closed) (resumable : execution.Resumable program)
    (scope : Scope) : (execution.step program scope).2.Resumable program where
  backed := (resumable.backed.stepWithin closed gasCapacity scope).1
  metered := resumable.metered.step program scope
  limit := by
    rw [Execution.step, stepWithin_gasLimit_eq]
    exact resumable.limit

theorem Resumable.roundTrips (resumable : execution.Resumable program) :
    JsonForm.RoundTrips execution := by
  apply Storable.roundTrips
  constructor
  · intro frame member
    exact Nat.lt_of_le_of_lt (resumable.metered.cursors frame member) resumable.metered.room
  · exact resumable.metered.room
  · exact resumable.limit

end Execution

/-! ### Interrupted runs end as others do -/

namespace Interpreter

variable {program : Program} {scope : Scope}

theorem nextAction_of_loaded {interpreter : Interpreter} {execution : Execution}
    (loaded : interpreter.loaded? = some ⟨program, execution⟩)
    (sameScope : interpreter.scope = scope) :
    interpreter.nextAction = ((execution.step program scope).1,
      { interpreter with execution? := some (execution.step program scope).2 }) := by
  simp only [nextAction, loaded, sameScope]

theorem run_of_loaded {interpreter : Interpreter} {execution : Execution}
    (loaded : interpreter.loaded? = some ⟨program, execution⟩)
    (sameScope : interpreter.scope = scope) :
    interpreter.run = ((execution.run program scope).1,
      { interpreter with execution? := some (execution.run program scope).2 }) := by
  simp only [run, loaded, sameScope]

theorem restore_of_backed {interpreter : Interpreter} {stored : Execution}
    (present : interpreter.program? = some program) (backed : stored.Backed program) :
    interpreter.restore stored = (.ok (), { interpreter with execution? := some stored }) := by
  have noneDangles := danglingFrame?_eq_none_iff.mpr backed
  simp only [restore, present, noneDangles]

/-- The whole has the result of this run and ends with its execution. -/
def EndsLike (whole? : Option (RunResult × Interpreter)) (run : RunResult × Execution) : Prop :=
  ∃ last, whole? = some (run.1, last) ∧ last.execution? = some run.2

/-- A call is the first step of the run that is to come. -/
theorem endsLike_call {interpreter : Interpreter} {execution : Execution} {later : List Pause}
    (loaded : interpreter.loaded? = some ⟨program, execution⟩)
    (sameScope : interpreter.scope = scope)
    (rest : EndsLike (interpreter.nextAction.2.follow later)
      ((execution.step program scope).2.run program scope)) :
    EndsLike (interpreter.follow (.call :: later)) (execution.run program scope) := by
  have next := nextAction_of_loaded loaded sameScope
  cases steps : execution.step program scope with
  | mk result stopped =>
      rw [steps] at next rest
      rcases rest with ⟨last, follows, ends⟩
      rw [next] at follows
      match result with
      | .ok (some letter) =>
          refine ⟨last, ?_, ?_⟩
          · rw [follow, next, Execution.run_of_action steps]
            simp only [follows, Option.map_some]
          · rw [Execution.run_of_action steps]
            exact ends
      | .ok none =>
          refine ⟨last, ?_, ?_⟩
          · rw [follow, next, Execution.run_of_end steps]
            exact follows
          · rw [Execution.run_of_end steps]
            exact ends
      | .error error =>
          refine ⟨interpreter.nextAction.2, ?_, ?_⟩
          · rw [follow, next, Execution.run_of_error steps]
          · rw [next, Execution.run_of_error steps]

/-- A stored execution goes on in another session with the program as if nothing had happened. -/
theorem follow_transfer {interpreter target : Interpreter} {execution : Execution}
    (loaded : interpreter.loaded? = some ⟨program, execution⟩)
    (installed : target.program? = some program) (resumable : execution.Resumable program)
    (later : List Pause) :
    interpreter.follow (.transfer target :: later) =
      follow { target with execution? := some execution } later := by
  have stored := (loaded?_eq_some_iff.mp loaded).2
  have readBack : decode (encode execution) = some execution := resumable.roundTrips
  have restored := restore_of_backed installed resumable.backed
  rw [follow]
  simp only [stored, readBack, restored, Option.bind_eq_bind, Option.bind_some]

/-- However a run is interrupted, it ends like the run from the present place. -/
theorem endsLike_follow (closed : program.Closed) {schedule : List Pause}
    (targets : ∀ target, Pause.transfer target ∈ schedule →
      target.program? = some program ∧ target.scope = scope)
    {interpreter : Interpreter} {execution : Execution}
    (loaded : interpreter.loaded? = some ⟨program, execution⟩)
    (sameScope : interpreter.scope = scope) (resumable : execution.Resumable program) :
    EndsLike (interpreter.follow schedule) (execution.run program scope) := by
  induction schedule generalizing interpreter execution with
  | nil =>
      have runs := run_of_loaded loaded sameScope
      exact ⟨_, congrArg some runs, rfl⟩
  | cons pause later inductionHypothesis =>
      have laterTargets := fun target member => targets target (List.mem_cons_of_mem _ member)
      cases pause with
      | call =>
          have next := nextAction_of_loaded loaded sameScope
          apply endsLike_call loaded sameScope
          rw [next]
          have present := (loaded?_eq_some_iff.mp loaded).1
          exact inductionHypothesis laterTargets (loaded?_eq_some_iff.mpr ⟨present, rfl⟩) sameScope
            (resumable.step closed scope)
      | transfer target =>
          have installed := targets target List.mem_cons_self
          rw [follow_transfer loaded installed.1 resumable]
          exact inductionHypothesis laterTargets (loaded?_eq_some_iff.mpr ⟨installed.1, rfl⟩)
            installed.2 resumable

/-- A session has read a text if that was the last one and it was good, whatever else the session
has done. -/
theorem hasRead_performAll {sourceName text : String} {operations : List Operation}
    (last : lastText? operations = some text)
    (accepted : RobotScript.parse ⟨sourceName, text⟩ = .ok program) (gasLimit : Option Nat) :
    ((fresh gasLimit sourceName).performAll operations).HasRead text := by
  have settings := performAll_settings gasLimit sourceName operations
  refine ⟨program, ?_, ?_⟩
  · rw [read, settings.2, accepted]
  · rw [performAll_program?, last, Option.bind_some, accepted]
    rfl

end Interpreter

/-- Pausing is invisible. Take a text that is accepted, a scope, and a session with any limit of 64
bits that has just read the text. However its run is interrupted, stored and continued in sessions
that have read the same text and hold the same scope, it returns what a run without interruptions
returns and ends with the same execution, the gas spent included. -/
theorem pausing_is_invisible {text sourceName : String} {program : Program}
    (accepted : parse ⟨sourceName, text⟩ = .ok program) (gasLimit : Option UInt64) (scope : Scope)
    {schedule : List Pause}
    (targets : ∀ target, Pause.transfer target ∈ schedule →
      target.HasRead text ∧ target.scope = scope) :
    let session := Interpreter.newlyRead (gasLimit.map UInt64.toNat) sourceName scope text
    ∃ last, session.follow schedule = some (session.run.1, last) ∧
      last.execution? = session.run.2.execution? := by
  intro session
  rcases parse_closed accepted with ⟨closed, root⟩
  have samePrograms : ∀ target, Pause.transfer target ∈ schedule →
      target.program? = some program ∧ target.scope = scope := by
    intro target member
    rcases targets target member with ⟨⟨other, read, installed⟩, sameScope⟩
    rw [Interpreter.read, parse_ok_of_name accepted] at read
    exact ⟨Except.ok.inj read ▸ installed, sameScope⟩
  have loaded : session.loaded? =
      some ⟨program, .start program (gasLimit.map UInt64.toNat)⟩ := by
    rw [Interpreter.loaded?_eq_some_iff]
    simp only [session, Interpreter.newlyRead_of_accepted accepted, and_self]
  have sameScope : session.scope = scope := by
    simp only [session, Interpreter.newlyRead_of_accepted accepted]
  have resumable :
      (Execution.start program (gasLimit.map UInt64.toNat)).Resumable program := by
    refine ⟨Execution.backed_start root _, Execution.metered_start program _, ?_⟩
    intro limit isLimit
    rcases Option.map_eq_some_iff.mp isLimit with ⟨word, -, rfl⟩
    exact word.toNat_lt
  have ends := Interpreter.endsLike_follow closed samePrograms loaded sameScope resumable
  rw [Interpreter.run_of_loaded loaded sameScope]
  exact ends

/-- Two rounds of a loop, interrupted twice: after the first action the execution goes to a session
that has already run the text, and two actions later to one whose own limit would not do. -/
theorem pausing_is_invisible_mid_round :
    let text := "2 \x7b A se luz \x7b B \x7d \x7d"
    let scope := Scope.empty.set "luz" (.bool true)
    let ran := (Interpreter.fresh none "outra").performAll [.write scope, .parse text, .run]
    let poor := (Interpreter.fresh (some 1) "mais").performAll [.parse text, .write scope]
    let schedule := [Pause.call, .transfer ran, .call, .call, .transfer poor]
    let session := Interpreter.newlyRead (some 20) "aula" scope text
    session.run.1.toOption = some ['A', 'B', 'A', 'B'] ∧
      ∃ last, session.follow schedule = some (session.run.1, last) ∧
        last.execution? = session.run.2.execution? := by
  intro text scope ran poor schedule session
  have letters : session.run.1.toOption = some ['A', 'B', 'A', 'B'] := by decide +kernel
  have good : (parse ⟨"aula", text⟩).toOption.isSome = true := by decide +kernel
  rcases Option.isSome_iff_exists.mp good with ⟨program, found⟩
  have accepted := toOption_eq_some_iff.mp found
  have targets : ∀ target, Pause.transfer target ∈ schedule →
      target.HasRead text ∧ target.scope = scope := by
    intro target member
    have isOne : target = ran ∨ target = poor := by simpa [schedule] using member
    rcases isOne with rfl | rfl
    · exact ⟨Interpreter.hasRead_performAll rfl (parse_ok_of_name accepted) none,
        by decide +kernel⟩
    · exact ⟨Interpreter.hasRead_performAll rfl (parse_ok_of_name accepted) (some 1),
        by decide +kernel⟩
  exact ⟨letters, pausing_is_invisible accepted (some 20) scope targets⟩

end RobotScript
