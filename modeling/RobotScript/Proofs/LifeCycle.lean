/-
Module: RobotScript.Proofs.LifeCycle
Purpose: The life of a session under any sequence of operations. Which program there is depends only
  on the last text that was read, and there is an execution exactly with a program; operations that
  need them say so exactly if they are missing; a session that has just read a text, or started
  over, cannot be told from a new one that has read the same text.
Main exports: Reply, Interpreter.reply, Interpreter.replies, lastText?,
  Interpreter.performAll_program?, Interpreter.BehavesLike, sessions_live_by_last_text
-/
import Mathlib.Data.List.Induction
import RobotScript.Proofs.Session

namespace RobotScript

/-! ### Replies -/

/-- What the host gets back from an operation. -/
inductive Reply where
  | parsed (result : Except Report Unit)
  | stepped (result : StepResult)
  | ran (result : RunResult)
  /-- Of `reset` and `restore`, which set the execution or fail. -/
  | replaced (result : Except EvalError Unit)
  | written

/-- The text that was read last. -/
def lastText? (operations : List Operation) : Option String :=
  (operations.filterMap Operation.text?).getLast?

namespace Interpreter

/-- The reply to an operation. -/
def reply (interpreter : Interpreter) : Operation → Reply
  | .parse text => .parsed (interpreter.parse text).1
  | .nextAction => .stepped interpreter.nextAction.1
  | .run => .ran interpreter.run.1
  | .reset => .replaced interpreter.reset.1
  | .write _ => .written
  | .restore execution => .replaced (interpreter.restore execution).1

/-- The replies to a number of operations, each made on the session that the one before left. -/
def replies (interpreter : Interpreter) : List Operation → List Reply
  | [] => []
  | operation :: later =>
      interpreter.reply operation :: (interpreter.perform operation).replies later

/-- The two sessions give the same replies to all operations to come and end up the same. -/
def BehavesLike (interpreter other : Interpreter) : Prop :=
  ∀ later, interpreter.replies later = other.replies later ∧
    interpreter.performAll later = other.performAll later

/-- A new session with a scope of its own that has read a text. -/
def newlyRead (gasLimit : Option Nat) (sourceName : String) (scope : Scope) (text : String) :
    Interpreter :=
  (parse { fresh gasLimit sourceName with scope := scope } text).2

/-! ### What operations keep -/

theorem performAll_append (interpreter : Interpreter) (operations : List Operation)
    (operation : Operation) :
    interpreter.performAll (operations ++ [operation]) =
      (interpreter.performAll operations).perform operation :=
  List.foldl_append

theorem perform_sourceName (interpreter : Interpreter) (operation : Operation) :
    (interpreter.perform operation).sourceName = interpreter.sourceName := by
  rw [perform_eq]

/-- The limit and the name of a session are those it began with. -/
theorem performAll_settings (gasLimit : Option Nat) (sourceName : String)
    (operations : List Operation) :
    ((fresh gasLimit sourceName).performAll operations).gasLimit = gasLimit ∧
      ((fresh gasLimit sourceName).performAll operations).sourceName = sourceName := by
  refine performAll_preserves
    (P := fun interpreter => interpreter.gasLimit = gasLimit ∧
      interpreter.sourceName = sourceName) ?_ ⟨rfl, rfl⟩
  intro operation _ interpreter settings
  constructor
  · exact (interpreter.perform_gasLimit operation).trans settings.1
  · exact (interpreter.perform_sourceName operation).trans settings.2

/-- Reading a text decides which program there is; nothing else does. -/
theorem Leaves.program?_eq {interpreter : Interpreter} {operation : Operation}
    {program? : Option Program} {execution? : Option Execution}
    (leaves : interpreter.Leaves operation program? execution?) :
    program? =
      match operation.text? with
      | some text => (RobotScript.parse ⟨interpreter.sourceName, text⟩).toOption
      | none => interpreter.program? := by
  cases leaves with
  | parsed accepted =>
      rw [read] at accepted
      simp only [Operation.text?, accepted]
      rfl
  | refused refused =>
      rw [read] at refused
      simp only [Operation.text?, refused]
      rfl
  | stepped loaded => exact (loaded?_eq_some_iff.mp loaded).1.symm
  | ran loaded => exact (loaded?_eq_some_iff.mp loaded).1.symm
  | restarted present => exact present.symm
  | restored present => exact present.symm
  | unchanged readsNothing => rw [readsNothing]

end Interpreter

theorem lastText?_append (operations : List Operation) (operation : Operation) :
    lastText? (operations ++ [operation]) = operation.text?.or (lastText? operations) := by
  rw [lastText?, List.filterMap_append]
  cases read : operation.text? with
  | none => simp [read, lastText?]
  | some text => simp [read]

/-- The program of a session is what the parser makes of the text that was read last. -/
theorem Interpreter.performAll_program? (gasLimit : Option Nat) (sourceName : String)
    (operations : List Operation) :
    ((fresh gasLimit sourceName).performAll operations).program? =
      (lastText? operations).bind fun text => (RobotScript.parse ⟨sourceName, text⟩).toOption := by
  induction operations using List.reverseRecOn with
  | nil => rfl
  | append_singleton operations operation inductionHypothesis =>
      have settings := performAll_settings gasLimit sourceName operations
      have leaves := perform_leaves ((fresh gasLimit sourceName).performAll operations) operation
      rw [performAll_append, leaves.program?_eq, settings.2, lastText?_append]
      cases operation.text? with
      | some text => rfl
      | none => exact inductionHypothesis

/-! ### Operations that need a program -/

theorem Execution.stepWithin_ne_noProgram (capacity : Nat) (program : Program) (scope : Scope)
    (execution : Execution) :
    (execution.stepWithin capacity program scope).1 ≠ .error .noProgram := by
  simp only [stepWithin]
  split
  · simp
  refine drive_preserves (P := fun _ => True) (Q := fun result _ => result ≠ .error .noProgram)
    (fun _ _ _ _ => trivial) ?_ trivial
  intro execution result after _ advances
  cases advances <;> simp

theorem Execution.runWithin_ne_noProgram (capacity : Nat) (program : Program) (scope : Scope)
    (execution : Execution) :
    (execution.runWithin capacity program scope).1 ≠ .error .noProgram := by
  intro failed
  refine runWithin_error (P := fun _ => True) (Q := fun error => error ≠ .noProgram)
    (fun _ _ _ _ _ => trivial) ?_ trivial failed rfl
  intro execution error _ fails missing
  subst missing
  exact execution.stepWithin_ne_noProgram capacity program scope fails

namespace Interpreter

/-- Operations that need a program or an execution say that there is none exactly if the program is
missing, since there is none without the other. -/
theorem Paired.noProgram_iff {interpreter : Interpreter} (paired : interpreter.Paired) :
    (interpreter.nextAction.1 = .error .noProgram ↔ interpreter.program? = none) ∧
    (interpreter.run.1 = .error .noProgram ↔ interpreter.program? = none) ∧
    (interpreter.reset.1 = .error .noProgram ↔ interpreter.program? = none) ∧
    ∀ stored, (interpreter.restore stored).1 = .error .noProgram ↔ interpreter.program? = none := by
  cases present : interpreter.program? with
  | none =>
      have notLoaded : interpreter.loaded? = none := by simp only [loaded?, present]
      simp [nextAction, run, reset, restore, notLoaded, present]
  | some program =>
      obtain ⟨execution, loaded⟩ := paired.loaded_of_program present
      have steps := execution.stepWithin_ne_noProgram gasCapacity program interpreter.scope
      have runs := execution.runWithin_ne_noProgram gasCapacity program interpreter.scope
      have restores (stored : Execution) :
          (interpreter.restore stored).1 ≠ .error .noProgram := by
        cases dangling : danglingFrame? program stored with
        | none => simp [restore, present, dangling]
        | some frame => simp [restore, present, dangling]
      have resets : interpreter.reset.1 ≠ .error .noProgram := by simp [reset, present]
      simp only [reduceCtorEq, iff_false]
      simp only [nextAction, run, loaded]
      exact ⟨steps, runs, resets, restores⟩

/-- A reset that fails leaves the session as it is. -/
theorem reset_of_failed {interpreter : Interpreter} {error : EvalError}
    (failed : interpreter.reset.1 = .error error) : interpreter.reset.2 = interpreter := by
  simp only [reset] at failed ⊢
  split at failed
  · rfl
  · cases failed

/-- So does an execution that is not taken up. -/
theorem restore_of_failed {interpreter : Interpreter} {stored : Execution} {error : EvalError}
    (failed : (interpreter.restore stored).1 = .error error) :
    (interpreter.restore stored).2 = interpreter := by
  simp only [restore] at failed ⊢
  split at failed
  · rfl
  · split at failed
    · rfl
    · cases failed

/-! ### Sessions that start anew -/

theorem newlyRead_of_accepted {sourceName text : String} {program : Program}
    (accepted : RobotScript.parse ⟨sourceName, text⟩ = .ok program) (gasLimit : Option Nat)
    (scope : Scope) :
    newlyRead gasLimit sourceName scope text =
      { fresh gasLimit sourceName with
        program? := some program
        execution? := some (.start program gasLimit)
        scope := scope } := by
  have reads : read { fresh gasLimit sourceName with scope := scope } text = .ok program := accepted
  simp only [newlyRead, parse, reads]
  rfl

/-- After an accepted text a session is what a new one with its settings and scope would be. -/
theorem parse_eq_newlyRead {interpreter : Interpreter} {text : String}
    (accepted : (interpreter.parse text).1 = .ok ()) :
    (interpreter.parse text).2 =
      newlyRead interpreter.gasLimit interpreter.sourceName interpreter.scope text := by
  simp only [parse] at accepted ⊢
  split at accepted
  · rename_i program reads
    rw [newlyRead_of_accepted reads]
    rfl
  · cases accepted

/-- So is a session that starts its program over, if it has the program from that text. -/
theorem reset_eq_newlyRead {interpreter : Interpreter} {program : Program} {text : String}
    (present : interpreter.program? = some program)
    (accepted : RobotScript.parse ⟨interpreter.sourceName, text⟩ = .ok program) :
    interpreter.reset.2 =
      newlyRead interpreter.gasLimit interpreter.sourceName interpreter.scope text := by
  rw [newlyRead_of_accepted accepted]
  simp only [reset, present]
  cases interpreter
  cases present
  rfl

end Interpreter

/-- The life of a session, whatever the host has done with it. It has a program, and with it an
execution, exactly if a text has been read and the last one was good; the program is that of this
text. A step, a run, a reset and taking up an execution say that there is no program exactly if
there is none. A reset or an execution taken up in vain changes nothing, and nothing but a write
changes the scope. After a good text, and after a reset, the session behaves like a new one with
its limit, name and scope that has read this text, or the last one. -/
theorem sessions_live_by_last_text (gasLimit : Option Nat) (sourceName : String)
    (operations : List Operation) :
    let session := (Interpreter.fresh gasLimit sourceName).performAll operations
    (∀ program, session.program? = some program ↔
      ∃ text, lastText? operations = some text ∧ parse ⟨sourceName, text⟩ = .ok program) ∧
    (session.execution?.isSome = true ↔ session.program?.isSome = true) ∧
    (session.nextAction.1 = .error .noProgram ↔ session.program? = none) ∧
    (session.run.1 = .error .noProgram ↔ session.program? = none) ∧
    (session.reset.1 = .error .noProgram ↔ session.program? = none) ∧
    (∀ stored, (session.restore stored).1 = .error .noProgram ↔ session.program? = none) ∧
    (∀ error, session.reset.1 = .error error → session.reset.2 = session) ∧
    (∀ stored error, (session.restore stored).1 = .error error →
      (session.restore stored).2 = session) ∧
    (∀ operation, operation.scope? = none →
      (session.perform operation).scope = session.scope) ∧
    (∀ text, (session.parse text).1 = .ok () →
      (session.parse text).2.BehavesLike
        (Interpreter.newlyRead gasLimit sourceName session.scope text)) ∧
    (session.reset.1 = .ok () →
      ∃ text, lastText? operations = some text ∧ session.reset.2.BehavesLike
        (Interpreter.newlyRead gasLimit sourceName session.scope text)) := by
  intro session
  have settings := Interpreter.performAll_settings gasLimit sourceName operations
  have paired := Interpreter.performAll_paired gasLimit sourceName operations
  have program (program : Program) : session.program? = some program ↔
      ∃ text, lastText? operations = some text ∧ parse ⟨sourceName, text⟩ = .ok program := by
    rw [Interpreter.performAll_program?, Option.bind_eq_some_iff]
    simp only [toOption_eq_some_iff]
  rcases paired.noProgram_iff with ⟨steps, runs, resets, restores⟩
  refine ⟨program, paired.symm, steps, runs, resets, restores, ?_, ?_, ?_, ?_, ?_⟩
  · intro error failed
    exact Interpreter.reset_of_failed failed
  · intro stored error failed
    exact Interpreter.restore_of_failed failed
  · intro operation noWrite
    rw [Interpreter.perform_eq, noWrite]
    rfl
  · intro text accepted later
    have same := Interpreter.parse_eq_newlyRead accepted
    rw [settings.1, settings.2] at same
    simp only [same, and_self]
  · intro restarts
    have present : ∃ loaded, session.program? = some loaded := by
      rw [← Option.ne_none_iff_exists', ne_eq, ← resets, restarts]
      simp
    rcases present with ⟨loaded, present⟩
    rcases (program loaded).mp present with ⟨text, last, good⟩
    refine ⟨text, last, fun later => ?_⟩
    have same := Interpreter.reset_eq_newlyRead present (settings.2 ▸ good)
    rw [settings.1, settings.2] at same
    simp only [same, and_self]

/-- A good text, a step, a bad text, a stored execution that cannot be taken up, a write, another
good text and a run: the session that now starts over has forgotten all but the last text and the
scope. -/
theorem sessions_live_by_last_text_mixed :
    let scope := Scope.empty.set "luz" (.bool true)
    let operations : List Operation :=
      [.parse "A B", .nextAction, .parse "\x7d", .restore ⟨[], false, 0, none⟩, .write scope,
        .parse "se luz \x7b A \x7d", .run]
    let session := (Interpreter.fresh (some 9) "aula").performAll operations
    session.scope = scope ∧ session.reset.1 = .ok () ∧
      session.reset.2.BehavesLike
        (Interpreter.newlyRead (some 9) "aula" scope "se luz \x7b A \x7d") := by
  intro scope operations session
  rcases sessions_live_by_last_text (some 9) "aula" operations with
    ⟨-, -, -, -, -, -, -, -, -, -, startsOver⟩
  have sameScope : session.scope = scope := by decide +kernel
  have restarts : session.reset.1 = .ok () := by
    have present : session.program?.isSome = true := by decide +kernel
    rcases Option.isSome_iff_exists.mp present with ⟨program, found⟩
    simp only [Interpreter.reset, found]
  rcases startsOver restarts with ⟨text, last, behaves⟩
  obtain rfl : "se luz \x7b A \x7d" = text := Option.some.inj last
  exact ⟨sameScope, restarts, sameScope ▸ behaves⟩

end RobotScript
