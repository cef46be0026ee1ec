/-
Module: RobotScript.Proofs.Session
Purpose: What holds of a session whatever the host does with it, in any order: there is a program
  exactly if there is an execution, although the two are set one at a time; the loaded program
  refers only to blocks that it has, and so does the execution, also if it came from elsewhere and
  was only checked frame by frame. The limit of the session is kept by every operation but taking
  up a stored execution, which brings its own.
Main exports: Operation, Interpreter.perform, Interpreter.performAll, Interpreter.Leaves,
  Interpreter.perform_leaves, Interpreter.Paired, Execution.Backed, Loaded.Sound,
  sessions_never_dangle, limited_sessions_stay_limited
-/
import RobotScript.Interpreter
import RobotScript.Proofs.FrameStack
import RobotScript.Proofs.GasLimit

namespace RobotScript

/-! ### Accepted scripts refer to blocks that they have -/

/-- The blocks that an accepted script refers to are there, and so is its top level. -/
theorem parse_closed {source : SourceFile} {program : Program}
    (accepted : parse source = .ok program) :
    program.Closed ∧ (program.block? program.root).isSome = true := by
  have read := parseTokens_eq_ok_iff.mp accepted
  have covered := parseStream_preserves (P := fun state _ => state.Covered)
    (fun round holds => round.covered holds) rfl nofun read
  obtain ⟨-, closed, rfl⟩ := parseStream_eq_ok_iff.mp read
  generalize TokenStream.finalState (some Report.capacity) _ = state at covered closed
  have size (span : Span) : (state.finish span).blocks.size = state.blocks.size + 1 :=
    Array.size_push _
  constructor
  · intro id refers
    rw [ParseState.finish_references closed] at refers
    rw [Program.block?_isSome_iff, size]
    exact Nat.lt_succ_of_lt (covered id refers)
  · rw [Program.block?_isSome_iff, size]
    exact Nat.lt_succ_of_le state.nextId_index_le

/-! ### Executions whose blocks are there -/

/-- Every frame runs a block of the program. -/
def Execution.Backed (program : Program) (execution : Execution) : Prop :=
  ∀ frame ∈ execution.frames, (program.block? frame.block).isSome = true

namespace Execution

variable {program : Program}

/-- A move goes on in the blocks at hand or enters one that the program refers to. -/
theorem backed_move (closed : program.Closed) {frame : Frame} {outer : List Frame} {block : Block}
    (here : program.block? frame.block = some block)
    (backed : ∀ running ∈ frame :: outer, (program.block? running.block).isSome = true)
    (scope : Scope) :
    ∀ running ∈ (frame.move scope block).apply frame outer,
      (program.block? running.block).isSome = true := by
  rw [List.forall_mem_cons] at backed
  have sameBlock (cursor : Nat) (kind : FrameKind) :
      ∀ running ∈ ⟨frame.block, cursor, kind⟩ :: outer,
        (program.block? running.block).isSome = true :=
    List.forall_mem_cons.mpr backed
  rcases frame.apply_move_cases scope block outer with
    stepped | ⟨stmt, opened, there, opens, fresh, entered⟩ | ⟨kind, -, again⟩ | left
  · rw [stepped]
    exact sameBlock _ _
  · rw [entered]
    rcases closed.opened here there opens fresh with ⟨inner, found, -⟩
    exact List.forall_mem_cons.mpr ⟨Option.isSome_of_eq_some found, sameBlock _ _⟩
  · rw [again]
    exact sameBlock _ _
  · rw [left]
    exact backed.2

/-- A step from frames whose blocks are there ends in such frames, and finds no block missing. -/
theorem Backed.stepWithin (closed : program.Closed) {execution : Execution}
    (backed : execution.Backed program) (capacity : Nat) (scope : Scope) :
    (execution.stepWithin capacity program scope).2.Backed program ∧
      ∀ id, (execution.stepWithin capacity program scope).1 ≠ .error (.danglingBlock id) := by
  simp only [Execution.stepWithin]
  split
  · exact ⟨backed, by simp⟩
  refine drive_preserves (P := Backed program)
    (Q := fun result after => after.Backed program ∧ ∀ id, result ≠ .error (.danglingBlock id))
    ?_ ?_ backed
  · intro execution after backed advances
    cases advances with
    | goesOn top here =>
        simp only [Backed, top] at backed
        exact backed_move closed here backed scope
  · intro execution result after backed advances
    cases advances with
    | ends => exact ⟨backed, by simp⟩
    | dangles top missing =>
        simp only [Backed, top] at backed
        have present := backed _ List.mem_cons_self
        rw [missing] at present
        cases present
    | overflows => exact ⟨backed, by simp⟩
    | starves => exact ⟨backed, by simp⟩
    | acts top here _ _ action =>
        simp only [Backed, top] at backed
        have moved := backed_move closed here backed scope
        rw [action] at moved
        exact ⟨moved, by simp⟩

theorem Backed.runWithin (closed : program.Closed) {execution : Execution}
    (backed : execution.Backed program) (capacity : Nat) (scope : Scope) :
    (execution.runWithin capacity program scope).2.Backed program ∧
      ∀ id, (execution.runWithin capacity program scope).1 ≠ .error (.danglingBlock id) := by
  constructor
  · exact runWithin_preserves (fun _ holds => (holds.stepWithin closed capacity scope).1) backed
  · intro id dangles
    refine runWithin_error (P := Backed program) (Q := fun error => error ≠ .danglingBlock id)
      ?_ ?_ backed dangles rfl
    · intro execution letter after backed acts
      have kept := (backed.stepWithin closed capacity scope).1
      rwa [acts] at kept
    · intro execution error backed fails same
      subst same
      exact (backed.stepWithin closed capacity scope).2 id fails

theorem backed_start (root : (program.block? program.root).isSome = true)
    (gasLimit : Option Nat) : (start program gasLimit).Backed program := by
  intro frame member
  rw [List.mem_singleton.mp member]
  exact root

theorem Reachable.backed (closed : program.Closed)
    (root : (program.block? program.root).isSome = true) {execution : Execution}
    (reachable : Reachable program execution) : execution.Backed program := by
  apply reachable.preserves
  · exact backed_start root
  · intro scope execution backed
    exact (backed.stepWithin closed gasCapacity scope).1

end Execution

/-! ### Operations -/

/-- What a host can do with a session. -/
inductive Operation where
  | parse (text : String)
  | nextAction
  | run
  | reset
  /-- The host writes the scope; this is what it leaves behind. -/
  | write (scope : Scope)
  | restore (execution : Execution)
  deriving Repr, Inhabited, DecidableEq

/-- The scope that an operation writes. -/
def Operation.scope? : Operation → Option Scope
  | .write scope => some scope
  | _ => none

/-- The text that an operation reads. -/
def Operation.text? : Operation → Option String
  | .parse text => some text
  | _ => none

namespace Interpreter

/-- The session after an operation, whatever the operation returns. -/
def perform (interpreter : Interpreter) : Operation → Interpreter
  | .parse text => (interpreter.parse text).2
  | .nextAction => interpreter.nextAction.2
  | .run => interpreter.run.2
  | .reset => interpreter.reset.2
  | .write scope => { interpreter with scope := scope }
  | .restore execution => (interpreter.restore execution).2

/-- The session after a number of operations, the first one first. -/
def performAll (interpreter : Interpreter) (operations : List Operation) : Interpreter :=
  operations.foldl perform interpreter

/-- What each of the operations keeps, all of them keep. -/
theorem performAll_preserves {P : Interpreter → Prop} {operations : List Operation}
    (kept : ∀ operation ∈ operations, ∀ interpreter, P interpreter →
      P (interpreter.perform operation))
    {interpreter : Interpreter} (holds : P interpreter) :
    P (interpreter.performAll operations) := by
  induction operations generalizing interpreter with
  | nil => exact holds
  | cons operation later inductionHypothesis =>
      apply inductionHypothesis
      · exact fun operation member => kept operation (List.mem_cons_of_mem _ member)
      · exact kept operation List.mem_cons_self interpreter holds

/-- A stored execution is refused exactly if one of its frames has lost its block. -/
theorem danglingFrame?_eq_none_iff {program : Program} {execution : Execution} :
    danglingFrame? program execution = none ↔ execution.Backed program := by
  simp only [danglingFrame?, List.find?_eq_none, List.mem_reverse, Option.isNone_iff_eq_none,
    Execution.Backed, Option.isSome_iff_ne_none, ne_eq]

/-- The program and the execution that an operation leaves behind. -/
inductive Leaves (interpreter : Interpreter) :
    Operation → Option Program → Option Execution → Prop where
  | parsed {text : String} {program : Program} (accepted : interpreter.read text = .ok program) :
      Leaves interpreter (.parse text) (some program) (some (.start program interpreter.gasLimit))
  | refused {text : String} {report : Report} (refused : interpreter.read text = .error report) :
      Leaves interpreter (.parse text) none none
  | stepped {program : Program} {execution : Execution}
      (loaded : interpreter.loaded? = some ⟨program, execution⟩) :
      Leaves interpreter .nextAction (some program)
        (some (execution.step program interpreter.scope).2)
  | ran {program : Program} {execution : Execution}
      (loaded : interpreter.loaded? = some ⟨program, execution⟩) :
      Leaves interpreter .run (some program) (some (execution.run program interpreter.scope).2)
  | restarted {program : Program} (present : interpreter.program? = some program) :
      Leaves interpreter .reset (some program) (some (.start program interpreter.gasLimit))
  | restored {program : Program} {stored : Execution}
      (present : interpreter.program? = some program) (backed : stored.Backed program) :
      Leaves interpreter (.restore stored) (some program) (some stored)
  | unchanged {operation : Operation} (readsNothing : operation.text? = none) :
      Leaves interpreter operation interpreter.program? interpreter.execution?

theorem perform_leaves (interpreter : Interpreter) (operation : Operation) :
    interpreter.Leaves operation (interpreter.perform operation).program?
      (interpreter.perform operation).execution? := by
  cases operation with
  | parse text =>
      simp only [perform, parse]
      split
      · rename_i program accepted
        exact .parsed accepted
      · rename_i report refused
        exact .refused refused
  | nextAction =>
      simp only [perform, nextAction]
      split
      · exact .unchanged rfl
      · rename_i program execution loaded
        simp only [(loaded?_eq_some_iff.mp loaded).1]
        exact .stepped loaded
  | run =>
      simp only [perform, run]
      split
      · exact .unchanged rfl
      · rename_i program execution loaded
        simp only [(loaded?_eq_some_iff.mp loaded).1]
        exact .ran loaded
  | reset =>
      simp only [perform, reset]
      split
      · exact .unchanged rfl
      · rename_i program present
        simp only [present]
        exact .restarted present
  | write scope => exact .unchanged rfl
  | restore stored =>
      simp only [perform, restore]
      split
      · exact .unchanged rfl
      · rename_i program present
        split
        · exact .unchanged rfl
        · rename_i noneDangles
          simp only [present]
          exact .restored present (danglingFrame?_eq_none_iff.mp noneDangles)

/-- An operation changes the program and the execution, and the scope if it writes one. -/
theorem perform_eq (interpreter : Interpreter) (operation : Operation) :
    interpreter.perform operation =
      { interpreter with
        program? := (interpreter.perform operation).program?
        execution? := (interpreter.perform operation).execution?
        scope := operation.scope?.getD interpreter.scope } := by
  cases operation with
  | parse text =>
      simp only [perform, parse]
      split <;> rfl
  | nextAction =>
      simp only [perform, nextAction]
      split <;> rfl
  | run =>
      simp only [perform, run]
      split <;> rfl
  | reset =>
      simp only [perform, reset]
      split <;> rfl
  | write scope => rfl
  | restore stored =>
      simp only [perform, restore]
      split
      · rfl
      · split <;> rfl

/-- The limit of a session is set when it begins. -/
theorem perform_gasLimit (interpreter : Interpreter) (operation : Operation) :
    (interpreter.perform operation).gasLimit = interpreter.gasLimit := by
  rw [perform_eq]

end Interpreter

/-- A session that has just begun. -/
def Interpreter.fresh (gasLimit : Option Nat) (sourceName : String) : Interpreter :=
  { gasLimit := gasLimit, sourceName := sourceName }

/-! ### Programs and their executions come and go together -/

namespace Interpreter

/-- There is a program exactly if there is an execution. -/
def Paired (interpreter : Interpreter) : Prop :=
  interpreter.program?.isSome = true ↔ interpreter.execution?.isSome = true

variable {interpreter : Interpreter} {program : Program} {execution : Execution}

theorem Paired.loaded_of_program (paired : interpreter.Paired)
    (present : interpreter.program? = some program) :
    ∃ execution, interpreter.loaded? = some ⟨program, execution⟩ := by
  have started := paired.mp (Option.isSome_of_eq_some present)
  obtain ⟨execution, found⟩ := Option.isSome_iff_exists.mp started
  exact ⟨execution, loaded?_eq_some_iff.mpr ⟨present, found⟩⟩

theorem Paired.loaded_of_execution (paired : interpreter.Paired)
    (started : interpreter.execution? = some execution) :
    ∃ program, interpreter.loaded? = some ⟨program, execution⟩ := by
  have present := paired.mpr (Option.isSome_of_eq_some started)
  obtain ⟨program, found⟩ := Option.isSome_iff_exists.mp present
  exact ⟨program, loaded?_eq_some_iff.mpr ⟨found, started⟩⟩

/-- Every operation leaves both or none, if it found both or none: reading a text sets both or
clears both, and the others put an execution in the place of one that was there. -/
theorem Leaves.paired {operation : Operation} {program? : Option Program}
    {execution? : Option Execution} (leaves : interpreter.Leaves operation program? execution?)
    (paired : interpreter.Paired) :
    program?.isSome = true ↔ execution?.isSome = true := by
  cases leaves with
  | parsed => exact Iff.rfl
  | refused => exact Iff.rfl
  | stepped => exact Iff.rfl
  | ran => exact Iff.rfl
  | restarted => exact Iff.rfl
  | restored => exact Iff.rfl
  | unchanged => exact paired

theorem performAll_paired (gasLimit : Option Nat) (sourceName : String)
    (operations : List Operation) :
    ((fresh gasLimit sourceName).performAll operations).Paired := by
  refine performAll_preserves (P := Paired) ?_ Iff.rfl
  intro operation _ interpreter paired
  exact (interpreter.perform_leaves operation).paired paired

end Interpreter

/-! ### No block is ever missing -/

/-- What is loaded refers only to blocks that are there. -/
structure Loaded.Sound (loaded : Loaded) : Prop where
  closed : loaded.program.Closed
  root : (loaded.program.block? loaded.program.root).isSome = true
  backed : loaded.execution.Backed loaded.program

namespace Interpreter

/-- Every operation keeps what is loaded sound: a new program because it was accepted, a stored
execution because it was checked, and the others because moves stay in the program. -/
theorem Leaves.sound {interpreter : Interpreter} {operation : Operation}
    {program? : Option Program} {execution? : Option Execution}
    (leaves : interpreter.Leaves operation program? execution?) (paired : interpreter.Paired)
    (sound : ∀ loaded, interpreter.loaded? = some loaded → loaded.Sound) {program : Program}
    {execution : Execution} (isProgram : program? = some program)
    (isExecution : execution? = some execution) : Loaded.Sound ⟨program, execution⟩ := by
  cases leaves with
  | parsed accepted =>
      cases isProgram
      cases isExecution
      obtain ⟨closed, root⟩ := parse_closed accepted
      exact ⟨closed, root, Execution.backed_start root _⟩
  | refused => cases isProgram
  | stepped before =>
      cases isProgram
      cases isExecution
      obtain ⟨closed, root, backed⟩ := sound _ before
      exact ⟨closed, root, (backed.stepWithin closed gasCapacity _).1⟩
  | ran before =>
      cases isProgram
      cases isExecution
      obtain ⟨closed, root, backed⟩ := sound _ before
      exact ⟨closed, root, (backed.runWithin closed gasCapacity _).1⟩
  | restarted present =>
      cases isProgram
      cases isExecution
      obtain ⟨before, loaded⟩ := paired.loaded_of_program present
      obtain ⟨closed, root, -⟩ := sound _ loaded
      exact ⟨closed, root, Execution.backed_start root _⟩
  | restored present backed =>
      cases isProgram
      cases isExecution
      obtain ⟨before, loaded⟩ := paired.loaded_of_program present
      obtain ⟨closed, root, -⟩ := sound _ loaded
      exact ⟨closed, root, backed⟩
  | unchanged => exact sound _ (loaded?_eq_some_iff.mpr ⟨isProgram, isExecution⟩)

theorem performAll_sound (gasLimit : Option Nat) (sourceName : String)
    (operations : List Operation) :
    ∀ loaded, ((fresh gasLimit sourceName).performAll operations).loaded? = some loaded →
      loaded.Sound := by
  have kept : ((fresh gasLimit sourceName).performAll operations).Paired ∧
      ∀ loaded, ((fresh gasLimit sourceName).performAll operations).loaded? = some loaded →
        loaded.Sound := by
    refine performAll_preserves
      (P := fun interpreter => interpreter.Paired ∧
        ∀ loaded, interpreter.loaded? = some loaded → loaded.Sound) ?_ ⟨Iff.rfl, nofun⟩
    intro operation _ interpreter holds
    obtain ⟨paired, sound⟩ := holds
    have leaves := interpreter.perform_leaves operation
    refine ⟨leaves.paired paired, ?_⟩
    rintro ⟨program, execution⟩ loaded
    obtain ⟨isProgram, isExecution⟩ := loaded?_eq_some_iff.mp loaded
    exact leaves.sound paired sound isProgram isExecution
  exact kept.2

end Interpreter

/-- Whatever a host has done with a session, and whatever executions it has had it take up, no
block is found missing by the next step, run or reset; and an execution that can be reached from
the start of the loaded program is taken up. -/
theorem sessions_never_dangle (gasLimit : Option Nat) (sourceName : String)
    (operations : List Operation) :
    let session := (Interpreter.fresh gasLimit sourceName).performAll operations
    (∀ id, session.nextAction.1 ≠ .error (.danglingBlock id) ∧
      session.run.1 ≠ .error (.danglingBlock id) ∧
      session.reset.1 ≠ .error (.danglingBlock id)) ∧
    ∀ program, session.program? = some program →
      ∀ stored, Execution.Reachable program stored →
        session.restore stored = (.ok (), { session with execution? := some stored }) := by
  intro session
  have paired := Interpreter.performAll_paired gasLimit sourceName operations
  have sound := Interpreter.performAll_sound gasLimit sourceName operations
  refine ⟨fun id => ⟨?_, ?_, ?_⟩, ?_⟩
  · cases loaded : session.loaded? with
    | none => simp [Interpreter.nextAction, loaded]
    | some current =>
        obtain ⟨closed, -, backed⟩ := sound current loaded
        simp only [Interpreter.nextAction, loaded]
        exact (backed.stepWithin closed gasCapacity session.scope).2 id
  · cases loaded : session.loaded? with
    | none => simp [Interpreter.run, loaded]
    | some current =>
        obtain ⟨closed, -, backed⟩ := sound current loaded
        simp only [Interpreter.run, loaded]
        exact (backed.runWithin closed gasCapacity session.scope).2 id
  · cases present : session.program? with
    | none => simp [Interpreter.reset, present]
    | some program => simp [Interpreter.reset, present]
  · intro program present stored reachable
    obtain ⟨execution, loaded⟩ := paired.loaded_of_program present
    obtain ⟨closed, root, -⟩ := sound _ loaded
    have noneDangles := Interpreter.danglingFrame?_eq_none_iff.mpr (reachable.backed closed root)
    simp only [Interpreter.restore, present, noneDangles]

/-- An execution that no run of the program leads to is taken up, since its blocks are there; it
finds no block missing, and can be given up for one that a step of the program leads to. -/
theorem sessions_never_dangle_foreign :
    let foreign : Execution :=
      ⟨[⟨⟨0⟩, 7, .repeated 5⟩, ⟨⟨1⟩, 3, .loop "luz"⟩], false, 2, none⟩
    let session := (Interpreter.fresh none "aula").performAll
      [.parse "2 \x7b A \x7d", .restore foreign]
    (∀ id, session.run.1 ≠ .error (.danglingBlock id)) ∧
      ∃ program, session.loaded? = some ⟨program, foreign⟩ ∧
        ∀ scope, let stepped := ((Execution.start program none).step program scope).2
          session.restore stepped = (.ok (), { session with execution? := some stepped }) := by
  intro foreign session
  have taken : session.execution? = some foreign := by decide +kernel
  have paired :=
    Interpreter.performAll_paired none "aula" [.parse "2 \x7b A \x7d", .restore foreign]
  obtain ⟨program, loaded⟩ := paired.loaded_of_execution taken
  have present := (Interpreter.loaded?_eq_some_iff.mp loaded).1
  have never := sessions_never_dangle none "aula" [.parse "2 \x7b A \x7d", .restore foreign]
  refine ⟨fun id => (never.1 id).2.1, program, loaded, fun scope => ?_⟩
  exact never.2 program present _ (.step (.start none) scope)

/-! ### The limit of a session -/

/-- Starting a program sets the limit of the session; taking up a stored execution brings the
limit that was stored with it; nothing else changes the limit. -/
theorem Interpreter.Leaves.limit {interpreter : Interpreter} {operation : Operation}
    {program? : Option Program} {execution? : Option Execution}
    (leaves : interpreter.Leaves operation program? execution?) {limit : Nat}
    (sessionLimit : interpreter.gasLimit = some limit)
    (carried : ∀ stored, operation = .restore stored → stored.gasLimit = some limit)
    (limited : ∀ execution, interpreter.execution? = some execution →
      execution.gasLimit = some limit) :
    ∀ execution, execution? = some execution → execution.gasLimit = some limit := by
  intro execution installed
  cases leaves with
  | parsed accepted =>
      cases installed
      exact sessionLimit
  | refused => cases installed
  | stepped before =>
      cases installed
      have started := (Interpreter.loaded?_eq_some_iff.mp before).2
      exact (Execution.stepWithin_gasLimit_eq _ _ _ _).trans (limited _ started)
  | ran before =>
      cases installed
      have started := (Interpreter.loaded?_eq_some_iff.mp before).2
      exact (Execution.runWithin_gasLimit_eq _ _ _ _).trans (limited _ started)
  | restarted present =>
      cases installed
      exact sessionLimit
  | restored present backed =>
      cases installed
      exact carried _ rfl
  | unchanged => exact limited execution installed

/-- If every execution that a limited session takes up carries the limit of the session, the
one it has does so at any time. As long as the counter can go one beyond both the limit and the
gas spent, a run then ends with its actions or for want of gas. -/
theorem limited_sessions_stay_limited {limit : Nat} (sourceName : String)
    {operations : List Operation}
    (carried : ∀ stored, Operation.restore stored ∈ operations → stored.gasLimit = some limit) :
    let session := (Interpreter.fresh (some limit) sourceName).performAll operations
    ∀ execution, session.execution? = some execution →
      execution.gasLimit = some limit ∧
      (limit + 1 < gasCapacity → execution.gasUsed + 1 < gasCapacity →
        (∃ actions, session.run.1 = .ok actions) ∨
          session.run.1 = .error (.gasExhausted limit)) := by
  intro session execution started
  have kept : session.gasLimit = some limit ∧ ∀ execution, session.execution? = some execution →
      execution.gasLimit = some limit := by
    refine Interpreter.performAll_preserves
      (P := fun interpreter => interpreter.gasLimit = some limit ∧
        ∀ execution, interpreter.execution? = some execution → execution.gasLimit = some limit)
      ?_ ⟨rfl, nofun⟩
    intro operation member interpreter holds
    obtain ⟨sessionLimit, limited⟩ := holds
    refine ⟨(interpreter.perform_gasLimit operation).trans sessionLimit, ?_⟩
    apply (interpreter.perform_leaves operation).limit sessionLimit _ limited
    intro stored same
    subst same
    exact carried stored member
  have hasLimit : execution.gasLimit = some limit := kept.2 _ started
  refine ⟨hasLimit, fun fits room => ?_⟩
  have paired := Interpreter.performAll_paired (some limit) sourceName operations
  obtain ⟨program, loaded⟩ := paired.loaded_of_execution started
  obtain ⟨closed, -, backed⟩ :=
    Interpreter.performAll_sound (some limit) sourceName operations _ loaded
  have runs : session.run.1 = (execution.run program session.scope).1 := by
    simp only [session, Interpreter.run, loaded]
  rw [runs]
  cases result : (execution.run program session.scope).1 with
  | ok actions => exact Or.inl ⟨actions, rfl⟩
  | error error =>
      rcases Execution.runWithin_of_limit fits program session.scope hasLimit room result with
        rfl | ⟨id, rfl⟩
      · exact Or.inr rfl
      · exact absurd result ((backed.runWithin closed gasCapacity session.scope).2 id)

/-- An execution stored under the limit is taken up again, and the run stops at the limit. -/
theorem limited_sessions_stay_limited_restored :
    let stored : Execution := ⟨[⟨⟨0⟩, 1, .block⟩], false, 1, some 1⟩
    let session := (Interpreter.fresh (some 1) "aula").performAll [.parse "A B", .restore stored]
    session.execution? = some stored ∧
      ((∃ actions, session.run.1 = .ok actions) ∨ session.run.1 = .error (.gasExhausted 1)) := by
  intro stored session
  have taken : session.execution? = some stored := by decide +kernel
  have carried : ∀ other, Operation.restore other ∈ [.parse "A B", .restore stored] →
      other.gasLimit = some 1 := by
    intro other member
    obtain rfl : other = stored := by simpa using member
    rfl
  have stays := limited_sessions_stay_limited "aula" carried stored taken
  exact ⟨taken, stays.2 (by decide) (by decide)⟩

/-- An execution stored by a session without a limit lifts the limit of the session that takes it
up: with one unit of gas the same script stops before its second action, but now it runs to its
end. -/
theorem restored_execution_lifts_limit :
    ∃ stored,
      ((Interpreter.fresh none "aula").performAll [.parse "A B"]).execution? = some stored ∧
      ((Interpreter.fresh (some 1) "aula").performAll
        [.parse "A B", .restore stored]).execution?.map Execution.gasLimit = some none ∧
      ((Interpreter.fresh (some 1) "aula").performAll
        [.parse "A B", .restore stored]).run.1.toOption = some ['A', 'B'] ∧
      ((Interpreter.fresh (some 1) "aula").performAll [.parse "A B"]).run.1.toOption = none := by
  refine ⟨⟨[⟨⟨0⟩, 0, .block⟩], false, 0, none⟩, ?_⟩
  decide +kernel

end RobotScript
