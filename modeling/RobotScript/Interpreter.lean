/-
Module: RobotScript.Interpreter
Purpose: A session with one script at a time: parse it, run it step by step or to the end, start
  it over, take up a stored execution. The host writes the scope between steps; nothing else does.
Main exports: Interpreter, Loaded, Interpreter.loaded?, Interpreter.parse, Interpreter.nextAction,
  Interpreter.run, Interpreter.reset, Interpreter.restore
-/
import RobotScript.Execution.Event
import RobotScript.Program.Parser

namespace RobotScript

/-- A program and how far it has been run. -/
structure Loaded where
  program : Program
  execution : Execution
  deriving Repr, Inhabited, DecidableEq

/-- A session. Sessions share nothing. The program and its execution are set one at a time: nothing
here says that there is one only with the other. -/
structure Interpreter where
  /-- The program of the last parse, if that succeeded. -/
  program? : Option Program := none
  /-- How far the program has been run. -/
  execution? : Option Execution := none
  scope : Scope := .empty
  /-- The gas limit that programs are started with. -/
  gasLimit : Option Nat := none
  /-- What complaints call the script. -/
  sourceName : String := "<input>"
  deriving Repr, Inhabited, DecidableEq

namespace Interpreter

/-- The program and its execution, if both are there. -/
def loaded? (interpreter : Interpreter) : Option Loaded :=
  match interpreter.program?, interpreter.execution? with
  | some program, some execution => some ⟨program, execution⟩
  | _, _ => none

/-- Whether the end of the program has been announced. -/
def isFinished (interpreter : Interpreter) : Bool :=
  interpreter.execution?.any Execution.finished

/-- Sets a name for the conditions to come. -/
def setVariable (interpreter : Interpreter) (name : String) (value : Value) : Interpreter :=
  { interpreter with scope := interpreter.scope.set name value }

/-- A program before its first statement, under the gas limit of the session. -/
def fromTop (interpreter : Interpreter) (program : Program) : Execution :=
  .start program interpreter.gasLimit

/-- What the parser makes of a text under the name of the session. -/
def read (interpreter : Interpreter) (text : String) : Except Report Program :=
  RobotScript.parse ⟨interpreter.sourceName, text⟩

/-- Reads a script. The execution is given up whatever comes of it. A good script gets a new one,
before its first statement, and becomes the program; after a bad one there is no program. The scope
stays as it is. -/
def parse (interpreter : Interpreter) (text : String) : Except Report Unit × Interpreter :=
  let cleared := { interpreter with execution? := none }
  match interpreter.read text with
  | .ok program =>
      let started := { cleared with execution? := some (cleared.fromTop program) }
      (.ok (), { started with program? := some program })
  | .error report => (.error report, { cleared with program? := none })

/-- Runs up to the next action and gives its letter, or nothing once the program has ended. -/
def nextAction (interpreter : Interpreter) : StepResult × Interpreter :=
  match interpreter.loaded? with
  | none => (.error .noProgram, interpreter)
  | some ⟨program, execution⟩ =>
      let (result, stepped) := execution.step program interpreter.scope
      (result, { interpreter with execution? := some stepped })

/-- Runs to the end and gives all actions on the way. -/
def run (interpreter : Interpreter) : RunResult × Interpreter :=
  match interpreter.loaded? with
  | none => (.error .noProgram, interpreter)
  | some ⟨program, execution⟩ =>
      let (result, stopped) := execution.run program interpreter.scope
      (result, { interpreter with execution? := some stopped })

/-- Starts the program over, however far it has been run. -/
def reset (interpreter : Interpreter) : Except EvalError Unit × Interpreter :=
  match interpreter.program? with
  | none => (.error .noProgram, interpreter)
  | some program =>
      (.ok (), { interpreter with execution? := some (interpreter.fromTop program) })

/-- The outermost frame whose block the program does not have. -/
def danglingFrame? (program : Program) (execution : Execution) : Option Frame :=
  execution.frames.reverse.find? fun frame => (program.block? frame.block).isNone

/-- Goes on from an execution that was stored earlier, unless it refers to a block that the program
does not have. -/
def restore (interpreter : Interpreter) (execution : Execution) :
    Except EvalError Unit × Interpreter :=
  match interpreter.program? with
  | none => (.error .noProgram, interpreter)
  | some program =>
      match danglingFrame? program execution with
      | some frame => (.error (.danglingBlock frame.block), interpreter)
      | none => (.ok (), { interpreter with execution? := some execution })

theorem loaded?_eq_some_iff {interpreter : Interpreter} {program : Program}
    {execution : Execution} :
    interpreter.loaded? = some ⟨program, execution⟩ ↔
      interpreter.program? = some program ∧ interpreter.execution? = some execution := by
  unfold loaded?
  split
  · simp_all
  · rename_i oneMissing
    constructor
    · intro loaded
      cases loaded
    · rintro ⟨isProgram, isExecution⟩
      exact (oneMissing program execution isProgram isExecution).elim

/-! ### Logs -/

/-- The log of `parse`. -/
def parseEvents (interpreter : Interpreter) (text : String) : List Event :=
  match interpreter.read text with
  | .ok program => [.parsed program.blocks.size program.actionCount]
  | .error report => [.parseFailed report.total]

/-- The log of `nextAction`. -/
def nextActionEvents (interpreter : Interpreter) : List Event :=
  match interpreter.loaded? with
  | none => []
  | some ⟨program, execution⟩ => execution.stepEvents program interpreter.scope

/-- The log of `run`. -/
def runEvents (interpreter : Interpreter) : List Event :=
  match interpreter.loaded? with
  | none => []
  | some ⟨program, execution⟩ => execution.runEvents program interpreter.scope

/-- The log of `reset`. -/
def resetEvents (interpreter : Interpreter) : List Event :=
  match interpreter.program? with
  | none => []
  | some _ => [.reset]

end Interpreter

end RobotScript
