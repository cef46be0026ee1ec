/-
Module: RobotScript.Lesson
Purpose: A session as a lesson page uses it: every answer is one line of JSON text.
Main exports: Lesson, Lesson.parse, Lesson.step, Lesson.run, Lesson.reset, Lesson.check,
  Lesson.version
-/
import RobotScript.Interpreter
import RobotScript.Json.Execution

namespace RobotScript

/-- The session behind one lesson. -/
structure Lesson where
  interpreter : Interpreter
  deriving Repr, Inhabited, DecidableEq

namespace Lesson

/-- What complaints call the script of a lesson. -/
def sourceName : String := "lesson.robo"

/-- The version that a lesson page can ask for. -/
def version : String := "0.1.0"

/-- A lesson without a script, under a gas limit if one is given. -/
def start (gasLimit : Option UInt32) : Lesson :=
  ⟨{ gasLimit := gasLimit.map UInt32.toNat, sourceName := sourceName }⟩

/-! ### Replies -/

/-- The reply that tells only that all went well. -/
def doneReply : String := Json.null.render

/-- The reply to a script that was refused. -/
def reportReply (report : Report) : String := (encode report).render

/-- The reply to a request that failed. -/
def errorReply (error : EvalError) : String :=
  (Json.obj [("error", .str error.message)]).render

/-- The reply to a step: the action, or null at the end of the program. -/
def stepReply : StepResult → String
  | .ok action? => (Json.obj [("action", .ofOption action?)]).render
  | .error error => errorReply error

/-- The reply to a run: all its actions. -/
def runReply : RunResult → String
  | .ok actions => (Json.obj [("actions", encode actions)]).render
  | .error error => errorReply error

/-! ### Requests -/

/-- Loads a script. -/
def parse (lesson : Lesson) (text : String) : String × Lesson :=
  match lesson.interpreter.parse text with
  | (.ok (), interpreter) => (doneReply, ⟨interpreter⟩)
  | (.error report, interpreter) => (reportReply report, ⟨interpreter⟩)

/-- Sets what a sensor says. -/
def setVariable (lesson : Lesson) (name : String) (holds : Bool) : Lesson :=
  ⟨lesson.interpreter.setVariable name (.bool holds)⟩

/-- What a sensor says; false if it was never set. -/
def getVariable (lesson : Lesson) (name : String) : Bool :=
  lesson.interpreter.scope.isTruthy name

/-- Runs up to the next action. -/
def step (lesson : Lesson) : String × Lesson :=
  let (result, interpreter) := lesson.interpreter.nextAction
  (stepReply result, ⟨interpreter⟩)

/-- Runs to the end. -/
def run (lesson : Lesson) : String × Lesson :=
  let (result, interpreter) := lesson.interpreter.run
  (runReply result, ⟨interpreter⟩)

/-- Starts the script over. -/
def reset (lesson : Lesson) : String × Lesson :=
  match lesson.interpreter.reset with
  | (.ok (), interpreter) => (doneReply, ⟨interpreter⟩)
  | (.error error, interpreter) => (errorReply error, ⟨interpreter⟩)

/-- Whether the end of the script has been announced. -/
def isFinished (lesson : Lesson) : Bool :=
  lesson.interpreter.isFinished

/-- The complaints about a script that is not loaded anywhere. -/
def check (text fileName : String) : String :=
  match RobotScript.parse ⟨fileName, text⟩ with
  | .ok _ => doneReply
  | .error report => reportReply report

end Lesson

end RobotScript
