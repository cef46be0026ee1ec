/-
Module: RobotScript.Execution.Event
Purpose: The log of a session: what was read, entered, left, done and ended, in order. Logs are
  computed from the same moves that the machine makes, beside it, so a run that nobody watches
  pays nothing for them.
Main exports: LogLevel, Event, Event.level, Event.message, Execution.stepEvents,
  Execution.runEvents
-/
import RobotScript.Execution.Step

namespace RobotScript

/-- How important an event is. -/
inductive LogLevel where
  | debug
  | trace
  deriving Repr, Inhabited, DecidableEq

/-- The name of a level. -/
def LogLevel.text : LogLevel → String
  | debug => "debug"
  | trace => "trace"

/-- Something worth a line in the log. -/
inductive Event where
  /-- A script was accepted: its numbers of blocks and of actions. -/
  | parsed (blocks actions : Nat)
  /-- A script was refused: how many complaints there are. -/
  | parseFailed (errors : Nat)
  /-- The program starts over. -/
  | reset
  /-- The program has ended. -/
  | finished (gasUsed : Nat)
  | action (letter : Char)
  /-- A statement was started that reads a condition. -/
  | read (reading : Reading)
  /-- A block is entered; `depth` counts the frames with the new one. -/
  | enter (block : BlockId) (depth : Nat)
  /-- A block is left; `depth` counts the frames with the old one. -/
  | exit (block : BlockId) (depth : Nat)
  deriving Repr, Inhabited, DecidableEq

namespace Event

/-- What the machine does is traced; what befalls the program as a whole is of more interest. -/
def level : Event → LogLevel
  | parsed _ _ => .debug
  | parseFailed _ => .debug
  | reset => .debug
  | finished _ => .debug
  | action _ => .trace
  | read _ => .trace
  | enter _ _ => .trace
  | exit _ _ => .trace

/-- The title of an event. -/
def message : Event → String
  | parsed _ _ => "program parsed"
  | parseFailed _ => "parse failed"
  | reset => "execution reset"
  | finished _ => "program finished"
  | action _ => "action"
  | read reading => reading.word.text
  | enter _ _ => "enter"
  | exit _ _ => "exit"

end Event

/-- What a move of a frame in `block`, the innermost of `depth` frames, puts in the log. Running a
block again is not logged. -/
def Move.events (move : Move) (block : BlockId) (depth : Nat) : List Event :=
  match move with
  | .act letter => [.action letter]
  | .call reading? opened? =>
      (reading?.map Event.read).toList ++
        (opened?.map fun frame => Event.enter frame.block (depth + 1)).toList
  | .again _ => []
  | .leave => [.exit block depth]

/-- What `advance` puts in the log: nothing if the move cannot be made. -/
def Execution.advanceEvents (capacity : Nat) (program : Program) (scope : Scope)
    (execution : Execution) : List Event :=
  match execution.frames with
  | [] => [.finished execution.gasUsed]
  | frame :: outer =>
      match program.block? frame.block with
      | none => []
      | some block =>
          match (execution.charge capacity).1 with
          | some _ => []
          | none => (frame.move scope block).events frame.block (outer.length + 1)

/-- Adds what `drive` puts in the log. -/
def Execution.driveEventsOnto (capacity : Nat) (program : Program) (scope : Scope)
    (log : Array Event) (execution : Execution) : Array Event :=
  let logged := log ++ execution.advanceEvents capacity program scope
  match _goesOn : execution.advance capacity program scope with
  | .next moved => moved.driveEventsOnto capacity program scope logged
  | .stop _ _ => logged
  termination_by capacity - execution.gasUsed
  decreasing_by
    have := Execution.advance_next _goesOn
    omega

/-- Adds what `stepWithin` puts in the log. -/
def Execution.stepEventsOnto (capacity : Nat) (program : Program) (scope : Scope)
    (log : Array Event) (execution : Execution) : Array Event :=
  if execution.finished then log else execution.driveEventsOnto capacity program scope log

/-- Adds what `runOnto` puts in the log. -/
def Execution.runEventsOnto (capacity : Nat) (program : Program) (scope : Scope)
    (log : Array Event) (execution : Execution) : Array Event :=
  let logged := execution.stepEventsOnto capacity program scope log
  match _acts : execution.stepWithin capacity program scope with
  | (.ok (some _), stopped) => stopped.runEventsOnto capacity program scope logged
  | _ => logged
  termination_by capacity - execution.gasUsed
  decreasing_by
    have := Execution.stepWithin_action _acts
    omega

/-- The log of `step`. -/
def Execution.stepEvents (program : Program) (scope : Scope) (execution : Execution) :
    List Event :=
  (execution.stepEventsOnto gasCapacity program scope #[]).toList

/-- The log of `run`. -/
def Execution.runEvents (program : Program) (scope : Scope) (execution : Execution) :
    List Event :=
  (execution.runEventsOnto gasCapacity program scope #[]).toList

end RobotScript
