/-
Module: RobotScript.Json.Execution
Purpose: The JSON forms of values, scopes and executions, and the fields of log events.
Main exports: the `JsonForm` instances of Value, Scope, FrameKind, Frame and Execution;
  Event.fields
-/
import RobotScript.Execution.Event
import RobotScript.Json.Program

namespace RobotScript

/-- A value is written as a JSON truth value or integer. -/
instance : JsonForm Value where
  encode
    | .bool holds => encode holds
    | .int number => encode number
  decode json :=
    match (decode json : Option Bool) with
    | some holds => some (.bool holds)
    | none => (decode json).map Value.int

/-- Reads one binding of a scope. -/
def bindingOfField? (field : String × Json) : Option Binding :=
  (decode field.2).map fun value => (field.1, value)

instance : JsonForm Scope where
  encode scope :=
    .obj [("bindings", .obj (scope.bindings.map fun binding => (binding.1, encode binding.2)))]
  decode json :=
    match json.field? "bindings" with
    | some (.obj fields) => (fields.mapM bindingOfField?).map Scope.ofList
    | _ => none

/-- A kind that carries nothing is written as its bare name; an object with `null` under that name
is read as well. What the other two kinds carry has to be an object. -/
instance : JsonForm FrameKind where
  encode
    | .block => .str "Block"
    | .repeated remaining => .obj [("Repeat", .obj [("remaining", encode remaining)])]
    | .loop condition => .obj [("Loop", .obj [("condition", encode condition)])]
  decode
    | .str "Block" => some .block
    | json =>
        match json.variant? with
        | some ("Block", .null) => some .block
        | some ("Repeat", content) => (content.required? "remaining").map .repeated
        | some ("Loop", content) => (content.required? "condition").map .loop
        | _ => none

instance : JsonForm Frame where
  encode frame :=
    .obj [("block", encode frame.block), ("cursor", encode frame.cursor),
      ("kind", encode frame.kind)]
  decode json := do
    let block ← json.required? "block"
    let cursor ← json.required? "cursor"
    let kind ← json.required? "kind"
    return { block, cursor, kind }

/-- The frames are written outermost first. -/
instance : JsonForm Execution where
  encode execution :=
    .obj [("frames", encode execution.frames.reverse), ("finished", encode execution.finished),
      ("gas_used", encode execution.gasUsed), ("gas_limit", .ofOption execution.gasLimit)]
  decode json := do
    let frames : List Frame ← json.required? "frames"
    let finished ← json.required? "finished"
    let gasUsed ← json.required? "gas_used"
    let gasLimit ← json.optional? "gas_limit"
    return { frames := frames.reverse, finished, gasUsed, gasLimit }

/-- What an event tells beyond its title. -/
def Event.fields : Event → List (String × Json)
  | parsed blocks actions => [("blocks", encode blocks), ("actions", encode actions)]
  | parseFailed errors => [("errors", encode errors)]
  | reset => []
  | finished gasUsed => [("gas_used", encode gasUsed)]
  | action letter => [("action", encode letter)]
  | read reading => [("condition", encode reading.condition), ("holds", encode reading.holds)]
  | enter block depth => [("block", encode block), ("depth", encode depth)]
  | exit block depth => [("block", encode block), ("depth", encode depth)]

end RobotScript
