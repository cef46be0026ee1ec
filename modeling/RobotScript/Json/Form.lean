/-
Module: RobotScript.Json.Form
Purpose: What it means for a type to have a JSON form, and the forms of the basic types.
  Reading an object looks up the fields it needs and ignores all others. An optional field may be
  missing or null. Integers have to be written without a fraction and to fit their type. Records
  are read from objects alone: the other spelling of a record, an array of its contents in the
  order of the fields, is left out and refused.
Main exports: JsonForm, Json.required?, Json.optional?, Json.counter?, Json.ofOption
-/
import RobotScript.Json.Basic

namespace RobotScript

/-- A type whose values are written to and read from JSON. A record, and what a variant carries, is
read from an object with its fields as keys, never from an array of their contents. -/
class JsonForm (α : Type) where
  encode : α → Json
  decode : Json → Option α

export JsonForm (encode decode)

/-- Reading gives back what was written. -/
def JsonForm.RoundTrips {α : Type} [JsonForm α] (value : α) : Prop :=
  decode (encode value) = some value

namespace Json

/-- The content of a field that has to be there. -/
def required? {α : Type} [JsonForm α] (key : String) (json : Json) : Option α :=
  (json.field? key).bind decode

/-- The content of a field that may be missing or null. -/
def optional? {α : Type} [JsonForm α] (key : String) (json : Json) : Option (Option α) :=
  match json.field? key with
  | none => some none
  | some null => some none
  | some content => (decode content).map some

/-- A value, or null if there is none. -/
def ofOption {α : Type} [JsonForm α] : Option α → Json
  | none => null
  | some value => encode value

end Json

/-! ### Basic types -/

instance : JsonForm Bool where
  encode := .bool
  decode
    | .bool value => some value
    | _ => none

instance : JsonForm String where
  encode := .str
  decode
    | .str text => some text
    | _ => none

/-- A character is written as a string of just that character. -/
instance : JsonForm Char where
  encode c := .str (String.singleton c)
  decode
    | .str text =>
        match text.toList with
        | [c] => some c
        | _ => none
    | _ => none

instance : JsonForm UInt16 where
  encode value := .int value.toNat
  decode json := (json.natBelow? UInt16.size).map UInt16.ofNat

instance : JsonForm UInt32 where
  encode value := .int value.toNat
  decode json := (json.natBelow? UInt32.size).map UInt32.ofNat

instance : JsonForm Int32 where
  encode value := .int value.toInt
  decode json := (json.intBetween? Int32.minValue.toInt Int32.maxValue.toInt).map Int32.ofInt

instance : JsonForm Int64 where
  encode value := .int value.toInt
  decode json := (json.intBetween? Int64.minValue.toInt Int64.maxValue.toInt).map Int64.ofInt

/-- Natural numbers are counters and places in a text: they have to fit into 64 bits to be read. -/
instance : JsonForm Nat where
  encode value := .int value
  decode json := json.natBelow? UInt64.size

instance {α : Type} [JsonForm α] : JsonForm (List α) where
  encode values := .arr (values.map encode)
  decode
    | .arr items => items.mapM decode
    | _ => none

instance {α : Type} [JsonForm α] : JsonForm (Array α) where
  encode values := encode values.toList
  decode json := (decode json : Option (List α)).map List.toArray

end RobotScript
