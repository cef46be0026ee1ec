/-
Module: RobotScript.Json.Basic
Purpose: JSON values, the look-ups that reading a value from JSON needs, and their compact text.
Main exports: Json, Json.field?, Json.variant?, Json.natBelow?, Json.intBetween?, Json.render
-/

namespace RobotScript

/-- A JSON value. The fields of an object keep their order. -/
inductive Json where
  | null
  | bool (value : Bool)
  | int (value : Int)
  /-- A number written with a fraction: the digits without the point, and how many of them stand
  behind it. -/
  | decimal (digits : Int) (places : Nat)
  | str (text : String)
  | arr (items : List Json)
  | obj (fields : List (String × Json))
  deriving Repr, Inhabited

namespace Json

/-! ### Looking into values -/

/-- The field of an object with this key. -/
def field? (key : String) : Json → Option Json
  | obj fields => (fields.find? fun field => field.1 = key).map Prod.snd
  | _ => none

/-- The key and the content of an object that has exactly one field. -/
def variant? : Json → Option (String × Json)
  | obj [field] => some field
  | _ => none

/-- An integer that is not negative and lies below the bound. -/
def natBelow? (bound : Nat) : Json → Option Nat
  | int value => if 0 ≤ value ∧ value < bound then some value.toNat else none
  | _ => none

/-- An integer that lies between the two bounds, both included. -/
def intBetween? (low high : Int) : Json → Option Int
  | int value => if low ≤ value ∧ value ≤ high then some value else none
  | _ => none

/-! ### Text -/

/-- A hexadecimal digit, in lower case. -/
def hexDigit (value : Nat) : Char :=
  if value < 10 then Char.ofNat ('0'.toNat + value) else Char.ofNat ('a'.toNat + (value - 10))

/-- A character as it stands between quotes: quotes, backslashes and control characters are
escaped, and nothing else. -/
def escape (c : Char) : String :=
  match c with
  | '"' => "\\\""
  | '\\' => "\\\\"
  | '\n' => "\\n"
  | '\r' => "\\r"
  | '\t' => "\\t"
  | _ =>
      if c.toNat = 0x08 then "\\b"
      else if c.toNat = 0x0C then "\\f"
      else if c.toNat < 0x20 then
        "\\u00" ++ String.ofList [hexDigit (c.toNat / 16), hexDigit (c.toNat % 16)]
      else String.singleton c

/-- A string between quotes, put behind what has been written. -/
def quoteOnto (written : String) (text : String) : String :=
  text.toList.foldl (fun written c => written ++ escape c) (written ++ "\"") ++ "\""

/-- A number with a fraction: at least one digit stands before the point. -/
def renderDecimal (digits : Int) (places : Nat) : String :=
  let shown := (toString digits.natAbs).toList
  let padded := List.replicate (places + 1 - shown.length) '0' ++ shown
  let whole := padded.take (padded.length - places)
  let fraction := padded.drop (padded.length - places)
  (if digits < 0 then "-" else "") ++ String.ofList whole ++
    (if places = 0 then "" else "." ++ String.ofList fraction)

mutual

/-- Puts the text of a value behind what has been written. -/
def renderOnto (written : String) : Json → String
  | null => written ++ "null"
  | bool true => written ++ "true"
  | bool false => written ++ "false"
  | int value => written ++ toString value
  | decimal digits places => written ++ renderDecimal digits places
  | str text => quoteOnto written text
  | arr [] => written ++ "[]"
  | arr (item :: items) => renderItemsOnto (renderOnto (written ++ "[") item) items
  | obj [] => written ++ "\x7b\x7d"
  | obj ((key, value) :: fields) =>
      renderFieldsOnto (renderOnto (quoteOnto (written ++ "\x7b") key ++ ":") value) fields

/-- Puts the remaining items of an array behind what has been written. -/
def renderItemsOnto (written : String) : List Json → String
  | [] => written ++ "]"
  | item :: items => renderItemsOnto (renderOnto (written ++ ",") item) items

/-- Puts the remaining fields of an object behind what has been written. -/
def renderFieldsOnto (written : String) : List (String × Json) → String
  | [] => written ++ "\x7d"
  | (key, value) :: fields =>
      renderFieldsOnto (renderOnto (quoteOnto (written ++ ",") key ++ ":") value) fields

end

/-- The text of a value, without any blanks between its parts. -/
def render (json : Json) : String :=
  renderOnto "" json

end Json

end RobotScript
