/-
Module: RobotScript.Value
Purpose: What a scope holds: what a sensor says, or a counter of the host.
Main exports: Value, Value.ofInt32, Value.ofUInt32, Value.isTruthy, Value.display
-/

namespace RobotScript

/-- A truth value or a signed 64-bit integer. -/
inductive Value where
  | bool (holds : Bool)
  | int (number : Int64)
  deriving Repr, DecidableEq

namespace Value

/-- What an unset name stands for. -/
def unset : Value := bool false

instance : Inhabited Value := ⟨unset⟩

/-- A signed 32-bit integer as a value. -/
def ofInt32 (number : Int32) : Value := int number.toInt64

/-- An unsigned 32-bit integer as a value. -/
def ofUInt32 (number : UInt32) : Value := int (Int64.ofNat number.toNat)

/-- As a condition an integer holds unless it is zero. -/
def isTruthy : Value → Bool
  | bool holds => holds
  | int number => number != 0

/-- Either `true` or `false`, or the integer in decimals. -/
def display : Value → String
  | bool true => "true"
  | bool false => "false"
  | int number => toString number.toInt

end Value

end RobotScript
