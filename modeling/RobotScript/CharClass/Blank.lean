/-
Module: RobotScript.CharClass.Blank
Purpose: What separates tokens: the Unicode property White_Space as code ranges.
Main exports: blankRanges, isBlank, isBlank_iff
-/
import RobotScript.CharClass.Basic

namespace RobotScript

/-- The code ranges behind `isBlank`, ascending and apart from one another. -/
def blankRanges : List CodeRange :=
  [ (0x9, 0xD), (0x20, 0x20), (0x85, 0x85), (0xA0, 0xA0), (0x1680, 0x1680), (0x2000, 0x200A),
    (0x2028, 0x2029), (0x202F, 0x202F), (0x205F, 0x205F), (0x3000, 0x3000) ]

theorem blankRanges_ascending : AscendingRanges blankRanges := by
  decide +kernel

/-- Characters with the Unicode property White_Space: they separate tokens and mean nothing else. -/
def isBlank (c : Char) : Bool :=
  codeInRanges blankRanges c.toNat

/-- The table is read in full: the early exit of the look-up loses nothing. -/
theorem isBlank_iff (c : Char) :
    isBlank c = true ↔ ∃ range ∈ blankRanges, range.1 ≤ c.toNat ∧ c.toNat ≤ range.2 :=
  codeInRanges_iff blankRanges_ascending c.toNat

end RobotScript
