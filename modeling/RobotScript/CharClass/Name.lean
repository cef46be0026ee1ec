/-
Module: RobotScript.CharClass.Name
Purpose: The characters a word may be continued with.
Main exports: isNameChar, isNameChar_of_isAlphabetic, isNameChar_of_isDigit,
  isDigit_eq_false_of_isAlphabetic, isBlank_eq_false_of_isNameChar
-/
import RobotScript.CharClass.Alphabetic
import RobotScript.CharClass.Blank
import RobotScript.CharClass.Numeric

namespace RobotScript

/-- A word begins with a letter and goes on with letters, numerals of any writing system and
underscores. -/
def isNameChar (c : Char) : Bool :=
  isAlphabetic c || isNumeric c || c == '_'

/-- Every letter can continue a word. -/
theorem isNameChar_of_isAlphabetic {c : Char} (letter : isAlphabetic c = true) :
    isNameChar c = true := by
  simp [isNameChar, letter]

theorem isDigit_iff (c : Char) :
    c.isDigit = true ↔ ∃ range ∈ [(0x30, 0x39)], range.1 ≤ c.toNat ∧ c.toNat ≤ range.2 := by
  simp [Char.isDigit, UInt32.le_iff_toNat_le]

/-- So can every digit. -/
theorem isNameChar_of_isDigit {c : Char} (digit : c.isDigit = true) : isNameChar c = true := by
  obtain ⟨range, member, bounds⟩ := (isDigit_iff c).mp digit
  have inTable : range ∈ numericRanges := by
    rw [List.mem_singleton.mp member]
    exact List.mem_cons_self
  have numeral : isNumeric c = true := (isNumeric_iff c).mpr ⟨range, inTable, bounds⟩
  simp [isNameChar, numeral]

/-- No digit is a letter. -/
theorem isDigit_eq_false_of_isAlphabetic {c : Char} (letter : isAlphabetic c = true) :
    c.isDigit = false := by
  have apart : ApartRanges [(0x30, 0x39)] alphabeticRanges := by decide +kernel
  cases digit : c.isDigit with
  | false => rfl
  | true =>
      exact absurd ((isAlphabetic_iff c).mp letter) (apart.not_both ((isDigit_iff c).mp digit))

theorem blankRanges_apart :
    ApartRanges blankRanges alphabeticRanges ∧ ApartRanges blankRanges numericRanges := by
  decide +kernel

/-- What continues a word is no blank. -/
theorem isBlank_eq_false_of_isNameChar {c : Char} (continues : isNameChar c = true) :
    isBlank c = false := by
  cases blank : isBlank c with
  | false => rfl
  | true =>
      have inTable := (isBlank_iff c).mp blank
      simp only [isNameChar, Bool.or_eq_true, beq_iff_eq] at continues
      rcases continues with (letter | numeral) | underscore
      · exact absurd ((isAlphabetic_iff c).mp letter) (blankRanges_apart.1.not_both inTable)
      · exact absurd ((isNumeric_iff c).mp numeral) (blankRanges_apart.2.not_both inTable)
      · subst underscore
        cases blank

end RobotScript
