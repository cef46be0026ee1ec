/-
Module: RobotScript.CharClass.Basic
Purpose: Character classes given as ascending tables of code ranges, and the look-up that stops
  at the first range beyond the code it is asked about.
Main exports: CodeRange, codeInRanges, AscendingRanges, codeInRanges_iff, ApartRanges
-/

namespace RobotScript

/-- A closed range of character codes: its first and its last code. -/
abbrev CodeRange := Nat × Nat

/-- Whether `code` lies in one of the ranges. The table has to be ascending, since the search gives
up at the first range that begins beyond `code`. -/
def codeInRanges : List CodeRange → Nat → Bool
  | [], _ => false
  | (first, last) :: rest, code =>
      if code < first then false
      else if code ≤ last then true
      else codeInRanges rest code

/-- Each range ends before the next one begins and after its own beginning. -/
def AscendingRanges : List CodeRange → Prop
  | [] => True
  | [(first, last)] => first ≤ last
  | (first, last) :: (first', last') :: rest =>
      first ≤ last ∧ last < first' ∧ AscendingRanges ((first', last') :: rest)

instance decidableAscendingRanges : (table : List CodeRange) → Decidable (AscendingRanges table)
  | [] => isTrue trivial
  | [(first, last)] => inferInstanceAs (Decidable (first ≤ last))
  | (first, last) :: (first', last') :: rest =>
      have := decidableAscendingRanges ((first', last') :: rest)
      inferInstanceAs (Decidable (first ≤ last ∧ last < first' ∧ _))

/-- In an ascending table every later range begins beyond the first one's end. -/
theorem AscendingRanges.last_lt {range : CodeRange} {table : List CodeRange}
    (ascending : AscendingRanges (range :: table)) :
    range.1 ≤ range.2 ∧ AscendingRanges table ∧ ∀ later ∈ table, range.2 < later.1 := by
  induction table generalizing range with
  | nil => exact ⟨ascending, trivial, fun _ member => nomatch member⟩
  | cons next rest inductionHypothesis =>
      obtain ⟨ordered, apart, tailAscending⟩ := ascending
      obtain ⟨nextOrdered, _, beyond⟩ := inductionHypothesis tailAscending
      refine ⟨ordered, tailAscending, fun later member => ?_⟩
      rcases List.mem_cons.mp member with rfl | inRest
      · exact apart
      · have := beyond later inRest
        omega

/-- On an ascending table the early exit loses nothing. -/
theorem codeInRanges_iff {table : List CodeRange} (ascending : AscendingRanges table) (code : Nat) :
    codeInRanges table code = true ↔ ∃ range ∈ table, range.1 ≤ code ∧ code ≤ range.2 := by
  induction table with
  | nil => simp [codeInRanges]
  | cons range rest inductionHypothesis =>
      obtain ⟨ordered, restAscending, beyond⟩ := ascending.last_lt
      have tailIff := inductionHypothesis restAscending
      unfold codeInRanges
      split
      -- The code lies before this range, hence before all later ones.
      · refine ⟨fun impossible => by simp at impossible, ?_⟩
        rintro ⟨found, member, lower, _⟩
        rcases List.mem_cons.mp member with rfl | inRest
        · omega
        · have := beyond found inRest
          omega
      · split
        · exact ⟨fun _ => ⟨range, List.mem_cons_self, by omega, by omega⟩, fun _ => rfl⟩
        -- The code lies beyond this range.
        · rw [tailIff]
          constructor
          · rintro ⟨found, member, bounds⟩
            exact ⟨found, List.mem_cons_of_mem _ member, bounds⟩
          · rintro ⟨found, member, bounds⟩
            rcases List.mem_cons.mp member with rfl | inRest
            · omega
            · exact ⟨found, inRest, bounds⟩

/-- No range of one table meets a range of the other. -/
def ApartRanges (left right : List CodeRange) : Prop :=
  ∀ first ∈ left, ∀ second ∈ right, first.2 < second.1 ∨ second.2 < first.1

instance decidableApartRanges (left right : List CodeRange) : Decidable (ApartRanges left right) :=
  inferInstanceAs (Decidable (∀ first ∈ left, ∀ second ∈ right, _))

theorem ApartRanges.not_both {left right : List CodeRange} (apart : ApartRanges left right)
    {code : Nat} (inLeft : ∃ range ∈ left, range.1 ≤ code ∧ code ≤ range.2) :
    ¬ ∃ range ∈ right, range.1 ≤ code ∧ code ≤ range.2 := by
  rintro ⟨second, inRight, above, below⟩
  obtain ⟨first, member, lower, upper⟩ := inLeft
  have := apart first member second inRight
  omega

end RobotScript
