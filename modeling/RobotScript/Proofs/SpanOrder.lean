/-
Module: RobotScript.Proofs.SpanOrder
Purpose: Where tokens stand relative to each other, by offset and by line and column at once. The
  tokens of a text that is not too long follow each other without touching; so the span from the
  first to the last of some of them encloses the spans of all of them, and merging the spans of
  these two gives it.
Main exports: Place, Span.merge_eq_through, Span.Before, Span.Within, Span.Covers, Sequenced,
  Sequenced.merge_covers, Span.Covers.before, Span.Covers.within, Cut.sequenced, lex_sequenced
-/
import Mathlib.Data.Prod.Lex
import RobotScript.Proofs.ComplaintOrder

namespace RobotScript

/-! ### Places -/

/-- A line and a column, in the order of reading: by line first. -/
abbrev Place := Nat ×ₗ Nat

namespace Span

/-- Line and column of the first character. -/
def startPlace (span : Span) : Place :=
  toLex (span.startLine.toNat, span.startCol.toNat)

/-- Line and column of the last character. -/
def endPlace (span : Span) : Place :=
  toLex (span.endLine.toNat, span.endCol.toNat)

/-- The span from the start of the first to the end of the last. -/
def through (first last : Span) : Span :=
  ⟨first.startLine, first.startCol, last.endLine, last.endCol, first.offset⟩

/-- The first span ends before the second one starts. -/
structure Before (first second : Span) : Prop where
  offset : first.offset < second.offset
  place : first.endPlace < second.startPlace

/-- The inner span neither starts before the outer one nor ends after it. -/
structure Within (inner outer : Span) : Prop where
  offset : outer.offset ≤ inner.offset
  starts : outer.startPlace ≤ inner.startPlace
  ends : inner.endPlace ≤ outer.endPlace

theorem endsAfter_iff (left right : Span) :
    left.endsAfter right = true ↔ right.endPlace < left.endPlace := by
  simp only [endsAfter, endPlace, Prod.Lex.toLex_lt_toLex, Bool.or_eq_true, Bool.and_eq_true,
    decide_eq_true_eq, beq_iff_eq, UInt32.lt_iff_toNat_lt, UInt32.toNat_inj]
  rw [eq_comm]

theorem endPlace_inj {left right : Span} (same : left.endPlace = right.endPlace) :
    left.endLine = right.endLine ∧ left.endCol = right.endCol := by
  have coordinates := Prod.mk.inj (toLex_inj.mp same)
  exact ⟨UInt32.toNat_inj.mp coordinates.1, UInt32.toNat_inj.mp coordinates.2⟩

/-- Merged with one that neither starts nor ends earlier, a span goes on to the end of it. -/
theorem merge_eq_through {left right : Span} (starts : left.offset ≤ right.offset)
    (ends : left.endPlace ≤ right.endPlace) : left.merge right = left.through right := by
  have inOrder : ¬ right.offset < left.offset := Nat.not_lt.mpr starts
  simp only [merge, if_neg inOrder, through]
  by_cases later : right.endsAfter left = true
  · rw [if_pos later]
  · have notLater : ¬ left.endPlace < right.endPlace := fun less =>
      later ((endsAfter_iff right left).mpr less)
    obtain ⟨sameLine, sameCol⟩ := endPlace_inj (le_antisymm ends (not_lt.mp notLater))
    rw [if_neg later, sameLine, sameCol]

/-- The span goes from the first of the tokens to the last one. -/
def Covers (span : Span) (tokens : List Token) : Prop :=
  ∃ first last, tokens.head? = some first ∧ tokens.getLast? = some last ∧
    span = first.span.through last.span

theorem covers_singleton (token : Token) : token.span.Covers [token] :=
  ⟨token, token, rfl, rfl, rfl⟩

end Span

/-! ### Tokens in sequence -/

/-- No token ends before it starts, and each one ends before the next one starts. -/
structure Sequenced (tokens : List Token) : Prop where
  forward : ∀ token ∈ tokens, token.span.startPlace ≤ token.span.endPlace
  ordered : tokens.Pairwise fun first second => first.span.Before second.span

namespace Sequenced

variable {tokens : List Token}

theorem sublist {part : List Token} (sequenced : Sequenced tokens) (inside : part.Sublist tokens) :
    Sequenced part :=
  ⟨fun token member => sequenced.forward token (inside.subset member),
    sequenced.ordered.sublist inside⟩

theorem start_le (sequenced : Sequenced tokens) {first token : Token}
    (head : tokens.head? = some first) (member : token ∈ tokens) :
    first.span.offset ≤ token.span.offset ∧ first.span.startPlace ≤ token.span.startPlace := by
  obtain ⟨later, rfl⟩ := List.head?_eq_some_iff.mp head
  rcases List.mem_cons.mp member with rfl | behind
  · exact ⟨Nat.le_refl _, le_refl _⟩
  · have before := (List.pairwise_cons.mp sequenced.ordered).1 token behind
    have forward := sequenced.forward first List.mem_cons_self
    exact ⟨Nat.le_of_lt before.offset, forward.trans before.place.le⟩

theorem le_end (sequenced : Sequenced tokens) {last token : Token}
    (final : tokens.getLast? = some last) (member : token ∈ tokens) :
    token.span.endPlace ≤ last.span.endPlace := by
  obtain ⟨earlier, rfl⟩ := List.getLast?_eq_some_iff.mp final
  rcases List.mem_append.mp member with ahead | isLast
  · have before := (List.pairwise_append.mp sequenced.ordered).2.2 token ahead last
      (List.mem_singleton_self last)
    have forward := sequenced.forward last (List.mem_append_right _ (List.mem_singleton_self last))
    exact before.place.le.trans forward
  · rw [List.mem_singleton.mp isLast]

/-- Merging the spans of the first and the last token gives the span of all of them. -/
theorem merge_covers (sequenced : Sequenced tokens) {first last : Token}
    (head : tokens.head? = some first) (final : tokens.getLast? = some last) :
    (first.span.merge last.span).Covers tokens := by
  have starts := (sequenced.start_le head (List.mem_of_getLast? final)).1
  have ends := sequenced.le_end final (List.mem_of_head? head)
  exact ⟨first, last, head, final, Span.merge_eq_through starts ends⟩

end Sequenced

namespace Span.Covers

variable {inner outer : Span} {part whole : List Token}

/-- What covers some of the tokens lies within what covers all of them. -/
theorem within (sequenced : Sequenced whole) (covers : outer.Covers whole)
    (covered : inner.Covers part) (inside : part ⊆ whole) : inner.Within outer := by
  obtain ⟨first, last, head, final, rfl⟩ := covers
  obtain ⟨innerFirst, innerLast, innerHead, innerFinal, rfl⟩ := covered
  have starts := sequenced.start_le head (inside (List.mem_of_head? innerHead))
  have ends := sequenced.le_end final (inside (List.mem_of_getLast? innerFinal))
  exact ⟨starts.1, starts.2, ends⟩

/-- What covers the tokens in front comes before what covers tokens behind them. -/
theorem before {front back : List Token} (sequenced : Sequenced (front ++ back))
    {first second : Span} (covers : first.Covers front) (covered : second.Covers part)
    (inside : part ⊆ back) : first.Before second := by
  obtain ⟨frontFirst, frontLast, frontHead, frontFinal, rfl⟩ := covers
  obtain ⟨partFirst, partLast, partHead, partFinal, rfl⟩ := covered
  have behind := inside (List.mem_of_head? partHead)
  have before := (List.pairwise_append.mp sequenced.ordered).2.2
  have starts := (sequenced.sublist (List.sublist_append_left front back)).start_le frontHead
    (List.mem_of_getLast? frontFinal)
  have ends := before frontLast (List.mem_of_getLast? frontFinal) partFirst behind
  exact ⟨Nat.lt_of_le_of_lt starts.1 ends.offset, ends.place⟩

end Span.Covers

/-! ### The tokens of a text -/

/-- Where reading has got to, by line and column. -/
def Position.place (position : Position) : Place :=
  toLex (position.line, position.col)

theorem Position.place_lt_next (position : Position) (c : Char) :
    position.place < (position.next c).place := by
  simp only [place, next, Prod.Lex.toLex_lt_toLex]
  split
  · exact Or.inl (Nat.lt_succ_self _)
  · exact Or.inr ⟨rfl, Nat.lt_succ_self _⟩

theorem Position.place_le_advance (position : Position) (cs : List Char) :
    position.place ≤ (position.advance cs).place := by
  induction cs generalizing position with
  | nil => exact le_refl _
  | cons c later inductionHypothesis =>
      exact (position.place_lt_next c).le.trans (inductionHypothesis (position.next c))

theorem Span.StartsAfter.startPlace_eq {span : Span} {before : List Char}
    (starts : span.StartsAfter before) :
    span.startPlace = (Position.start.advance before).place := by
  rw [startPlace, starts.startLine, starts.startCol, Position.start_advance, Position.place]

/-- The token of a piece stands within the piece. -/
theorem Piece.Fits.places {piece : Piece} {before after : List Char}
    (fits : piece.Fits before after) (short : (before ++ piece.chars).length + 1 < UInt32.size) :
    (Position.start.advance before).place ≤ piece.token.span.startPlace ∧
      piece.token.span.startPlace ≤ piece.token.span.endPlace ∧
      piece.token.span.endPlace < (Position.start.advance (before ++ piece.chars)).place := by
  obtain ⟨begins, sameLine, lastCol⟩ := fits.placed short
  obtain ⟨named, scanned⟩ := fits.scanned
  have nonempty := List.length_pos_iff.mpr scanned.ne_nil
  have oneLine : '\n' ∉ piece.lexeme := by
    intro member
    cases scanned.noBlank '\n' member
  have startLine : piece.token.span.startLine.toNat =
      (Position.start.advance (before ++ piece.blanks)).line :=
    congrArg (fun place => (ofLex place).1) begins.startPlace_eq
  have startCol : piece.token.span.startCol.toNat =
      (Position.start.advance (before ++ piece.blanks)).col :=
    congrArg (fun place => (ofLex place).2) begins.startPlace_eq
  obtain ⟨stopLine, stopCol⟩ :=
    (Position.start.advance (before ++ piece.blanks)).advance_within_line oneLine
  refine ⟨?_, ?_, ?_⟩
  · rw [begins.startPlace_eq, Position.advance_append]
    exact Position.place_le_advance _ _
  · rw [Span.startPlace, Span.endPlace, Prod.Lex.toLex_le_toLex, sameLine, lastCol]
    exact Or.inr ⟨rfl, by dsimp only; omega⟩
  · rw [chars, ← List.append_assoc, Position.advance_append, Position.place, Span.endPlace,
      Prod.Lex.toLex_lt_toLex, stopLine, stopCol, sameLine, lastCol, startLine, startCol]
    exact Or.inr ⟨rfl, by dsimp only; omega⟩

namespace Cut

variable {before trailing : List Char} {pieces : List Piece}

/-- The tokens of the pieces stand behind the text before them, one behind the other. -/
theorem places (cut : Cut before pieces trailing)
    (short : (before ++ Piece.charsOfAll pieces).length + 1 < UInt32.size) :
    (∀ token ∈ pieces.map Piece.token,
      (Position.start.advance before).place ≤ token.span.startPlace ∧
        token.span.startPlace ≤ token.span.endPlace) ∧
      (pieces.map Piece.token).Pairwise fun first second =>
        first.span.endPlace < second.span.startPlace := by
  induction cut with
  | blanks => exact ⟨List.forall_mem_nil _, .nil⟩
  | @piece before trailing piece pieces fits later inductionHypothesis =>
      rw [Piece.charsOfAll, List.flatMap_cons, ← List.append_assoc] at short
      have shorter : (before ++ piece.chars).length + 1 < UInt32.size := by
        rw [List.length_append] at short
        omega
      obtain ⟨starts, forward, ends⟩ := fits.places shorter
      obtain ⟨behind, ordered⟩ := inductionHypothesis short
      have onward : (Position.start.advance before).place ≤
          (Position.start.advance (before ++ piece.chars)).place := by
        rw [Position.advance_append]
        exact Position.place_le_advance _ _
      rw [List.map_cons, List.forall_mem_cons, List.pairwise_cons]
      refine ⟨⟨⟨starts, forward⟩, fun token member => ?_⟩, fun token member => ?_, ordered⟩
      · exact ⟨onward.trans (behind token member).1, (behind token member).2⟩
      · exact ends.trans_le (behind token member).1

/-- Every piece takes a character at least. -/
theorem length_le (cut : Cut before pieces trailing) :
    pieces.length ≤ (Piece.charsOfAll pieces).length := by
  induction cut with
  | blanks => exact Nat.le_refl _
  | @piece before trailing piece pieces fits later inductionHypothesis =>
      obtain ⟨named, scanned⟩ := fits.scanned
      have nonempty := List.length_pos_iff.mpr scanned.ne_nil
      rw [Piece.charsOfAll, List.flatMap_cons, List.length_append, Piece.chars, List.length_append,
        List.length_cons]
      rw [Piece.charsOfAll] at inductionHypothesis
      omega

end Cut

/-- The tokens that are read of a text of fewer than 2^32 - 1 characters stand in sequence, and there
are no more of them than characters. -/
theorem lex_sequenced (text : String) (short : text.length < 2 ^ 32 - 1) :
    Sequenced (TokenStream.ofList (lex text)).tokens ∧
      (TokenStream.ofList (lex text)).tokens.length ≤ text.length := by
  obtain ⟨pieces, trailing, whole, tokens, cut⟩ := lex_cut text
  have size : UInt32.size = 2 ^ 32 := rfl
  have fewer : (Piece.charsOfAll pieces).length ≤ text.length := by
    rw [← String.length_toList, ← whole, List.length_append]
    exact Nat.le_add_right _ _
  have split := (TokenStream.ofList_lex text).1
  have same : (TokenStream.ofList (lex text)).tokens = pieces.map Piece.token :=
    (List.append_inj' (split.symm.trans tokens) rfl).1
  have inPlace := lex_inPlace text
  rw [split, same] at inPlace
  have offsets := (List.pairwise_append.mp inPlace).1
  obtain ⟨behind, places⟩ := cut.places (by rw [List.nil_append]; omega)
  rw [same, List.length_map]
  refine ⟨⟨fun token member => (behind token member).2, ?_⟩, cut.length_le.trans fewer⟩
  exact (offsets.and places).imp fun both => ⟨both.1, both.2⟩

end RobotScript
