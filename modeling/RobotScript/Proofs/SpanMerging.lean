/-
Module: RobotScript.Proofs.SpanMerging
Purpose: Merging more than two spans. The start of a merged span is that of the span of smaller
  offset, the left one if they agree, and its end is the later one of the two; so it does not matter
  how merges are grouped. Where spans of equal offset start at the same place, their order does not
  matter either: the result is the hull of all of them.
Main exports: Span.start_merge, Span.endPlace_merge, Span.merge_assoc, Span.Grouping, Span.Hull,
  Span.Grouping.merged_hull, Span.Hull.unique, merging_gives_hull
-/
import RobotScript.Proofs.SpanOrder

namespace RobotScript

namespace Span

/-! ### Two and three spans -/

/-- Line, column and offset of the first character. -/
def start (span : Span) : UInt32 × UInt32 × Nat :=
  (span.startLine, span.startCol, span.offset)

/-- A span is known by where it starts and where it ends. -/
theorem eq_of_start_of_end {one other : Span} (starts : one.start = other.start)
    (ends : one.endPlace = other.endPlace) : one = other := by
  obtain ⟨sameLine, sameCol⟩ := endPlace_inj ends
  simp only [start, Prod.mk.injEq] at starts
  obtain ⟨startLine, startCol, offset⟩ := starts
  cases one
  cases other
  simp_all only

/-- The left one of two spans gives the start unless the right one has the smaller offset. -/
theorem start_merge (left right : Span) :
    (left.merge right).start = if right.offset < left.offset then right.start else left.start := by
  simp only [merge, start]
  split
  · rfl
  · rfl

/-- The later end wins, whichever span it belongs to. -/
theorem endPlace_merge (left right : Span) :
    (left.merge right).endPlace = max left.endPlace right.endPlace := by
  -- `merge` asks whether the span that starts second ends after the other one.
  have ends (first second : Span) :
      (if second.endsAfter first then second else first).endPlace =
        max first.endPlace second.endPlace := by
    split
    · rename_i later
      exact (max_eq_right ((endsAfter_iff second first).mp later).le).symm
    · rename_i notLater
      have notAfter := mt (endsAfter_iff second first).mpr notLater
      exact (max_eq_left (not_lt.mp notAfter)).symm
  by_cases earlier : right.offset < left.offset
  · have merged : (left.merge right).endPlace =
        (if left.endsAfter right then left else right).endPlace := by
      simp only [merge, if_pos earlier, endPlace]
    rw [merged, ends, max_comm]
  · have merged : (left.merge right).endPlace =
        (if right.endsAfter left then right else left).endPlace := by
      simp only [merge, if_neg earlier, endPlace]
    rw [merged, ends]

theorem merge_assoc (one two three : Span) :
    (one.merge two).merge three = one.merge (two.merge three) := by
  apply eq_of_start_of_end
  · simp only [start_merge, offset_merge]
    grind
  · simp only [endPlace_merge, max_assoc]

/-! ### Any number of spans -/

/-- A way to merge spans, two at a time. -/
inductive Grouping where
  | single (span : Span)
  | pair (left right : Grouping)
  deriving Repr, Inhabited

namespace Grouping

/-- The spans that are merged, from left to right. -/
def spans : Grouping → List Span
  | single span => [span]
  | pair left right => left.spans ++ right.spans

/-- What merging them this way gives. -/
def merged : Grouping → Span
  | single span => span
  | pair left right => left.merged.merge right.merged

/-- Merges a list from the right. -/
def chain (head : Span) : List Span → Grouping
  | [] => single head
  | next :: later => pair (single head) (chain next later)

theorem spans_chain (head : Span) (later : List Span) : (chain head later).spans = head :: later := by
  induction later generalizing head with
  | nil => rfl
  | cons next later inductionHypothesis =>
      rw [chain, spans, inductionHypothesis]
      rfl

end Grouping

/-- The span starts as one of the spans of smallest offset does, and ends as one that ends last. -/
structure Hull (hull : Span) (spans : List Span) : Prop where
  first : ∃ span ∈ spans, hull.start = span.start
  starts : ∀ span ∈ spans, hull.offset ≤ span.offset
  last : ∃ span ∈ spans, hull.endPlace = span.endPlace
  ends : ∀ span ∈ spans, span.endPlace ≤ hull.endPlace

theorem hull_singleton (span : Span) : span.Hull [span] := by
  have only : span ∈ [span] := List.mem_singleton_self span
  refine ⟨⟨span, only, rfl⟩, ?_, ⟨span, only, rfl⟩, ?_⟩
  · exact List.forall_mem_singleton.mpr (Nat.le_refl _)
  · exact List.forall_mem_singleton.mpr (le_refl _)

namespace Hull

variable {hull other : Span} {spans more : List Span}

theorem merge (one : hull.Hull spans) (two : other.Hull more) :
    (hull.merge other).Hull (spans ++ more) := by
  refine ⟨?_, ?_, ?_, ?_⟩
  · rw [start_merge]
    split
    · obtain ⟨span, member, same⟩ := two.first
      exact ⟨span, List.mem_append_right spans member, same⟩
    · obtain ⟨span, member, same⟩ := one.first
      exact ⟨span, List.mem_append_left more member, same⟩
  · rw [offset_merge, List.forall_mem_append]
    constructor
    · exact fun span member => (Nat.min_le_left _ _).trans (one.starts span member)
    · exact fun span member => (Nat.min_le_right _ _).trans (two.starts span member)
  · rw [endPlace_merge]
    rcases max_choice hull.endPlace other.endPlace with left | right
    · obtain ⟨span, member, same⟩ := one.last
      exact ⟨span, List.mem_append_left more member, left.trans same⟩
    · obtain ⟨span, member, same⟩ := two.last
      exact ⟨span, List.mem_append_right spans member, right.trans same⟩
  · rw [endPlace_merge, List.forall_mem_append]
    constructor
    · exact fun span member => (one.ends span member).trans (le_max_left _ _)
    · exact fun span member => (two.ends span member).trans (le_max_right _ _)

/-- The order of the spans does not matter to a hull. -/
theorem perm (one : hull.Hull spans) (same : spans.Perm more) : hull.Hull more := by
  obtain ⟨⟨first, isFirst, start⟩, starts, ⟨last, isLast, ending⟩, ends⟩ := one
  refine ⟨⟨first, same.mem_iff.mp isFirst, start⟩, ?_, ⟨last, same.mem_iff.mp isLast, ending⟩, ?_⟩
  · exact fun span member => starts span (same.mem_iff.mpr member)
  · exact fun span member => ends span (same.mem_iff.mpr member)

/-- Where spans of equal offset start at the same place, there is only one hull. -/
theorem unique (one : hull.Hull spans) (two : other.Hull spans)
    (agree : ∀ left ∈ spans, ∀ right ∈ spans, left.offset = right.offset →
      left.start = right.start) : hull = other := by
  obtain ⟨first, isFirst, start⟩ := one.first
  obtain ⟨otherFirst, isOtherFirst, otherStart⟩ := two.first
  have offset : hull.offset = first.offset := congrArg (·.2.2) start
  have otherOffset : other.offset = otherFirst.offset := congrArg (·.2.2) otherStart
  have sameOffset : first.offset = otherFirst.offset := by
    have below := one.starts otherFirst isOtherFirst
    have above := two.starts first isFirst
    omega
  obtain ⟨last, isLast, ending⟩ := one.last
  obtain ⟨otherLast, isOtherLast, otherEnding⟩ := two.last
  apply eq_of_start_of_end
  · rw [start, otherStart, agree first isFirst otherFirst isOtherFirst sameOffset]
  · apply le_antisymm
    · exact ending.le.trans (two.ends last isLast)
    · exact otherEnding.le.trans (one.ends otherLast isOtherLast)

end Hull

/-- However spans are grouped, merging them gives a hull of them. -/
theorem Grouping.merged_hull (grouping : Grouping) : grouping.merged.Hull grouping.spans := by
  induction grouping with
  | single span => exact hull_singleton span
  | pair left right leftHull rightHull => exact leftHull.merge rightHull

end Span

/-- Merging spans is associative. If of some spans those of equal offset start at the same place, then
merging all of them, in any order and grouped in any way, gives one and the same span: from the start
of the one of smallest offset to the end of the one that ends last. -/
theorem merging_gives_hull :
    (∀ one two three : Span, (one.merge two).merge three = one.merge (two.merge three)) ∧
    ∀ spans : List Span, spans ≠ [] →
      (∀ left ∈ spans, ∀ right ∈ spans, left.offset = right.offset →
        left.startLine = right.startLine ∧ left.startCol = right.startCol) →
      ∃ first ∈ spans, ∃ last ∈ spans,
        (∀ span ∈ spans, first.offset ≤ span.offset) ∧
        (∀ span ∈ spans, span.endPlace ≤ last.endPlace) ∧
        ∀ grouping : Span.Grouping, grouping.spans.Perm spans →
          grouping.merged = first.through last := by
  refine ⟨Span.merge_assoc, ?_⟩
  intro spans nonempty agree
  have sameStart : ∀ left ∈ spans, ∀ right ∈ spans, left.offset = right.offset →
      left.start = right.start := by
    intro left isLeft right isRight sameOffset
    obtain ⟨sameLine, sameCol⟩ := agree left isLeft right isRight sameOffset
    rw [Span.start, sameLine, sameCol, sameOffset, Span.start]
  -- One way of grouping them tells which span comes first and which ends last.
  obtain ⟨head, later, rfl⟩ := List.exists_cons_of_ne_nil nonempty
  have hull := (Span.Grouping.chain head later).merged_hull
  rw [Span.Grouping.spans_chain] at hull
  obtain ⟨first, isFirst, start⟩ := hull.first
  obtain ⟨last, isLast, ending⟩ := hull.last
  have through : (Span.Grouping.chain head later).merged = first.through last :=
    Span.eq_of_start_of_end start ending
  rw [through] at hull
  refine ⟨first, isFirst, last, isLast, hull.starts, hull.ends, ?_⟩
  intro grouping reordered
  exact (grouping.merged_hull.perm reordered).unique hull sameStart

/-- A word, the statement that it begins, and the brace on a later line that closes it, merged in two
ways. -/
theorem merging_gives_hull_of_three :
    let word : Span := ⟨1, 3, 1, 4, 2⟩
    let statement : Span := ⟨1, 3, 2, 6, 2⟩
    let brace : Span := ⟨3, 1, 3, 1, 17⟩
    let backward : Span.Grouping := .pair (.single brace) (.pair (.single statement) (.single word))
    let forward : Span.Grouping := .pair (.pair (.single word) (.single statement)) (.single brace)
    backward.merged = forward.merged ∧ forward.merged = ⟨1, 3, 3, 1, 2⟩ := by
  intro word statement brace backward forward
  have agree : ∀ left ∈ [word, statement, brace], ∀ right ∈ [word, statement, brace],
      left.offset = right.offset →
        left.startLine = right.startLine ∧ left.startCol = right.startCol := by
    decide
  obtain ⟨first, -, last, -, -, -, same⟩ :=
    merging_gives_hull.2 [word, statement, brace] (List.cons_ne_nil _ _) agree
  have reversed : backward.spans.Perm [word, statement, brace] :=
    List.reverse_perm [word, statement, brace]
  exact ⟨(same backward reversed).trans (same forward (.refl _)).symm, by decide⟩

/-- Spans of equal offset that start at different places do not merge to the same span both ways. -/
example :
    let left : Span := ⟨1, 3, 1, 3, 2⟩
    let right : Span := ⟨2, 1, 2, 1, 2⟩
    left.merge right ≠ right.merge left := by
  decide

end RobotScript
