/-
Module: RobotScript.Proofs.BraceMatching
Purpose: Which braces of a list of tokens belong together. Two braces match if what stands between
  them is balanced; a scan that keeps the open braces on a stack finds exactly the ones that match
  none.
Main exports: Balanced, Matched, UnmatchedOpening, UnmatchedClosing, Unmatched, Braces, bracesOf,
  Balanced.readAll_eq, bracesOf_unmatched
-/
import Mathlib.Data.List.Induction
import RobotScript.Token.Basic

namespace RobotScript

/-! ### Matching -/

/-- Whether the token is one of the two braces. -/
def TokenKind.isBrace : TokenKind → Bool
  | openBrace => true
  | closeBrace => true
  | _ => false

/-- Tokens whose braces pair up among themselves. -/
inductive Balanced : List Token → Prop where
  | nil : Balanced []
  | other {token : Token} (noBrace : token.kind.isBrace = false) {rest : List Token}
      (later : Balanced rest) : Balanced (token :: rest)
  | pair (opening closing : Span) {inside rest : List Token} (inner : Balanced inside)
      (later : Balanced rest) :
      Balanced (⟨.openBrace, opening⟩ :: (inside ++ ⟨.closeBrace, closing⟩ :: rest))

/-- The tokens at the two places are an opening brace and the closing brace that belongs to it. -/
def Matched (tokens : List Token) (first last : Nat) : Prop :=
  ∃ before opening inside closing after,
    tokens = before ++ ⟨.openBrace, opening⟩ :: (inside ++ ⟨.closeBrace, closing⟩ :: after) ∧
      Balanced inside ∧ before.length = first ∧ before.length + 1 + inside.length = last

/-- A brace of a list of tokens: which token it is, and where that token was read. -/
structure Brace where
  index : Nat
  span : Span
  deriving Repr, Inhabited, DecidableEq

/-- An opening brace that no closing brace belongs to. -/
structure UnmatchedOpening (tokens : List Token) (brace : Brace) : Prop where
  stands : tokens[brace.index]? = some ⟨.openBrace, brace.span⟩
  alone : ∀ last, ¬ Matched tokens brace.index last

/-- A closing brace that belongs to no opening brace. -/
structure UnmatchedClosing (tokens : List Token) (brace : Brace) : Prop where
  stands : tokens[brace.index]? = some ⟨.closeBrace, brace.span⟩
  alone : ∀ first, ¬ Matched tokens first brace.index

/-- The braces without a partner: the closing ones in the order of the tokens, the opening ones
from the last to the first. -/
structure Unmatched (tokens : List Token) (closing opening : List Brace) : Prop where
  closing_ordered : closing.Pairwise fun first second => first.index < second.index
  mem_closing : ∀ brace, brace ∈ closing ↔ UnmatchedClosing tokens brace
  opening_ordered : opening.Pairwise fun first second => second.index < first.index
  mem_opening : ∀ brace, brace ∈ opening ↔ UnmatchedOpening tokens brace

theorem Balanced.append {first second : List Token} (former : Balanced first)
    (latter : Balanced second) : Balanced (first ++ second) := by
  induction former with
  | nil => exact latter
  | other noBrace later inductionHypothesis => exact .other noBrace inductionHypothesis
  | pair opening closing inner later innerHypothesis inductionHypothesis =>
      simpa using Balanced.pair opening closing inner inductionHypothesis

theorem Balanced.of_noBrace {tokens : List Token}
    (noBrace : ∀ token ∈ tokens, token.kind.isBrace = false) : Balanced tokens := by
  induction tokens with
  | nil => exact .nil
  | cons token rest inductionHypothesis =>
      rw [List.forall_mem_cons] at noBrace
      exact .other noBrace.1 (inductionHypothesis noBrace.2)

/-! ### The scan -/

/-- What a scan has found: how many tokens it has read, the closing braces that came while none was
open, in their order, and the braces that are open, innermost first. -/
structure Braces where
  count : Nat
  closing : List Brace
  opening : List Brace
  deriving Repr, Inhabited, DecidableEq

namespace Braces

/-- Reads one token. -/
def read (braces : Braces) (token : Token) : Braces :=
  let brace : Brace := ⟨braces.count, token.span⟩
  match token.kind, braces.opening with
  | .openBrace, opening => ⟨braces.count + 1, braces.closing, brace :: opening⟩
  | .closeBrace, [] => ⟨braces.count + 1, braces.closing ++ [brace], []⟩
  | .closeBrace, _ :: outer => ⟨braces.count + 1, braces.closing, outer⟩
  | _, opening => ⟨braces.count + 1, braces.closing, opening⟩

/-- Reads token after token. -/
def readAll (braces : Braces) (tokens : List Token) : Braces :=
  tokens.foldl read braces

/-- What reading one token can do. -/
inductive Reads (braces : Braces) : Token → Braces → Prop where
  | opens (span : Span) :
      Reads braces ⟨.openBrace, span⟩
        ⟨braces.count + 1, braces.closing, ⟨braces.count, span⟩ :: braces.opening⟩
  | strays (outermost : braces.opening = []) (span : Span) :
      Reads braces ⟨.closeBrace, span⟩
        ⟨braces.count + 1, braces.closing ++ [⟨braces.count, span⟩], []⟩
  | closes {brace : Brace} {outer : List Brace} (innermost : braces.opening = brace :: outer)
      (span : Span) :
      Reads braces ⟨.closeBrace, span⟩ ⟨braces.count + 1, braces.closing, outer⟩
  | passes {token : Token} (noBrace : token.kind.isBrace = false) :
      Reads braces token ⟨braces.count + 1, braces.closing, braces.opening⟩

theorem reads_read (braces : Braces) (token : Token) : braces.Reads token (braces.read token) := by
  obtain ⟨kind, span⟩ := token
  cases kind with
  | openBrace => exact .opens span
  | closeBrace =>
      obtain ⟨count, closing, opening⟩ := braces
      cases opening with
      | nil => exact .strays rfl span
      | cons brace outer => exact .closes rfl span
  | _ => exact .passes rfl

theorem readAll_append (braces : Braces) (first second : List Token) :
    braces.readAll (first ++ second) = (braces.readAll first).readAll second :=
  List.foldl_append

/-- What one more token keeps holds wherever the scan has come. -/
theorem readAll_preserves {braces : Braces} {P : List Token → Braces → Prop} (start : P [] braces)
    (kept : ∀ {tokens : List Token} {token : Token} {after : Braces},
      (braces.readAll tokens).Reads token after → P tokens (braces.readAll tokens) →
        P (tokens ++ [token]) after)
    (tokens : List Token) : P tokens (braces.readAll tokens) := by
  induction tokens using List.reverseRecOn with
  | nil => exact start
  | append_singleton tokens token inductionHypothesis =>
      rw [readAll_append]
      exact kept ((braces.readAll tokens).reads_read token) inductionHypothesis

theorem readAll_count (braces : Braces) (tokens : List Token) :
    (braces.readAll tokens).count = braces.count + tokens.length := by
  induction tokens using readAll_preserves with
  | start => rfl
  | kept reads counted =>
      rw [List.length_append, List.length_singleton, ← Nat.add_assoc, ← counted]
      cases reads <;> rfl

/-- Stray braces are never taken back. -/
theorem readAll_closing (braces : Braces) (tokens : List Token) :
    braces.closing <+: (braces.readAll tokens).closing := by
  induction tokens using readAll_preserves with
  | start => exact List.prefix_rfl
  | kept reads listed =>
      cases reads with
      | strays outermost span => exact listed.trans (List.prefix_append _ _)
      | _ => exact listed

/-- Braces that are open in the end were open before, or came later. -/
theorem readAll_opening (braces : Braces) (tokens : List Token) :
    ∀ brace ∈ (braces.readAll tokens).opening,
      brace ∈ braces.opening ∨ braces.count ≤ brace.index := by
  induction tokens using readAll_preserves with
  | start => exact fun brace listed => Or.inl listed
  | @kept tokens token after reads known =>
      cases reads with
      | opens span =>
          rw [List.forall_mem_cons, readAll_count]
          exact ⟨Or.inr (Nat.le_add_right _ _), known⟩
      | strays outermost span => simp
      | closes innermost span =>
          rw [innermost, List.forall_mem_cons] at known
          exact known.2
      | passes noBrace => exact known

/-- Each closing brace ends at most one of the open ones. -/
theorem readAll_depth (braces : Braces) (tokens : List Token) :
    braces.opening.length ≤
      (braces.readAll tokens).opening.length + tokens.countP (·.kind = .closeBrace) := by
  induction tokens using readAll_preserves with
  | start => exact Nat.le_refl _
  | @kept tokens token after reads bounded =>
      rw [List.countP_append]
      cases reads with
      | opens span =>
          simp only [List.length_cons]
          omega
      | strays outermost span =>
          simp only [outermost, List.length_nil] at bounded ⊢
          omega
      | closes innermost span =>
          have one : List.countP (·.kind = .closeBrace) [(⟨.closeBrace, span⟩ : Token)] = 1 := rfl
          simp only [innermost, List.length_cons] at bounded ⊢
          omega
      | passes noBrace =>
          simp only
          omega

end Braces

/-- The scan of a whole list. -/
def bracesOf (tokens : List Token) : Braces :=
  Braces.readAll ⟨0, [], []⟩ tokens

theorem bracesOf_append (first second : List Token) :
    bracesOf (first ++ second) = (bracesOf first).readAll second :=
  Braces.readAll_append _ first second

theorem bracesOf_count (tokens : List Token) : (bracesOf tokens).count = tokens.length := by
  rw [bracesOf, Braces.readAll_count, Nat.zero_add]

/-- Balanced tokens leave the scan as it was. -/
theorem Balanced.readAll_eq {tokens : List Token} (balanced : Balanced tokens) (braces : Braces) :
    braces.readAll tokens = ⟨braces.count + tokens.length, braces.closing, braces.opening⟩ := by
  induction balanced generalizing braces with
  | nil => rfl
  | @other token noBrace rest later inductionHypothesis =>
      change (braces.read token).readAll rest = _
      have reads := braces.reads_read token
      generalize braces.read token = after at reads
      cases reads with
      | passes =>
          rw [inductionHypothesis, List.length_cons]
          congr 1
          simp only
          omega
      | _ => cases noBrace
  | @pair opening closing inside rest inner later innerHypothesis inductionHypothesis =>
      change (braces.read ⟨.openBrace, opening⟩).readAll (inside ++ _ :: rest) = _
      rw [Braces.readAll_append, innerHypothesis]
      change Braces.readAll ⟨_, braces.closing, braces.opening⟩ rest = _
      rw [inductionHypothesis]
      congr 1
      simp only [Braces.read, List.length_cons, List.length_append]
      omega

/-- The scan up to an opening brace and balanced tokens after it. -/
theorem bracesOf_open (before : List Token) (span : Span) {inside : List Token}
    (balanced : Balanced inside) :
    (bracesOf (before ++ ⟨.openBrace, span⟩ :: inside)).opening =
      ⟨before.length, span⟩ :: (bracesOf before).opening := by
  rw [bracesOf_append]
  change (((bracesOf before).read ⟨.openBrace, span⟩).readAll inside).opening = _
  rw [balanced.readAll_eq, ← bracesOf_count before]
  rfl

theorem bracesOf_append_balanced (read : List Token) {more : List Token}
    (balanced : Balanced more) :
    bracesOf (read ++ more) =
      ⟨(bracesOf read).count + more.length, (bracesOf read).closing, (bracesOf read).opening⟩ := by
  rw [bracesOf_append, balanced.readAll_eq]

theorem bracesOf_concat_close {read : List Token} {brace : Brace} {outer : List Brace}
    (innermost : (bracesOf read).opening = brace :: outer) (span : Span) :
    bracesOf (read ++ [⟨.closeBrace, span⟩]) =
      ⟨(bracesOf read).count + 1, (bracesOf read).closing, outer⟩ := by
  rw [bracesOf_append]
  simp only [Braces.readAll, List.foldl_cons, List.foldl_nil, Braces.read, innermost]

theorem bracesOf_concat_stray {read : List Token} (outermost : (bracesOf read).opening = [])
    (span : Span) :
    bracesOf (read ++ [⟨.closeBrace, span⟩]) =
      ⟨(bracesOf read).count + 1,
        (bracesOf read).closing ++ [⟨(bracesOf read).count, span⟩], []⟩ := by
  rw [bracesOf_append]
  simp only [Braces.readAll, List.foldl_cons, List.foldl_nil, Braces.read, outermost]

theorem bracesOf_preserves {P : List Token → Braces → Prop} (start : P [] ⟨0, [], []⟩)
    (kept : ∀ {tokens : List Token} {token : Token} {after : Braces},
      (bracesOf tokens).Reads token after → P tokens (bracesOf tokens) →
        P (tokens ++ [token]) after)
    (tokens : List Token) : P tokens (bracesOf tokens) :=
  Braces.readAll_preserves start kept tokens

/-! ### What the scan finds -/

/-- The braces that are open, innermost first: after each come balanced tokens only, up to the next
one. -/
inductive Stacked : List Token → List Brace → Prop where
  | outermost (tokens : List Token) : Stacked tokens []
  | within {before : List Token} {outer : List Brace} (below : Stacked before outer) (span : Span)
      {inside : List Token} (balanced : Balanced inside) :
      Stacked (before ++ ⟨.openBrace, span⟩ :: inside) (⟨before.length, span⟩ :: outer)

namespace Stacked

theorem append {tokens more : List Token} {opening : List Brace} (stacked : Stacked tokens opening)
    (balanced : Balanced more) : Stacked (tokens ++ more) opening := by
  cases stacked with
  | outermost => exact .outermost _
  | within below span inner =>
      rw [List.append_assoc, List.cons_append]
      exact .within below span (inner.append balanced)

theorem stands {tokens : List Token} {opening : List Brace} (stacked : Stacked tokens opening) :
    ∀ brace ∈ opening, tokens[brace.index]? = some ⟨.openBrace, brace.span⟩ := by
  induction stacked with
  | outermost => simp
  | @within before outer below span inside balanced inductionHypothesis =>
      rw [List.forall_mem_cons]
      refine ⟨by simp, fun brace listed => ?_⟩
      have found := inductionHypothesis brace listed
      obtain ⟨inRange, -⟩ := List.getElem?_eq_some_iff.mp found
      rw [List.getElem?_append_left inRange]
      exact found

theorem index_lt {tokens : List Token} {opening : List Brace} (stacked : Stacked tokens opening)
    {brace : Brace} (listed : brace ∈ opening) : brace.index < tokens.length :=
  (List.getElem?_eq_some_iff.mp (stacked.stands brace listed)).1

theorem ordered {tokens : List Token} {opening : List Brace} (stacked : Stacked tokens opening) :
    opening.Pairwise fun first second => second.index < first.index := by
  induction stacked with
  | outermost => exact .nil
  | within below span balanced inductionHypothesis =>
      exact .cons (fun brace listed => below.index_lt listed) inductionHypothesis

end Stacked

theorem bracesOf_stacked (tokens : List Token) : Stacked tokens (bracesOf tokens).opening := by
  induction tokens using bracesOf_preserves with
  | start => exact .outermost []
  | @kept tokens token after reads stacked =>
      cases reads with
      | opens span =>
          rw [bracesOf_count]
          exact .within stacked span .nil
      | strays outermost span => exact .outermost _
      | closes innermost span =>
          rw [innermost] at stacked
          cases stacked with
          | within below opening inner =>
              rw [List.append_assoc, List.cons_append]
              exact below.append (.pair opening span inner .nil)
      | passes noBrace => exact stacked.append (.other noBrace .nil)

/-- A token of a longer list is one of the list or the last one. -/
theorem getElem?_concat_cases {tokens : List Token} {token found : Token} {index : Nat}
    (stands : (tokens ++ [token])[index]? = some found) :
    tokens[index]? = some found ∨ index = tokens.length ∧ token = found := by
  rw [List.getElem?_append] at stands
  split at stands
  · exact Or.inl stands
  · rw [List.getElem?_singleton] at stands
    split at stands
    · exact Or.inr ⟨by omega, Option.some.inj stands⟩
    · cases stands

theorem Matched.append {tokens : List Token} {first last : Nat} (pair : Matched tokens first last)
    (more : List Token) : Matched (tokens ++ more) first last := by
  obtain ⟨before, opening, inside, closing, after, rfl, balanced, starts, ends⟩ := pair
  exact ⟨before, opening, inside, closing, after ++ more, by simp, balanced, starts, ends⟩

/-- A closing brace ends the innermost open one, since what stands between the two is balanced. -/
theorem Stacked.matched {tokens : List Token} {brace : Brace} {outer : List Brace}
    (stacked : Stacked tokens (brace :: outer)) (span : Span) :
    Matched (tokens ++ [⟨.closeBrace, span⟩]) brace.index tokens.length := by
  cases stacked with
  | @within before _ _ opening inside balanced =>
      refine ⟨before, opening, inside, span, [], by simp, balanced, rfl, ?_⟩
      rw [List.length_append, List.length_cons]
      omega

/-- A closing brace that is listed came while no brace was open. -/
theorem mem_closing {tokens : List Token} {brace : Brace}
    (listed : brace ∈ (bracesOf tokens).closing) :
    tokens[brace.index]? = some ⟨.closeBrace, brace.span⟩ ∧
      (bracesOf (tokens.take brace.index)).opening = [] := by
  induction tokens using bracesOf_preserves with
  | start => cases listed
  | @kept tokens token after reads known =>
      have earlier (found : brace ∈ (bracesOf tokens).closing) :
          (tokens ++ [token])[brace.index]? = some ⟨.closeBrace, brace.span⟩ ∧
            (bracesOf ((tokens ++ [token]).take brace.index)).opening = [] := by
        obtain ⟨stands, outermost⟩ := known found
        obtain ⟨inRange, -⟩ := List.getElem?_eq_some_iff.mp stands
        rw [List.getElem?_append_left inRange, List.take_append_of_le_length (Nat.le_of_lt inRange)]
        exact ⟨stands, outermost⟩
      cases reads with
      | strays outermost span =>
          rcases List.mem_append.mp listed with found | added
          · exact earlier found
          · obtain rfl := List.mem_singleton.mp added
            simpa [bracesOf_count] using outermost
      | _ => exact earlier listed

/-- An opening brace stays open until the closing brace that belongs to it comes. -/
theorem open_or_matched {tokens : List Token} {brace : Brace}
    (stands : tokens[brace.index]? = some ⟨.openBrace, brace.span⟩) :
    brace ∈ (bracesOf tokens).opening ∨ ∃ last, Matched tokens brace.index last := by
  induction tokens using bracesOf_preserves with
  | start => cases stands
  | @kept tokens token after reads known =>
      rcases getElem?_concat_cases stands with earlier | ⟨last, rfl⟩
      · rcases known earlier with listed | ⟨last, pair⟩
        · cases reads with
          | opens span => exact Or.inl (List.mem_cons_of_mem _ listed)
          | strays outermost span =>
              rw [outermost] at listed
              cases listed
          | closes innermost span =>
              have stacked := bracesOf_stacked tokens
              rw [innermost] at listed stacked
              rcases List.mem_cons.mp listed with rfl | outer
              · exact Or.inr ⟨_, stacked.matched span⟩
              · exact Or.inl outer
          | passes noBrace => exact Or.inl listed
        · exact Or.inr ⟨last, pair.append [token]⟩
      · cases reads with
        | opens span =>
            refine Or.inl (List.mem_cons.mpr (Or.inl ?_))
            rw [bracesOf_count, ← last]
        | passes noBrace => cases noBrace

/-- A closing brace strays unless it belongs to the innermost open one. -/
theorem stray_or_matched {tokens : List Token} {brace : Brace}
    (stands : tokens[brace.index]? = some ⟨.closeBrace, brace.span⟩) :
    brace ∈ (bracesOf tokens).closing ∨ ∃ first, Matched tokens first brace.index := by
  induction tokens using bracesOf_preserves with
  | start => cases stands
  | @kept tokens token after reads known =>
      rcases getElem?_concat_cases stands with earlier | ⟨last, rfl⟩
      · rcases known earlier with listed | ⟨first, pair⟩
        · cases reads with
          | strays outermost span => exact Or.inl (List.mem_append_left _ listed)
          | _ => exact Or.inl listed
        · exact Or.inr ⟨first, pair.append [token]⟩
      · cases reads with
        | strays outermost span =>
            refine Or.inl (List.mem_append_right _ (List.mem_singleton.mpr ?_))
            rw [bracesOf_count, ← last]
        | closes innermost span =>
            have stacked := bracesOf_stacked tokens
            rw [innermost] at stacked
            rw [last]
            exact Or.inr ⟨_, stacked.matched brace.span⟩
        | passes noBrace => cases noBrace

/-- The scan lists exactly the closing braces without a partner. -/
theorem mem_closing_iff {tokens : List Token} {brace : Brace} :
    brace ∈ (bracesOf tokens).closing ↔ UnmatchedClosing tokens brace := by
  constructor
  · intro listed
    obtain ⟨stands, outermost⟩ := mem_closing listed
    refine ⟨stands, ?_⟩
    rintro first ⟨before, opening, inside, closing, after, rfl, balanced, -, ends⟩
    have upTo : (before ++ ⟨.openBrace, opening⟩ ::
        (inside ++ ⟨.closeBrace, closing⟩ :: after)).take brace.index =
        before ++ ⟨.openBrace, opening⟩ :: inside := by
      rw [← List.cons_append, ← List.append_assoc]
      exact List.take_left' (by simp only [List.length_append, List.length_cons]; omega)
    rw [upTo, bracesOf_open before opening balanced] at outermost
    cases outermost
  · intro unmatched
    rcases stray_or_matched unmatched.stands with listed | ⟨first, pair⟩
    · exact listed
    · exact absurd pair (unmatched.alone first)

/-- The scan lists exactly the opening braces without a partner. -/
theorem mem_opening_iff {tokens : List Token} {brace : Brace} :
    brace ∈ (bracesOf tokens).opening ↔ UnmatchedOpening tokens brace := by
  constructor
  · intro listed
    refine ⟨(bracesOf_stacked tokens).stands brace listed, ?_⟩
    rintro last ⟨before, opening, inside, closing, after, rfl, balanced, starts, -⟩
    -- The pair leaves the scan where it was before, and what opens later stands further on.
    have whole := (Balanced.pair opening closing balanced .nil).readAll_eq (bracesOf before)
    have regrouped : before ++ ⟨.openBrace, opening⟩ :: (inside ++ ⟨.closeBrace, closing⟩ :: after) =
        before ++ (⟨.openBrace, opening⟩ :: (inside ++ [⟨.closeBrace, closing⟩]) ++ after) := by
      simp
    rw [regrouped, bracesOf_append, Braces.readAll_append, whole] at listed
    rcases Braces.readAll_opening _ after brace listed with earlier | later
    · have inRange := (bracesOf_stacked before).index_lt earlier
      omega
    · simp only [bracesOf_count, List.length_cons] at later
      omega
  · intro unmatched
    rcases open_or_matched unmatched.stands with listed | ⟨last, pair⟩
    · exact listed
    · exact absurd pair (unmatched.alone last)

theorem closing_ordered (tokens : List Token) :
    (bracesOf tokens).closing.Pairwise fun first second => first.index < second.index := by
  induction tokens using bracesOf_preserves with
  | start => exact .nil
  | @kept tokens token after reads ordered =>
      cases reads with
      | strays outermost span =>
          refine List.pairwise_append.mpr ⟨ordered, List.pairwise_singleton _ _, ?_⟩
          intro brace listed last isLast
          obtain rfl := List.mem_singleton.mp isLast
          rw [bracesOf_count]
          exact (List.getElem?_eq_some_iff.mp (mem_closing listed).1).1
      | _ => exact ordered

theorem bracesOf_unmatched (tokens : List Token) :
    Unmatched tokens (bracesOf tokens).closing (bracesOf tokens).opening where
  closing_ordered := closing_ordered tokens
  mem_closing := fun _ => mem_closing_iff
  opening_ordered := (bracesOf_stacked tokens).ordered
  mem_opening := fun _ => mem_opening_iff

end RobotScript
