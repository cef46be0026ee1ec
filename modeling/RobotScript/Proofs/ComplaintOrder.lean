/-
Module: RobotScript.Proofs.ComplaintOrder
Purpose: Complaints come in the order of the text, and one mistake is not complained about twice.
  Tokens stand at places of their own, in order. A failed round blames its first token, which it
  takes and which begins no statement, or the token behind what it has read, which it leaves. A
  token that is blamed and left is skipped by recovery unless reading can go on there; and of the
  tokens where reading can go on, only a closing brace is ever blamed by the round that begins with
  it. So a place is blamed twice only if it is that of a closing brace, the second time because no
  block is open there.
Main exports: InPlace, lex_inPlace, Blames, FailedRound.blames, Problem.Precedes,
  ParseState.InOrder, ParseState.InOrder.advance, Stacked.offsets_decrease, complaints_come_in_order
-/
import Mathlib.Data.List.Nodup
import RobotScript.Proofs.BraceComplaints
import RobotScript.Proofs.NamePlaces

namespace RobotScript

/-! ### Places of tokens -/

/-- Each token stands behind those before it. -/
def InPlace (tokens : List Token) : Prop :=
  tokens.Pairwise fun first second => first.span.offset < second.span.offset

theorem Position.offset_next (position : Position) (c : Char) :
    (position.next c).offset = position.offset + c.utf8Size := by
  simp only [next]
  split <;> rfl

theorem Position.offset_le_advance (position : Position) (cs : List Char) :
    position.offset ≤ (position.advance cs).offset := by
  induction cs generalizing position with
  | nil => exact Nat.le_refl _
  | cons c later inductionHypothesis =>
      have further := inductionHypothesis (position.next c)
      rw [position.offset_next c] at further
      exact Nat.le_trans (Nat.le_add_right _ _) further

/-- The tokens that are read from a position on stand there or behind it, in order. -/
theorem tokensFrom_inPlace (named : Bool) (position : Position) (cs : List Char) :
    (∀ token ∈ tokensFrom named position cs, position.offset ≤ token.span.offset) ∧
      InPlace (tokensFrom named position cs) := by
  fun_induction tokensFrom named position cs with
  | case1 named position =>
      constructor
      · intro token member
        rw [List.mem_singleton.mp member]
        exact Nat.le_refl _
      · exact List.pairwise_singleton _ _
  | case2 named position c cs blank inductionHypothesis =>
      constructor
      · intro token member
        have further := inductionHypothesis.1 token member
        rw [position.offset_next c] at further
        exact Nat.le_trans (Nat.le_add_right _ _) further
      · exact inductionHypothesis.2
  | case3 named position c cs notBlank lexeme stop inductionHypothesis =>
      have moved : position.offset < stop.offset := by
        have further := (position.next c).offset_le_advance lexeme.2
        rw [position.offset_next c] at further
        exact Nat.lt_of_lt_of_le (Nat.lt_add_of_pos_right c.utf8Size_pos) further
      have later : ∀ token ∈ tokensFrom lexeme.1.introducesName stop (cs.drop lexeme.2.length),
          position.offset < token.span.offset := by
        intro token member
        exact Nat.lt_of_lt_of_le moved (inductionHypothesis.1 token member)
      constructor
      · intro token member
        rcases List.mem_cons.mp member with isFirst | inLater
        · rw [isFirst]
          exact Nat.le_refl _
        · exact Nat.le_of_lt (later token inLater)
      · exact List.pairwise_cons.mpr ⟨later, inductionHypothesis.2⟩

theorem lex_inPlace (text : String) : InPlace (lex text) := by
  rw [lex_eq_tokensFrom]
  exact (tokensFrom_inPlace false Position.start text.toList).2

/-- Two tokens at one place are one token. -/
theorem InPlace.eq_of_offset {tokens : List Token} (inPlace : InPlace tokens) {first second : Token}
    (former : first ∈ tokens) (latter : second ∈ tokens)
    (same : first.span.offset = second.span.offset) : first = second := by
  have apart : (tokens.map fun token => token.span.offset).Nodup :=
    List.pairwise_map.mpr (inPlace.imp Nat.ne_of_lt)
  exact List.inj_on_of_nodup_map apart former latter same

/-- The tokens that are left, with the end of the file behind them. -/
def withEnd (finish : Span) (left : List Token) : List Token :=
  left ++ [⟨.endOfFile, finish⟩]

theorem nextToken_mem_withEnd (finish : Span) (left : List Token) :
    nextToken finish left ∈ withEnd finish left := by
  cases left with
  | nil => exact List.mem_singleton_self _
  | cons token later => exact List.mem_cons_self

/-- The token that comes next moves on with every token that is taken. -/
theorem InPlace.next_lt {finish : Span} {taken rest : List Token}
    (inPlace : InPlace (withEnd finish (taken ++ rest))) (nonempty : taken ≠ []) :
    (nextToken finish (taken ++ rest)).span.offset < (nextToken finish rest).span.offset := by
  cases taken with
  | nil => exact absurd rfl nonempty
  | cons token others =>
      rw [withEnd, List.append_assoc] at inPlace
      apply (List.pairwise_cons.mp inPlace).1
      exact List.mem_append_right others (nextToken_mem_withEnd finish rest)

theorem InPlace.rest {finish : Span} {taken rest : List Token}
    (inPlace : InPlace (withEnd finish (taken ++ rest))) : InPlace (withEnd finish rest) := by
  rw [withEnd, List.append_assoc] at inPlace
  exact (List.pairwise_append.mp inPlace).2.1

/-! ### What a failed round blames -/

/-- The token that a failed round blames, given what was left before it and what is left after it:
the first token, which skipping does not stop at unless it is an end of file or a stray closing
brace, or the one behind those that the round has read. -/
inductive Blames (finish : Span) (problem : Problem) : List Token → List Token → Prop where
  | first {token : Token} {later rest : List Token} (place : problem.span = token.span)
      (useless : token.kind.resumesAt = false ∨ token.kind = .endOfFile ∨
        token.kind = .closeBrace ∧ problem.cause = .unmatchedBrace) :
      Blames finish problem (token :: later) rest
  | next {read later : List Token} (nonempty : read ≠ [])
      (place : problem.span = (nextToken finish later).span)
      (cause : problem.cause ≠ .unmatchedBrace) :
      Blames finish problem (read ++ later) (recover later)

theorem Abandoned.blames {finish : Span} {rest read : List Token} {problem : Problem}
    (abandoned : Abandoned finish rest read problem) :
    Blames finish problem (read ++ rest) (recover rest) := by
  have nonempty := abandoned.ne_nil
  cases abandoned with
  | repeated count start noBlock => exact .next nonempty rfl nofun
  | nameless word introduces start noName => exact .next nonempty rfl nofun
  | conditional condition start noBlock => exact .next nonempty rfl nofun
  | loop condition start noBlock => exact .next nonempty rfl nofun
  | strayElse word => exact .first rfl (Or.inl rfl)
  | invalid text place => exact .first rfl (Or.inl rfl)
  | strayName name place => exact .first rfl (Or.inl rfl)
  | strayEnd place => exact .first rfl (Or.inr (Or.inl rfl))

theorem FailedRound.blames {finish : Span} {state after : ParseState} {tokens rest : List Token}
    {problem : Problem} (failed : FailedRound finish state tokens problem after rest) :
    Blames finish problem tokens rest := by
  cases failed with
  | unmatched outermost brace => exact .first rfl (Or.inr (Or.inr ⟨rfl, rfl⟩))
  | abandons abandoned => exact abandoned.blames
  | elseless nested owned brace word noBlock blamed =>
      subst blamed
      have nonempty : [⟨.closeBrace, brace⟩, (⟨.keyword .senao, word⟩ : Token)] ≠ [] :=
        List.cons_ne_nil _ _
      exact .next nonempty rfl nofun

/-- What is blamed is a token of the stream, or its end. -/
theorem Blames.mem {finish : Span} {problem : Problem} {tokens rest : List Token}
    (blames : Blames finish problem tokens rest) :
    ∃ token ∈ withEnd finish tokens, token.span = problem.span := by
  cases blames with
  | first place useless => exact ⟨_, List.mem_cons_self, place.symm⟩
  | @next read later nonempty place cause =>
      refine ⟨_, ?_, place.symm⟩
      rw [withEnd, List.append_assoc]
      exact List.mem_append_right read (nextToken_mem_withEnd finish later)

/-! ### Problems in order -/

namespace Problem

/-- The first problem is blamed on an earlier token than the second; or both are blamed on the same
one, and the second, but not the first, is that no block is open there. -/
def Precedes (first second : Problem) : Prop :=
  first.span.offset < second.span.offset ∨
    first.span = second.span ∧ first.cause ≠ .unmatchedBrace ∧ second.cause = .unmatchedBrace

/-- The problem lies before the token that comes next, or at that token, which is then one that
reading can go on at, or the end. -/
def Behind (finish : Span) (left : List Token) (problem : Problem) : Prop :=
  problem.span.offset < (nextToken finish left).span.offset ∨
    problem.span = (nextToken finish left).span ∧ problem.cause ≠ .unmatchedBrace ∧
      left.head?.all (·.kind.resumesAt) = true

variable {finish : Span} {problem : Problem}

theorem Behind.offset_le {left : List Token} (behind : problem.Behind finish left) :
    problem.span.offset ≤ (nextToken finish left).span.offset := by
  rcases behind with before | ⟨here, -, -⟩
  · exact Nat.le_of_lt before
  · rw [here]

/-- Once another token is taken, a problem is behind for good. -/
theorem Behind.passed {taken rest : List Token} (behind : problem.Behind finish (taken ++ rest))
    (inPlace : InPlace (withEnd finish (taken ++ rest))) (nonempty : taken ≠ []) :
    problem.span.offset < (nextToken finish rest).span.offset :=
  Nat.lt_of_le_of_lt behind.offset_le (inPlace.next_lt nonempty)

end Problem

theorem recover_head?_resumesAt (rest : List Token) :
    (recover rest).head?.all (·.kind.resumesAt) = true := by
  have stops := List.head?_dropWhile_not (fun token : Token => !token.kind.resumesAt) rest
  simp only [recover]
  cases shape : (rest.dropWhile fun token => !token.kind.resumesAt).head? with
  | none => rfl
  | some token => simpa [shape] using stops

namespace Blames

variable {finish : Span} {problem known : Problem} {tokens rest : List Token}

/-- A new problem comes behind all that are known. -/
theorem precedes (blames : Blames finish problem tokens rest)
    (inPlace : InPlace (withEnd finish tokens))
    (noEnd : ∀ token ∈ tokens, token.kind ≠ .endOfFile) (behind : known.Behind finish tokens) :
    known.Precedes problem := by
  cases blames with
  | first place useless =>
      rcases behind with before | ⟨here, cause, resumes⟩
      · exact Or.inl (place ▸ before)
      · rcases useless with stuck | isEnd | ⟨-, stray⟩
        · cases stuck.symm.trans resumes
        · exact absurd isEnd (noEnd _ List.mem_cons_self)
        · exact Or.inr ⟨here.trans place.symm, cause, stray⟩
  | next nonempty place cause =>
      have before := behind.passed inPlace nonempty
      rw [← place] at before
      exact Or.inl before

/-- A new problem is behind what is left after its round: the blamed token was taken, or skipped, or
reading goes on at it. -/
theorem behind (blames : Blames finish problem tokens rest)
    (inPlace : InPlace (withEnd finish tokens))
    (takes : ∃ taken, taken ≠ [] ∧ tokens = taken ++ rest) : problem.Behind finish rest := by
  cases blames with
  | first place useless =>
      rcases takes with ⟨taken, nonempty, split⟩
      rw [split] at inPlace
      have moved := inPlace.next_lt nonempty
      rw [← split] at moved
      exact Or.inl (place ▸ moved)
  | @next read later nonempty place cause =>
      rcases recover_suffix later with ⟨skipped, split⟩
      cases skipped with
      | nil =>
          have same : recover later = later := split
          rw [same]
          exact Or.inr ⟨place, cause, same ▸ recover_head?_resumesAt later⟩
      | cons token others =>
          have ahead := inPlace.rest
          rw [← split] at ahead
          have moved := ahead.next_lt (List.cons_ne_nil _ _)
          rw [split, ← place] at moved
          exact Or.inl moved

end Blames

/-- What has been found so far is in order and behind what is left to read. -/
structure ParseState.InOrder (finish : Span) (state : ParseState) (left : List Token) : Prop where
  inPlace : InPlace (withEnd finish left)
  noEnd : ∀ token ∈ left, token.kind ≠ .endOfFile
  ordered : state.problems.toList.Pairwise Problem.Precedes
  behind : ∀ problem ∈ state.problems.toList, problem.Behind finish left

theorem ParseState.InOrder.advance {finish : Span} {state : ParseState} {token : Token}
    {rest : List Token} (inOrder : state.InOrder finish (token :: rest)) :
    (state.advance finish token rest).1.InOrder finish (state.advance finish token rest).2 := by
  rcases inOrder with ⟨inPlace, noEnd, ordered, behind⟩
  have takes := state.advance_takes finish token rest
  rcases takes with ⟨taken, nonempty, split⟩
  have passed : ∀ problem ∈ state.problems.toList,
      problem.Behind finish (state.advance finish token rest).2 := by
    intro problem member
    have known := behind problem member
    rw [split] at known inPlace
    exact Or.inl (known.passed inPlace nonempty)
  have ahead : InPlace (withEnd finish (state.advance finish token rest).2) := by
    rw [split] at inPlace
    exact inPlace.rest
  have noEndAhead : ∀ other ∈ (state.advance finish token rest).2, other.kind ≠ .endOfFile := by
    intro other member
    exact noEnd other (split ▸ List.mem_append_right taken member)
  rcases state.advance_rounds finish token rest with clean | ⟨problem, failed⟩
  · rw [← clean.problems_eq] at ordered passed
    exact ⟨ahead, noEndAhead, ordered, passed⟩
  · have blames := failed.blames
    constructor
    · exact ahead
    · exact noEndAhead
    · rw [failed.problems_eq, Array.toList_push, List.pairwise_append]
      refine ⟨ordered, List.pairwise_singleton _ _, ?_⟩
      intro known member new isNew
      rw [List.mem_singleton.mp isNew]
      exact blames.precedes inPlace noEnd (behind known member)
    · rw [failed.problems_eq, Array.toList_push, List.forall_mem_append, List.forall_mem_singleton]
      exact ⟨passed, blames.behind inPlace failed.takes⟩

/-- The braces that are open stand in order, the innermost last. -/
theorem Stacked.offsets_decrease {tokens : List Token} {opening : List Brace}
    (stacked : Stacked tokens opening) (inPlace : InPlace tokens) :
    opening.Pairwise fun inner outer => outer.span.offset < inner.span.offset := by
  induction stacked with
  | outermost => exact .nil
  | @within before outer below span inside balanced inductionHypothesis =>
      rcases List.pairwise_append.mp inPlace with ⟨earlier, -, across⟩
      apply List.pairwise_cons.mpr
      constructor
      · intro brace listed
        have stands := List.mem_of_getElem? (below.stands brace listed)
        exact across _ stands _ List.mem_cons_self
      · exact inductionHypothesis earlier

/-! ### The report of a script -/

namespace Problem

theorem Precedes.of_same_offset {first second : Problem} (precedes : first.Precedes second)
    (same : first.span.offset = second.span.offset) :
    first.span = second.span ∧ first.cause ≠ .unmatchedBrace ∧ second.cause = .unmatchedBrace := by
  rcases precedes with before | together
  · exact absurd same (Nat.ne_of_lt before)
  · exact together

theorem Precedes.offset_le {first second : Problem} (precedes : first.Precedes second) :
    first.span.offset ≤ second.span.offset := by
  rcases precedes with before | ⟨here, -, -⟩
  · exact Nat.le_of_lt before
  · rw [here]

/-- Of three problems at one place the second would be blamed for closing nothing, and for
something else. -/
theorem length_le_of_same_offset {offset : Nat} {problems : List Problem}
    (ordered : problems.Pairwise Precedes)
    (place : ∀ problem ∈ problems, problem.span.offset = offset) : problems.length ≤ 2 := by
  match problems with
  | [] => exact Nat.zero_le _
  | [_] => exact Nat.le_succ 1
  | [_, _] => exact Nat.le_refl 2
  | first :: second :: third :: _ =>
      simp only [List.pairwise_cons, List.forall_mem_cons] at ordered place
      have isStray := ordered.1.1.of_same_offset (place.1.trans place.2.1.symm)
      have noStray := ordered.2.1.1.of_same_offset (place.2.1.trans place.2.2.1.symm)
      exact absurd isStray.2.2 noStray.2.1

theorem count_offset_le {problems : List Problem} (ordered : problems.Pairwise Precedes)
    (offset : Nat) : (problems.map (·.span.offset)).count offset ≤ 2 := by
  rw [List.count, List.countP_map, List.countP_eq_length_filter]
  apply length_le_of_same_offset (ordered.filter _)
  intro problem member
  simpa using (List.mem_filter.mp member).2

end Problem

namespace TokenStream

/-- However far a stream is read whose tokens are in place, the problems found are in order. -/
theorem found_ordered (limit : Option Nat) {stream : TokenStream}
    (inPlace : InPlace (withEnd stream.finish stream.tokens))
    (noEnd : ∀ token ∈ stream.tokens, token.kind ≠ .endOfFile) :
    (stream.finalState limit).problems.toList.Pairwise Problem.Precedes := by
  have start : ParseState.initial.InOrder stream.finish stream.tokens :=
    ⟨inPlace, noEnd, .nil, by simp [ParseState.initial]⟩
  rcases parseLoop_reaches (fun _ _ _ inOrder => inOrder.advance) limit start with
    ⟨left, inOrder, -⟩
  exact inOrder.ordered

/-- A brace that is blamed for closing nothing is a closing brace of the stream. -/
theorem closeBrace_of_unmatched {limit : Option Nat} {stream : TokenStream} {problem : Problem}
    (found : problem ∈ (stream.finalState limit).problems.toList)
    (stray : problem.cause = .unmatchedBrace) : ⟨.closeBrace, problem.span⟩ ∈ stream.tokens := by
  rcases stream.finalState_halfway limit with ⟨left, ⟨⟨read, split, tracks⟩, -⟩, -⟩
  have blamed : problem.span ∈ (bracesOf read).closing.map Brace.span := by
    rw [← tracks.blamed]
    apply List.mem_map_of_mem
    exact List.mem_filter.mpr ⟨found, by simpa using stray⟩
  rcases List.mem_map.mp blamed with ⟨brace, listed, place⟩
  rw [split, ← place]
  exact List.mem_append_left left (List.mem_of_getElem? (mem_closing listed).1)

/-- The blocks that are open where reading stops were opened in order, the innermost last. -/
theorem open_braces_decrease (limit : Option Nat) {stream : TokenStream}
    (inPlace : InPlace stream.tokens) :
    ((stream.finalState limit).nest.map OpenBlock.brace).Pairwise fun inner outer =>
      outer.offset < inner.offset := by
  rcases stream.finalState_halfway limit with ⟨left, ⟨⟨read, split, tracks⟩, -⟩, -⟩
  rw [split] at inPlace
  have earlier : InPlace read := (List.pairwise_append.mp inPlace).1
  rw [tracks.nested, List.pairwise_map]
  exact (bracesOf_stacked read).offsets_decrease earlier

/-- Where two problems are found at one place of a text, a closing brace stands there, and the second
one is that it closes nothing. -/
theorem closeBrace_of_same_offset {limit : Option Nat} {text : String} {first second : Problem}
    (precedes : first.Precedes second) (same : first.span.offset = second.span.offset)
    (found : second ∈ ((TokenStream.ofList (lex text)).finalState limit).problems.toList) :
    second.cause = .unmatchedBrace ∧ ∃ token ∈ lex text, token.kind = .closeBrace ∧
      token.span = first.span ∧ token.span = second.span ∧
      ∀ other ∈ lex text, other.span.offset = second.span.offset → other = token := by
  rcases precedes.of_same_offset same with ⟨together, -, stray⟩
  have brace : ⟨.closeBrace, second.span⟩ ∈ lex text := by
    rw [(TokenStream.ofList_lex text).1]
    exact List.mem_append_left _ (closeBrace_of_unmatched found stray)
  refine ⟨stray, _, brace, rfl, together.symm, rfl, ?_⟩
  intro other listed there
  exact (lex_inPlace text).eq_of_offset listed brace there

end TokenStream

/-- The stored complaints about a script come in the order of the text, without repetition: first
those found on the way, at places that do not decrease, then the blocks left open, from the innermost
outwards. On the way a place is blamed at most twice, and twice only where a closing brace stands,
the second time because it closes nothing. -/
theorem complaints_come_in_order (source : SourceFile) :
    ∃ found unclosed : List Diagnostic,
      complaintsAbout source = found ++ unclosed ∧
      (∀ diagnostic ∈ found, diagnostic.code ≠ ⟨101⟩) ∧
      (∀ diagnostic ∈ unclosed, diagnostic.code = ⟨101⟩) ∧
      (found.Pairwise fun first second => first.span.offset ≤ second.span.offset) ∧
      (unclosed.Pairwise fun first second => second.span.offset < first.span.offset) ∧
      (∀ offset, (found.map (·.span.offset)).count offset ≤ 2) ∧
      found.Pairwise fun first second => first.span.offset = second.span.offset →
        second.code = ⟨102⟩ ∧ ∃ token ∈ lex source.text, token.kind = .closeBrace ∧
          token.span = first.span ∧ token.span = second.span ∧
          ∀ other ∈ lex source.text, other.span.offset = second.span.offset → other = token := by
  rcases TokenStream.ofList_lex source.text with ⟨whole, noEnd⟩
  have inPlace := lex_inPlace source.text
  rw [whole] at inPlace
  rw [complaintsAbout_eq, TokenStream.problems_eq, List.take_append, List.map_append]
  have ordered := TokenStream.found_ordered (some Report.capacity) inPlace noEnd
  have stored := ordered.sublist (List.take_sublist Report.capacity _)
  have nested := TokenStream.open_braces_decrease (some Report.capacity)
    (List.pairwise_append.mp inPlace).1
  rcases (TokenStream.ofList (lex source.text)).finalState_halfway (some Report.capacity) with
    ⟨left, ⟨⟨read, -, tracks⟩, -⟩, -⟩
  refine ⟨_, _, rfl, ?_, ?_, ?_, ?_, ?_, ?_⟩
  · rw [List.forall_mem_map]
    intro problem member
    have noOpen := tracks.unswept problem (List.mem_of_mem_take member)
    exact fun isOpen => noOpen ((Cause.code_eq_unclosed_iff _).mp isOpen)
  · rw [List.forall_mem_map]
    intro problem member
    rcases List.mem_map.mp (List.mem_of_mem_take member) with ⟨block, -, rfl⟩
    rfl
  · exact List.pairwise_map.mpr (stored.imp Problem.Precedes.offset_le)
  · apply List.pairwise_map.mpr
    apply List.Pairwise.sublist (List.take_sublist _ _)
    apply List.pairwise_map.mpr
    exact List.pairwise_map.mp nested
  · intro offset
    rw [List.map_map]
    exact Problem.count_offset_le stored offset
  · apply List.pairwise_map.mpr
    apply List.Pairwise.imp_of_mem _ stored
    intro first second _ member precedes same
    rcases TokenStream.closeBrace_of_same_offset precedes same (List.mem_of_mem_take member) with
      ⟨stray, brace⟩
    exact ⟨(Cause.code_eq_unmatched_iff _).mpr stray, brace⟩

/-- A count without a block in front of a stray brace, a word without a name, and two blocks that are
not closed. -/
example : (complaintsAbout ⟨"aula", "3 \x7d se \x7b A \x7b"⟩).map
    (fun found => (found.code, found.span.offset)) =
      [(⟨104⟩, 2), (⟨102⟩, 2), (⟨103⟩, 7), (⟨101⟩, 11), (⟨101⟩, 7)] := by
  decide +kernel

end RobotScript
