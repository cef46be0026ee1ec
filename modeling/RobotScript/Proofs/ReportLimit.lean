/-
Module: RobotScript.Proofs.ReportLimit
Purpose: What stopping at a full report changes. The stored complaints are the first ones of a
  reading that goes on to the end. The count is right unless complaints found on the way fill the
  report: blocks that are open where reading stops are then counted as unclosed, also those that a
  brace further on would close. The program that is given does not depend on the limit.
Main exports: everyProblem, limit_changes_only_the_count, limit_counts_closed_block,
  parseLoop_until_full, limit_shortens_what_is_shown
-/
import RobotScript.Proofs.BraceComplaints

namespace RobotScript

/-- The problems of a list of tokens that is read to its end, however many there are. -/
def everyProblem (tokens : List Token) : List Problem :=
  (TokenStream.ofList tokens).problems none

namespace TokenStream

/-- A reading without a limit goes to the end of the stream. -/
theorem finalState_none_tracks (stream : TokenStream) :
    (stream.finalState none).Tracks stream.tokens := by
  obtain ⟨left, ⟨⟨read, split, tracks⟩, -⟩, ends⟩ := stream.finalState_halfway none
  rw [split, ends (by simp), List.append_nil]
  exact tracks

/-- What is found on the way to the limit is found first on the way to the end. -/
theorem found_prefix (limit : Option Nat) (stream : TokenStream) :
    (stream.finalState limit).problems.toList <+: (stream.finalState none).problems.toList := by
  obtain ⟨left, ⟨-, readsOn⟩, -⟩ := stream.finalState_halfway limit
  rw [← readsOn]
  exact problems_prefix_parseLoop none stream.finish _ left

/-- A limit that is not reached changes nothing. -/
theorem finalState_of_room {limit : Option Nat} {stream : TokenStream}
    (room : ∀ bound ∈ limit, (stream.finalState limit).problems.toList.length < bound) :
    stream.finalState limit = stream.finalState none := by
  obtain ⟨left, ⟨-, readsOn⟩, ends⟩ := stream.finalState_halfway limit
  rw [ends room, parseLoop] at readsOn
  exact readsOn

theorem problems_of_room {limit : Option Nat} {stream : TokenStream}
    (room : ∀ bound ∈ limit, (stream.finalState limit).problems.toList.length < bound) :
    stream.problems limit = stream.problems none := by
  rw [stream.problems_eq, stream.problems_eq, finalState_of_room room]

/-- Up to the limit, a reading that stops there finds what a reading to the end finds. -/
theorem problems_take (bound : Nat) (stream : TokenStream) :
    (stream.problems (some bound)).take bound = (stream.problems none).take bound := by
  by_cases room : (stream.finalState (some bound)).problems.toList.length < bound
  · rw [problems_of_room (by simpa using room)]
  · have full := Nat.le_of_not_lt room
    have first := stream.found_prefix (some bound)
    rw [stream.problems_eq, stream.problems_eq, List.take_append_of_le_length full,
      List.take_append_of_le_length (Nat.le_trans full first.length_le)]
    obtain ⟨later, extended⟩ := first
    rw [← extended, List.take_append_of_le_length full]

/-- A reading that may store a problem at all accepts what a reading without a limit accepts, and
gives the same program. -/
theorem parseStream_some_iff {bound : Nat} (positive : 0 < bound) {stream : TokenStream}
    {program : Program} :
    parseStream (some bound) stream = .ok program ↔ parseStream none stream = .ok program := by
  -- Whichever of the two readings finds nothing, the limit is not reached.
  have same (clean : (stream.finalState (some bound)).problems.size = 0) :
      stream.finalState (some bound) = stream.finalState none := by
    apply finalState_of_room
    rintro limit ⟨⟩
    rw [Array.length_toList, clean]
    exact positive
  rw [parseStream_eq_ok_iff, parseStream_eq_ok_iff]
  constructor
  · intro accepted
    rw [← same accepted.1]
    exact accepted
  · intro accepted
    have first := (stream.found_prefix (some bound)).length_le
    rw [Array.length_toList, Array.length_toList, accepted.1] at first
    rw [same (Nat.le_zero.mp first)]
    exact accepted

/-- A stream is refused exactly if it has problems. -/
theorem problems_eq_nil_iff {limit : Option Nat} {stream : TokenStream} :
    stream.problems limit = [] ↔ ∃ program, parseStream limit stream = .ok program := by
  unfold problems
  cases outcome : parseStream limit stream with
  | ok program => exact ⟨fun _ => ⟨program, rfl⟩, fun _ => rfl⟩
  | error found =>
      constructor
      · intro none
        exact absurd none (parseStream_error_ne_nil outcome)
      · rintro ⟨program, accepted⟩
        cases accepted

/-- A block that is open where reading stops stays open unless a closing brace comes. -/
theorem depth_le (limit : Option Nat) (stream : TokenStream) :
    (stream.finalState limit).nest.length ≤
      (stream.finalState none).nest.length + stream.tokens.countP (·.kind = .closeBrace) := by
  obtain ⟨left, ⟨⟨read, split, tracks⟩, -⟩, -⟩ := stream.finalState_halfway limit
  have here := congrArg List.length tracks.nested
  have atEnd := congrArg List.length stream.finalState_none_tracks.nested
  have bounded := (bracesOf read).readAll_depth left
  simp only [List.length_map] at here atEnd
  rw [here, atEnd, split, bracesOf_append, List.countP_append]
  omega

/-- Stopping at a limit adds at most one problem for each closing brace. -/
theorem problems_length_le (limit : Option Nat) (stream : TokenStream) :
    (stream.problems limit).length ≤
      (stream.problems none).length + stream.tokens.countP (·.kind = .closeBrace) := by
  have found := (stream.found_prefix limit).length_le
  have nested := stream.depth_le limit
  rw [stream.problems_eq, stream.problems_eq]
  simp only [List.length_append, List.length_map]
  omega

end TokenStream

/-- The stored complaints are the first ones of a reading without a limit. The count is that of a
reading without a limit unless complaints of other kinds than unclosed blocks fill the report, and
then it is too high by no more than there are closing braces. -/
theorem limit_changes_only_the_count (source : SourceFile) (tokens : List Token) :
    (reportOn source tokens).stored =
        ((everyProblem tokens).take Report.capacity).map (Problem.diagnose source) ∧
      (((reportOn source tokens).without ⟨101⟩).length < Report.capacity →
        (reportOn source tokens).total = (everyProblem tokens).length) ∧
      (reportOn source tokens).total ≤ (everyProblem tokens).length +
        (TokenStream.ofList tokens).tokens.countP (·.kind = .closeBrace) := by
  rw [reportOn_eq]
  refine ⟨?_, fun few => ?_, ?_⟩
  · rw [everyProblem, ← TokenStream.problems_take, Problem.report_eq]
  · obtain ⟨left, ⟨⟨read, -, tracks⟩, -⟩, -⟩ :=
      (TokenStream.ofList tokens).finalState_halfway (some Report.capacity)
    rw [tracks.account.without_unclosed, List.length_map, List.length_take] at few
    have room : ∀ bound ∈ some Report.capacity, ((TokenStream.ofList tokens).finalState
        (some Report.capacity)).problems.toList.length < bound := by
      rintro bound ⟨⟩
      omega
    rw [everyProblem, ← TokenStream.problems_of_room room, Problem.report_eq]
  · rw [Problem.report_eq]
    exact (TokenStream.ofList tokens).problems_length_le _

/-- Twenty repeat counts without a block fill the report before the brace that closes the block
around them, and that block is counted as a further complaint. -/
theorem limit_counts_closed_block :
    ¬ ∀ (source : SourceFile) (tokens : List Token),
      (reportOn source tokens).total ≤ (everyProblem tokens).length := by
  intro bounded
  have within := bounded ⟨"lesson", ""⟩
    (lex "\x7b3 3 3 3 3 3 3 3 3 3 3 3 3 3 3 3 3 3 3 3 \x7d")
  revert within
  decide +kernel

/-- A reading with the limit of the report goes on as long as the report on what has been found is
not full. -/
theorem parseLoop_until_full (source : SourceFile) (finish : Span) (state : ParseState)
    (token : Token) (rest : List Token) :
    parseLoop (some Report.capacity) finish state (token :: rest) =
      if (Problem.report source state.problems.toList).isFull then state
      else
        let round := state.advance finish token rest
        parseLoop (some Report.capacity) finish round.1 round.2 := by
  have full : (Problem.report source state.problems.toList).isFull =
      (some Report.capacity).any (· ≤ state.problems.size) := by
    rw [Problem.report_eq, Report.isFull, Array.length_toList]
    rfl
  rw [parseLoop, full]

/-- The limit shortens what is shown. Reading stops where the report, into which the complaints are
pushed one by one, is full. The stored complaints are, in order and in every field, the first twenty
of a reading that goes on to the end and keeps all of them; fewer than twenty are stored only if no
more were counted. The program is the one that the reading without a limit gives: there is none
exactly if that reading finds a problem, and exactly if the report has one. -/
theorem limit_shortens_what_is_shown (source : SourceFile) (tokens : List Token) :
    (∀ finish state token rest, parseLoop (some Report.capacity) finish state (token :: rest) =
      if (Problem.report source state.problems.toList).isFull then state
      else
        let round := state.advance finish token rest
        parseLoop (some Report.capacity) finish round.1 round.2) ∧
      (reportOn source tokens).stored =
        ((everyProblem tokens).map (Problem.diagnose source)).take Report.capacity ∧
      (reportOn source tokens).stored.length =
        min Report.capacity (reportOn source tokens).total ∧
      (∀ program, parseTokens source tokens = .ok program ↔
        parseStream none (TokenStream.ofList tokens) = .ok program) ∧
      ((∀ program, parseTokens source tokens ≠ .ok program) ↔ everyProblem tokens ≠ []) ∧
      ((reportOn source tokens).hasErrors = true ↔ everyProblem tokens ≠ []) := by
  have accepts (program : Program) : parseTokens source tokens = .ok program ↔
      parseStream none (TokenStream.ofList tokens) = .ok program :=
    parseTokens_eq_ok_iff.trans (TokenStream.parseStream_some_iff (by decide))
  have stored : (reportOn source tokens).stored =
      ((everyProblem tokens).map (Problem.diagnose source)).take Report.capacity := by
    rw [reportOn_eq, everyProblem, ← List.map_take, ← TokenStream.problems_take, Problem.report_eq]
  refine ⟨parseLoop_until_full source, stored, ?_, accepts, ?_, ?_⟩
  · rw [reportOn_eq, Problem.report_eq, List.length_map, List.length_take]
  · rw [everyProblem, ne_eq, TokenStream.problems_eq_nil_iff, not_exists]
    exact forall_congr' fun program => not_congr (accepts program)
  · rw [reportOn_eq, Problem.report_eq, Report.hasErrors, decide_eq_true_iff, List.length_pos_iff,
      everyProblem, ne_eq, ne_eq, TokenStream.problems_eq_nil_iff, TokenStream.problems_eq_nil_iff]
    exact not_congr (exists_congr fun program => TokenStream.parseStream_some_iff (by decide))

end RobotScript
