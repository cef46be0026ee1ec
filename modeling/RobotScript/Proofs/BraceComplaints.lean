/-
Module: RobotScript.Proofs.BraceComplaints
Purpose: The complaints about braces are exact. The parser's open blocks and its complaints follow
  the scan for unmatched braces through every round, failed rounds and the tokens they skip
  included, so what the report says of braces is what the scan finds.
Main exports: ParseState.Tracks, Round.tracks, FailedRound.tracks, TokenStream.Halfway,
  TokenStream.finalState_halfway, Report.placesOf, Report.without, Account,
  ParseState.Tracks.account, brace_complaints_are_exact
-/
import RobotScript.Proofs.BraceMatching
import RobotScript.Proofs.ParserRounds

namespace RobotScript

/-! ### The parser follows the scan -/

/-- Having read `read`, the parser has open what the scan has open, has blamed each stray closing
brace and no other, and has not yet blamed an opening one. -/
structure ParseState.Tracks (state : ParseState) (read : List Token) : Prop where
  nested : state.nest.map OpenBlock.brace = (bracesOf read).opening.map Brace.span
  blamed : (state.problems.toList.filter (·.cause = .unmatchedBrace)).map Problem.span =
    (bracesOf read).closing.map Brace.span
  unswept : ∀ problem ∈ state.problems.toList, problem.cause ≠ .unclosedBrace

namespace ParseState

theorem addStmt_braces (state : ParseState) (stmt : Stmt) :
    (state.addStmt stmt).nest.map OpenBlock.brace = state.nest.map OpenBlock.brace := by
  simp only [addStmt]
  split <;> rfl

theorem unswept_blame {state : ParseState} {problem : Problem}
    (unswept : ∀ known ∈ state.problems.toList, known.cause ≠ .unclosedBrace)
    (noOpen : problem.cause ≠ .unclosedBrace) :
    ∀ known ∈ (state.blame problem).problems.toList, known.cause ≠ .unclosedBrace := by
  rw [blame, Array.toList_push, List.forall_mem_append]
  exact ⟨unswept, by simpa using noOpen⟩

namespace Tracks

variable {state : ParseState} {read : List Token}

theorem pass (tracks : state.Tracks read) (more : List Token) (balanced : Balanced more) :
    state.Tracks (read ++ more) := by
  obtain ⟨nested, blamed, unswept⟩ := tracks
  refine ⟨?_, ?_, unswept⟩
  · rw [bracesOf_append_balanced read balanced, nested]
  · rw [bracesOf_append_balanced read balanced, blamed]

theorem addStmt (tracks : state.Tracks read) (stmt : Stmt) :
    (state.addStmt stmt).Tracks read := by
  obtain ⟨nested, blamed, unswept⟩ := tracks
  rw [← state.addStmt_braces stmt] at nested
  rw [← state.addStmt_problems stmt] at blamed unswept
  exact ⟨nested, blamed, unswept⟩

theorem enter (tracks : state.Tracks read) (block : OpenBlock) :
    (state.enter block).Tracks (read ++ [⟨.openBrace, block.brace⟩]) := by
  obtain ⟨nested, blamed, unswept⟩ := tracks
  refine ⟨?_, ?_, unswept⟩
  · rw [bracesOf_append]
    exact congrArg (block.brace :: ·) nested
  · rw [bracesOf_append]
    exact blamed

theorem closeInto (tracks : state.Tracks read) {block : OpenBlock} {outer : List OpenBlock}
    (innermost : state.nest = block :: outer) (brace : Span) :
    (state.closeInto block outer brace).Tracks (read ++ [⟨.closeBrace, brace⟩]) := by
  obtain ⟨nested, blamed, unswept⟩ := tracks
  rw [innermost, List.map_cons] at nested
  obtain ⟨opened, below, stack, -, sameOuter⟩ := List.map_eq_cons_iff.mp nested.symm
  refine ⟨?_, ?_, unswept⟩
  · rw [bracesOf_concat_close stack]
    exact sameOuter.symm
  · rw [bracesOf_concat_close stack]
    exact blamed

/-- A problem that is not about a brace leaves the account of braces as it is. -/
theorem blame (tracks : state.Tracks read) {problem : Problem}
    (noStray : problem.cause ≠ .unmatchedBrace) (noOpen : problem.cause ≠ .unclosedBrace) :
    (state.blame problem).Tracks read := by
  obtain ⟨nested, blamed, unswept⟩ := tracks
  refine ⟨nested, ?_, ?_⟩
  · simpa [ParseState.blame, noStray] using blamed
  · exact unswept_blame unswept noOpen

theorem stray (tracks : state.Tracks read) (outermost : state.nest = []) (brace : Span) :
    (state.blame ⟨.unmatchedBrace, brace⟩).Tracks (read ++ [⟨.closeBrace, brace⟩]) := by
  obtain ⟨nested, blamed, unswept⟩ := tracks
  rw [outermost] at nested
  have stack := List.map_eq_nil_iff.mp nested.symm
  refine ⟨?_, ?_, ?_⟩
  · rw [bracesOf_concat_stray stack]
    exact congrArg (List.map OpenBlock.brace) outermost
  · rw [bracesOf_concat_stray stack]
    simp [ParseState.blame, blamed]
  · exact unswept_blame unswept (by simp)

end Tracks

end ParseState

theorem Header.split {read : List Token} {block : OpenBlock} (header : Header read block) :
    ∃ words, read = words ++ [⟨.openBrace, block.brace⟩] ∧ Balanced words := by
  cases header with
  | bare brace => exact ⟨[], rfl, .nil⟩
  | repeated count start brace => exact ⟨[_], rfl, .of_noBrace (by simp [TokenKind.isBrace])⟩
  | thenBranch condition start brace =>
      exact ⟨[_, _], rfl, .of_noBrace (by simp [TokenKind.isBrace])⟩
  | loop condition start brace =>
      exact ⟨[_, _], rfl, .of_noBrace (by simp [TokenKind.isBrace])⟩

/-- A statement that is given up takes no brace with it, and is not blamed on one. -/
theorem Abandoned.spares_braces {finish : Span} {rest read : List Token} {problem : Problem}
    (abandoned : Abandoned finish rest read problem) :
    Balanced read ∧ problem.cause ≠ .unmatchedBrace ∧ problem.cause ≠ .unclosedBrace := by
  refine ⟨.of_noBrace ?_, ?_⟩
  · cases abandoned <;> simp [TokenKind.isBrace]
  · cases abandoned <;> simp

/-- Both braces are places where reading goes on, so recovery skips neither. -/
theorem recover_spares_braces (rest : List Token) :
    ∃ skipped, rest = skipped ++ recover rest ∧ Balanced skipped := by
  refine ⟨rest.takeWhile fun token => !token.kind.resumesAt, ?_, .of_noBrace ?_⟩
  · exact (List.takeWhile_append_dropWhile).symm
  · intro token skipped
    have passed := List.all_eq_true.mp List.all_takeWhile token skipped
    obtain ⟨kind, span⟩ := token
    cases kind with
    | openBrace => cases passed
    | closeBrace => cases passed
    | _ => rfl

/-- A clean round reads a brace exactly where it opens or closes a block. -/
theorem Round.tracks {state after : ParseState} {tokens rest read : List Token}
    (round : Round state tokens after rest) (tracks : state.Tracks read) :
    ∃ taken, tokens = taken ++ rest ∧ after.Tracks (read ++ taken) := by
  cases round with
  | acts letter span =>
      exact ⟨[_], rfl, (tracks.pass _ (.other rfl .nil)).addStmt _⟩
  | @opens taken block header =>
      obtain ⟨words, rfl, balanced⟩ := header.split
      refine ⟨_, rfl, ?_⟩
      rw [← List.append_assoc]
      exact (tracks.pass words balanced).enter block
  | closes nested brace => exact ⟨[_], rfl, (tracks.closeInto nested brace).addStmt _⟩
  | reopens nested owned brace word openBrace =>
      refine ⟨[_, _, _], rfl, ?_⟩
      have closed := (tracks.closeInto nested brace).pass [⟨.keyword .senao, word⟩]
        (.other rfl .nil)
      simpa using closed.enter _

/-- A failed round reads no brace but the one it blames, or the one that closes the block before a
`senao`; that block stays closed although its statement is given up. -/
theorem FailedRound.tracks {finish : Span} {state after : ParseState}
    {tokens rest read : List Token} {problem : Problem}
    (failed : FailedRound finish state tokens problem after rest) (tracks : state.Tracks read) :
    ∃ taken, tokens = taken ++ rest ∧ after.Tracks (read ++ taken) := by
  cases failed with
  | unmatched outermost brace => exact ⟨[_], rfl, tracks.stray outermost brace⟩
  | @abandons taken later _ abandoned =>
      obtain ⟨balanced, noStray, noOpen⟩ := abandoned.spares_braces
      obtain ⟨skipped, split, passed⟩ := recover_spares_braces later
      refine ⟨taken ++ skipped, ?_, ?_⟩
      · rw [List.append_assoc, ← split]
      · exact (tracks.pass _ (balanced.append passed)).blame noStray noOpen
  | @elseless block outer nested condition start owned brace word later noBlock _ blamed =>
      obtain ⟨skipped, split, passed⟩ := recover_spares_braces later
      subst blamed
      refine ⟨⟨.closeBrace, brace⟩ :: ⟨.keyword .senao, word⟩ :: skipped, ?_, ?_⟩
      · rw [List.cons_append, List.cons_append, ← split]
      · have closed := (tracks.closeInto nested brace).pass (⟨.keyword .senao, word⟩ :: skipped)
          (.other rfl passed)
        rw [List.append_assoc] at closed
        exact closed.blame (by simp) (by simp)

theorem ParseState.Tracks.advance {state : ParseState} {read : List Token}
    (tracks : state.Tracks read) (finish : Span) (token : Token) (rest : List Token) :
    ∃ taken, token :: rest = taken ++ (state.advance finish token rest).2 ∧
      (state.advance finish token rest).1.Tracks (read ++ taken) := by
  rcases state.advance_rounds finish token rest with clean | ⟨problem, failed⟩
  · exact clean.tracks tracks
  · exact failed.tracks tracks

/-- The parser is part of the way through a stream, with `left` still to read: it has followed the
scan so far, and reading on without a limit ends where a reading without a limit ends. -/
structure TokenStream.Halfway (stream : TokenStream) (state : ParseState) (left : List Token) :
    Prop where
  tracks : ∃ read, stream.tokens = read ++ left ∧ state.Tracks read
  readsOn : parseLoop none stream.finish state left = stream.finalState none

theorem TokenStream.Halfway.advance {stream : TokenStream} {state : ParseState} {token : Token}
    {rest : List Token} (halfway : stream.Halfway state (token :: rest)) :
    stream.Halfway (state.advance stream.finish token rest).1
      (state.advance stream.finish token rest).2 := by
  obtain ⟨⟨read, split, tracks⟩, readsOn⟩ := halfway
  constructor
  · obtain ⟨taken, taking, followed⟩ := tracks.advance stream.finish token rest
    exact ⟨read ++ taken, by rw [split, taking, List.append_assoc], followed⟩
  · rw [parseLoop] at readsOn
    exact readsOn

/-- The parser stops part of the way through a stream, but not while the limit leaves room. -/
theorem TokenStream.finalState_halfway (limit : Option Nat) (stream : TokenStream) :
    ∃ left, stream.Halfway (stream.finalState limit) left ∧
      ((∀ bound ∈ limit, (stream.finalState limit).problems.toList.length < bound) →
        left = []) := by
  have start : stream.Halfway ParseState.initial stream.tokens :=
    ⟨⟨[], rfl, rfl, rfl, by simp [ParseState.initial]⟩, rfl⟩
  obtain ⟨left, halfway, stopped⟩ :=
    parseLoop_reaches (fun _ _ _ halfway => halfway.advance) limit start
  refine ⟨left, halfway, fun room => stopped.resolve_right fun full => ?_⟩
  cases limit with
  | none => cases full
  | some bound => exact Nat.not_lt.mpr (of_decide_eq_true full) (room bound rfl)

/-! ### What the report says of braces -/

namespace Report

/-- Where the stored complaints with this code are, in the order they are stored. -/
def placesOf (report : Report) (code : ErrorCode) : List Span :=
  (report.stored.filter (·.code = code)).map Diagnostic.span

/-- The stored complaints with any other code. -/
def without (report : Report) (code : ErrorCode) : List Diagnostic :=
  report.stored.filter (·.code ≠ code)

end Report

theorem Cause.code_eq_unclosed_iff (cause : Cause) :
    cause.code = ⟨101⟩ ↔ cause = .unclosedBrace := by
  cases cause <;> simp [Cause.code]

theorem Cause.code_eq_unmatched_iff (cause : Cause) :
    cause.code = ⟨102⟩ ↔ cause = .unmatchedBrace := by
  cases cause <;> simp [Cause.code]

theorem Problem.report_placesOf (source : SourceFile) (problems : List Problem)
    (code : ErrorCode) :
    (Problem.report source problems).placesOf code =
      ((problems.take Report.capacity).filter (·.cause.code = code)).map Problem.span := by
  rw [Report.placesOf, Problem.report_eq, List.filter_map, List.map_map]
  rfl

theorem Problem.report_without (source : SourceFile) (problems : List Problem) (code : ErrorCode) :
    (Problem.report source problems).without code =
      ((problems.take Report.capacity).filter (·.cause.code ≠ code)).map
        (Problem.diagnose source) := by
  rw [Report.without, Problem.report_eq, List.filter_map]
  rfl

/-- The problems of a stream in two parts: those found on the way, and one for each block that was
open where reading stopped. -/
structure Account (problems found : List Problem) (unclosed : List Span) : Prop where
  split : problems = found ++ unclosed.map fun brace => ⟨.unclosedBrace, brace⟩
  unswept : ∀ problem ∈ found, problem.cause ≠ .unclosedBrace

namespace Account

variable {problems found : List Problem} {unclosed : List Span}

theorem take (account : Account problems found unclosed) (bound : Nat) :
    problems.take bound = found.take bound ++
      (unclosed.take (bound - found.length)).map fun brace => ⟨.unclosedBrace, brace⟩ := by
  rw [account.split, List.take_append, List.map_take]

theorem without_unclosed (account : Account problems found unclosed) (source : SourceFile) :
    (Problem.report source problems).without ⟨101⟩ =
      (found.take Report.capacity).map (Problem.diagnose source) := by
  have kept : (found.take Report.capacity).filter (·.cause.code ≠ ⟨101⟩) =
      found.take Report.capacity := by
    refine List.filter_eq_self.mpr fun problem listed => ?_
    simpa [Cause.code_eq_unclosed_iff] using account.unswept problem (List.mem_of_mem_take listed)
  rw [Problem.report_without, account.take, List.filter_append, kept, List.filter_map]
  simp [Function.comp_def, Cause.code]

theorem places_unclosed (account : Account problems found unclosed) (source : SourceFile) :
    (Problem.report source problems).placesOf ⟨101⟩ =
      unclosed.take (Report.capacity - found.length) := by
  have dropped : (found.take Report.capacity).filter (·.cause.code = ⟨101⟩) = [] := by
    refine List.filter_eq_nil_iff.mpr fun problem listed => ?_
    simpa [Cause.code_eq_unclosed_iff] using account.unswept problem (List.mem_of_mem_take listed)
  rw [Problem.report_placesOf, account.take, List.filter_append, dropped, List.filter_map,
    List.nil_append, List.map_map]
  simp [Function.comp_def, Cause.code]

theorem places_unmatched (account : Account problems found unclosed) (source : SourceFile) :
    (Problem.report source problems).placesOf ⟨102⟩ =
      ((found.take Report.capacity).filter (·.cause = .unmatchedBrace)).map Problem.span := by
  simp only [Problem.report_placesOf, Cause.code_eq_unmatched_iff]
  rw [account.take, List.filter_append, List.filter_map]
  simp [Function.comp_def]

end Account

/-- Where the parser stops, its problems account for the unmatched braces of what it has read. -/
theorem ParseState.Tracks.account {limit : Option Nat} {stream : TokenStream} {read : List Token}
    (tracks : (stream.finalState limit).Tracks read) :
    Account (stream.problems limit) (stream.finalState limit).problems.toList
      ((bracesOf read).opening.map Brace.span) := by
  refine ⟨?_, tracks.unswept⟩
  rw [stream.problems_eq, ← tracks.nested, List.map_map]
  rfl

/-- The complaints about braces are about braces without a partner; and unless complaints of other
kinds fill the report, each brace without a partner is counted once, the closing ones in order and
the opening ones from the innermost outwards. -/
theorem brace_complaints_are_exact (source : SourceFile) (tokens : List Token) :
    ∃ closing opening, Unmatched (TokenStream.ofList tokens).tokens closing opening ∧
      (reportOn source tokens).placesOf ⟨102⟩ <+: closing.map Brace.span ∧
      (reportOn source tokens).placesOf ⟨101⟩ <+: opening.map Brace.span ∧
      (((reportOn source tokens).without ⟨101⟩).length < Report.capacity →
        (reportOn source tokens).placesOf ⟨102⟩ = closing.map Brace.span ∧
        (reportOn source tokens).total =
          ((reportOn source tokens).without ⟨101⟩).length + opening.length ∧
        (reportOn source tokens).placesOf ⟨101⟩ = (opening.map Brace.span).take
          (Report.capacity - ((reportOn source tokens).without ⟨101⟩).length)) := by
  obtain ⟨left, ⟨⟨read, split, tracks⟩, -⟩, ends⟩ :=
    (TokenStream.ofList tokens).finalState_halfway (some Report.capacity)
  have account := tracks.account
  have blamed := tracks.blamed
  rw [reportOn_eq, account.without_unclosed source, account.places_unclosed source,
    account.places_unmatched source]
  generalize ((TokenStream.ofList tokens).finalState (some Report.capacity)).problems.toList = found
    at account blamed ends ⊢
  have strays : (bracesOf read).closing.map Brace.span <+:
      (bracesOf (TokenStream.ofList tokens).tokens).closing.map Brace.span := by
    rw [split, bracesOf_append]
    exact ((bracesOf read).readAll_closing left).map _
  have whole (room : found.length < Report.capacity) :
      read = (TokenStream.ofList tokens).tokens := by
    rw [split, ends (by simpa using room), List.append_nil]
  refine ⟨_, _, bracesOf_unmatched _, ?_, ?_, ?_⟩
  · rw [← blamed] at strays
    exact (((List.take_prefix _ found).filter _).map _).trans strays
  · by_cases room : found.length < Report.capacity
    · rw [whole room]
      exact List.take_prefix _ _
    · rw [Nat.sub_eq_zero_of_le (Nat.le_of_not_lt room), List.take_zero]
      exact List.nil_prefix
  · intro few
    rw [List.length_map, List.length_take] at few
    have room : found.length < Report.capacity := by omega
    rw [List.take_of_length_le (Nat.le_of_lt room), blamed, List.length_map, ← whole room]
    refine ⟨rfl, ?_, rfl⟩
    rw [Problem.report_eq, account.split]
    simp

end RobotScript
