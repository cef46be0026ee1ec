/-
Module: RobotScript.Proofs.ParserProgress
Purpose: The parser on a list of tokens that is not cut off at the end of the file. A reader goes
  through the list with a cursor and has all of it in view, tokens behind the first end of file
  included. Every round of it moves the cursor on, and none moves it past that end: only recovery
  takes tokens whatever they are, and it stops there. So the reader ends after as many rounds as
  there are tokens before the end, and gives what the parser gives that never saw the rest.
Main exports: withEndOfFile, Reader, Reader.round, Reader.afterRounds, Reader.outcome,
  ParseState.advance_suffix, ParseState.advance_append, Reader.StandsBefore,
  Reader.round_of_room, Reader.round_moves, Reader.afterRounds_stops, Reader.outcome_eq,
  reader_moves_up_to_end
-/
import Mathlib.Data.List.TakeWhile
import RobotScript.Proofs.ParserRounds

namespace RobotScript

/-! ### Reading with a cursor -/

/-- The list that a reader goes through: unless the last token is an end of file, one is added where
that token stands. -/
def withEndOfFile (tokens : List Token) : List Token :=
  if tokens.getLast?.any (·.kind == .endOfFile) then tokens
  else tokens ++ [⟨.endOfFile, (tokens.getLast?.map Token.span).getD Span.origin⟩]

/-- What has been read, and how many tokens of the list have been taken. -/
structure Reader where
  state : ParseState
  cursor : Nat
  deriving Repr, Inhabited, DecidableEq

namespace Reader

/-- Nothing read yet. -/
def start : Reader := ⟨.initial, 0⟩

/-- Where the last token stands; past it the cursor shows an end of file there. -/
def lastSpan (stream : List Token) : Span :=
  (stream.getLast?.map Token.span).getD Span.origin

/-- One round, unless the cursor is at an end of file or the report is full. -/
def round (stream : List Token) (reader : Reader) : Option Reader :=
  let left := stream.drop reader.cursor
  let token := nextToken (lastSpan stream) left
  if token.kind = .endOfFile ∨ Report.capacity ≤ reader.state.problems.size then none
  else
    let after := reader.state.advance (lastSpan stream) token left.tail
    some ⟨after.1, stream.length - after.2.length⟩

/-- The reader after a number of rounds, if there are so many. -/
def afterRounds (stream : List Token) : Nat → Option Reader
  | 0 => some start
  | rounds + 1 => (afterRounds stream rounds).bind (round stream)

/-- The program that has been read, or the report. The top level goes from the first token to the
last one that was taken. -/
def outcome (source : SourceFile) (stream : List Token) (reader : Reader) : Except Report Program :=
  let problems := reader.state.blameOpenBlocks
  if problems.isEmpty then
    .ok (reader.state.finish ((nextToken (lastSpan stream) stream).span.merge
      (lastSpan (stream.take reader.cursor))))
  else .error (Problem.report source problems.toList)

end Reader

/-! ### Rounds before the end of the file

Below, `before` holds the tokens up to the first end of file, and `beyond` whatever follows that. A
round that has all of these in view does what a round does that sees `before` only. -/

/-- The end of the file, and what follows it. -/
def endAt (finish : Span) (beyond : List Token) : List Token :=
  ⟨.endOfFile, finish⟩ :: beyond

/-- The same outcome, with more tokens behind those that are left. -/
def leaving {α : Type} (more : List Token) (result : α × List Token) : α × List Token :=
  (result.1, result.2 ++ more)

section Append

variable (other finish : Span) (beyond : List Token)

theorem nextToken_append (before : List Token) :
    nextToken other (before ++ endAt finish beyond) = nextToken finish before := by
  cases before with
  | nil => rfl
  | cons token before => rfl

theorem openBlock_append (construct : Construct) (owner : Owner) (before : List Token) :
    openBlock other construct owner (before ++ endAt finish beyond) =
      leaving (endAt finish beyond) (openBlock finish construct owner before) := by
  rcases openBlock_cases finish construct owner before with
    ⟨noBlock, -⟩ | ⟨brace, later, rfl, opened⟩
  · simp only [openBlock, nextToken_append, if_neg noBlock]
    rfl
  · rw [opened]
    rfl

theorem withCondition_append (word : Keyword) {goOn go : Ident → List Token → Progress × List Token}
    (same : ∀ condition later, goOn condition (later ++ endAt finish beyond) =
      leaving (endAt finish beyond) (go condition later)) (before : List Token) :
    withCondition other word (before ++ endAt finish beyond) goOn =
      leaving (endAt finish beyond) (withCondition finish word before go) := by
  rcases withCondition_cases finish word before go with
    ⟨noName, failed⟩ | ⟨condition, later, rfl, found⟩
  · rw [failed]
    simp only [withCondition, nextToken_append]
    rfl
  · rw [found]
    exact same condition later

theorem startStatement_append (token : Token) (before : List Token) :
    startStatement other token (before ++ endAt finish beyond) =
      leaving (endAt finish beyond) (startStatement finish token before) := by
  obtain ⟨kind, span⟩ := token
  cases kind with
  | integer count => exact openBlock_append ..
  | keyword word =>
      cases word with
      | se =>
          simp only [startStatement]
          exact withCondition_append _ _ _ _ (fun _ _ => openBlock_append ..) before
      | enquanto =>
          simp only [startStatement]
          exact withCondition_append _ _ _ _ (fun _ _ => openBlock_append ..) before
      | senao => rfl
  | action _ => rfl
  | identifier _ => rfl
  | openBrace => rfl
  | closeBrace => rfl
  | invalid _ => rfl
  | endOfFile => rfl

theorem Owner.finishBlock_append (owner : Owner) (id : BlockId) (close : Span)
    (before : List Token) :
    owner.finishBlock other id close (before ++ endAt finish beyond) =
      leaving (endAt finish beyond) (owner.finishBlock finish id close before) := by
  cases owner with
  | bare => rfl
  | repeated count start => rfl
  | elseBranch condition thenBlock start => rfl
  | loop condition start => rfl
  | thenBranch condition start =>
      simp only [finishBlock, nextToken_append]
      split
      · rename_i continued
        cases before with
        | nil => cases continued
        | cons word later => exact openBlock_append ..
      · rfl

/-- Recovery passes no end of file. -/
theorem recover_append (before : List Token) :
    recover (before ++ endAt finish beyond) = recover before ++ endAt finish beyond := by
  induction before with
  | nil => rfl
  | cons token before inductionHypothesis =>
      simp only [recover, List.cons_append, List.dropWhile_cons]
      split
      · exact inductionHypothesis
      · rfl

theorem ParseState.absorb_append (state : ParseState) (progress : Progress × List Token) :
    state.absorb (leaving (endAt finish beyond) progress) =
      leaving (endAt finish beyond) (state.absorb progress) := by
  obtain ⟨result, before⟩ := progress
  cases result with
  | complete stmt => rfl
  | opened block => rfl
  | failed problem =>
      simp only [leaving, absorb, recover_append]

/-- A round that has the end of the file in view does what a round before that end does. -/
theorem ParseState.advance_append (state : ParseState) (token : Token) (before : List Token) :
    state.advance other token (before ++ endAt finish beyond) =
      leaving (endAt finish beyond) (state.advance finish token before) := by
  unfold advance
  split
  · cases nested : state.nest with
    | nil =>
        simp only [close, nested]
        rfl
    | cons block outer =>
        rw [close_eq nested, close_eq nested, Owner.finishBlock_append, absorb_append]
  · rw [startStatement_append, absorb_append]

end Append

/-- What is left of a list of which something was taken is left of what followed its first token. -/
theorem suffix_of_taken {token : Token} {rest read later : List Token} (taken : read ≠ [])
    (split : token :: rest = read ++ later) : later <:+ rest := by
  obtain ⟨first, others, rfl⟩ := List.exists_cons_of_ne_nil taken
  exact ⟨others, (List.cons.inj split).2.symm⟩

theorem ParseState.advance_suffix (finish : Span) (state : ParseState) (token : Token)
    (rest : List Token) : (state.advance finish token rest).2 <:+ rest := by
  obtain ⟨taken, nonempty, split⟩ := state.advance_takes finish token rest
  exact suffix_of_taken nonempty split

/-! ### Readers -/

namespace TokenStream

/-- All tokens of a list that was cut at the end of the file. -/
def followedBy (stream : TokenStream) (beyond : List Token) : List Token :=
  stream.tokens ++ endAt stream.finish beyond

/-- No token of the stream is an end of file. -/
def NoEnd (stream : TokenStream) : Prop :=
  ∀ token ∈ stream.tokens, token.kind ≠ .endOfFile

end TokenStream

namespace Reader

variable {stream : TokenStream} {beyond rest : List Token} {reader next : Reader}

/-- Of the tokens before the end of the file, these are still to be read. -/
def StandsBefore (stream : TokenStream) (reader : Reader) (rest : List Token) : Prop :=
  ∃ taken, stream.tokens = taken ++ rest ∧ reader.cursor = taken.length

namespace StandsBefore

theorem start (stream : TokenStream) : Reader.start.StandsBefore stream stream.tokens :=
  ⟨[], rfl, rfl⟩

theorem drop_eq (stands : reader.StandsBefore stream rest) (beyond : List Token) :
    (stream.followedBy beyond).drop reader.cursor = rest ++ endAt stream.finish beyond := by
  obtain ⟨taken, whole, cursor⟩ := stands
  rw [TokenStream.followedBy, whole, cursor, List.append_assoc, List.drop_left]

theorem cursor_le (stands : reader.StandsBefore stream rest) :
    reader.cursor ≤ stream.tokens.length := by
  obtain ⟨taken, whole, cursor⟩ := stands
  rw [whole, cursor, List.length_append]
  exact Nat.le_add_right _ _

theorem noEnd (stands : reader.StandsBefore stream rest) (noEnd : stream.NoEnd) :
    ∀ token ∈ rest, token.kind ≠ .endOfFile := by
  obtain ⟨taken, whole, -⟩ := stands
  exact fun token member => noEnd token (whole ▸ List.mem_append_right taken member)

/-- Where nothing is left to be read, all of the stream has been taken. -/
theorem take_eq (stands : reader.StandsBefore stream []) (beyond : List Token) :
    (stream.followedBy beyond).take reader.cursor = stream.tokens := by
  obtain ⟨taken, whole, cursor⟩ := stands
  rw [List.append_nil] at whole
  rw [TokenStream.followedBy, whole, cursor, List.take_left]

end StandsBefore

/-- A reader stops at the end of the file, and where the report is full. -/
theorem round_of_end (stands : reader.StandsBefore stream rest)
    (ended : rest = [] ∨ Report.capacity ≤ reader.state.problems.size) (beyond : List Token) :
    reader.round (stream.followedBy beyond) = none := by
  simp only [round, stands.drop_eq, nextToken_append]
  rw [if_pos]
  rcases ended with rfl | full
  · exact Or.inl rfl
  · exact Or.inr full

/-- Otherwise it makes a round, and takes a token at least. -/
theorem round_of_room {token : Token} (noEnd : stream.NoEnd)
    (stands : reader.StandsBefore stream (token :: rest))
    (room : reader.state.problems.size < Report.capacity) (beyond : List Token) :
    ∃ next, reader.round (stream.followedBy beyond) = some next ∧
      next.state = (reader.state.advance stream.finish token rest).1 ∧
      next.StandsBefore stream (reader.state.advance stream.finish token rest).2 ∧
      reader.cursor < next.cursor := by
  have notEnd := stands.noEnd noEnd token List.mem_cons_self
  have goesOn : ¬ (token.kind = .endOfFile ∨ Report.capacity ≤ reader.state.problems.size) := by
    rintro (isEnd | full)
    · exact notEnd isEnd
    · exact absurd room (Nat.not_lt.mpr full)
  obtain ⟨read, nonempty, split⟩ := reader.state.advance_takes stream.finish token rest
  simp only [round, stands.drop_eq, nextToken, if_neg goesOn, List.cons_append, List.tail_cons,
    ParseState.advance_append]
  obtain ⟨taken, whole, cursor⟩ := stands
  rw [split, ← List.append_assoc] at whole
  -- What is behind the new cursor is as long as what the round has left.
  have moved : (stream.followedBy beyond).length -
      (leaving (endAt stream.finish beyond)
        (reader.state.advance stream.finish token rest)).2.length = (taken ++ read).length := by
    rw [TokenStream.followedBy, whole, leaving, List.append_assoc, List.length_append,
      Nat.add_sub_cancel_right]
  refine ⟨_, rfl, rfl, ⟨taken ++ read, whole, moved⟩, ?_⟩
  dsimp only
  rw [moved, cursor, List.length_append]
  exact Nat.lt_add_of_pos_right (List.length_pos_iff.mpr nonempty)

/-- Wherever a reader stands, a round moves it on, and not past the end of the file. -/
theorem round_moves (noEnd : stream.NoEnd) (stands : reader.StandsBefore stream rest)
    (goesOn : reader.round (stream.followedBy beyond) = some next) :
    reader.cursor < next.cursor ∧ ∃ left, next.StandsBefore stream left := by
  cases rest with
  | nil => cases (round_of_end stands (Or.inl rfl) beyond).symm.trans goesOn
  | cons token rest =>
      rcases Nat.lt_or_ge reader.state.problems.size Report.capacity with room | full
      · obtain ⟨after, same, -, standsAfter, further⟩ := round_of_room noEnd stands room beyond
        obtain rfl := Option.some.inj (same.symm.trans goesOn)
        exact ⟨further, _, standsAfter⟩
      · cases (round_of_end stands (Or.inr full) beyond).symm.trans goesOn

theorem afterRounds_stands (noEnd : stream.NoEnd) {rounds : Nat}
    (reached : afterRounds (stream.followedBy beyond) rounds = some reader) :
    ∃ rest, reader.StandsBefore stream rest := by
  induction rounds generalizing reader with
  | zero =>
      obtain rfl := Option.some.inj reached
      exact ⟨_, .start stream⟩
  | succ rounds inductionHypothesis =>
      obtain ⟨before, reachedBefore, goesOn⟩ := Option.bind_eq_some_iff.mp reached
      obtain ⟨rest, stands⟩ := inductionHypothesis reachedBefore
      exact (round_moves noEnd stands goesOn).2

/-- From where it stands a reader needs at most one round for each token up to the end of the file,
and it stops where the parser does that sees these tokens only. -/
theorem afterRounds_stops (noEnd : stream.NoEnd) {rounds : Nat}
    (reached : afterRounds (stream.followedBy beyond) rounds = some reader)
    (stands : reader.StandsBefore stream rest) :
    ∃ further ≤ rest.length, ∃ last left,
      afterRounds (stream.followedBy beyond) (rounds + further) = some last ∧
      last.state = parseLoop (some Report.capacity) stream.finish reader.state rest ∧
      last.StandsBefore stream left ∧
      (left = [] ∨ Report.capacity ≤ last.state.problems.size) := by
  generalize same : reader.state = state
  fun_induction parseLoop (some Report.capacity) stream.finish state rest
    generalizing reader rounds with
  | case1 state => exact ⟨0, Nat.le_refl _, reader, [], reached, same, stands, Or.inl rfl⟩
  | case2 state token rest full =>
      simp only [Option.any_some, decide_eq_true_eq] at full
      exact ⟨0, Nat.zero_le _, reader, token :: rest, reached, same, stands, Or.inr (same ▸ full)⟩
  | case3 state token rest room round =>
      rename_i inductionHypothesis
      simp only [Option.any_some, decide_eq_true_eq, Nat.not_le] at room
      subst same
      obtain ⟨next, goesOn, sameState, standsNext, -⟩ := round_of_room noEnd stands room beyond
      have reachedNext : afterRounds (stream.followedBy beyond) (rounds + 1) = some next := by
        rw [afterRounds, reached]
        exact goesOn
      obtain ⟨further, few, last, left, reachedLast, ends⟩ :=
        inductionHypothesis reachedNext standsNext sameState
      have shorter := reader.state.advance_length_le stream.finish token rest
      refine ⟨further + 1, ?_, last, left, ?_, ends⟩
      · exact Nat.succ_le_succ (Nat.le_trans few shorter)
      · rwa [Nat.add_comm further 1, ← Nat.add_assoc]

/-- Where it stops, a reader gives what the parser gives. -/
theorem outcome_eq (stands : reader.StandsBefore stream rest)
    (ended : rest = [] ∨ Report.capacity ≤ reader.state.problems.size)
    (same : reader.state = stream.finalState (some Report.capacity)) (source : SourceFile)
    (beyond : List Token) :
    reader.outcome source (stream.followedBy beyond) =
      (parseStream (some Report.capacity) stream).mapError (Problem.report source) := by
  have parsed : parseStream (some Report.capacity) stream =
      if reader.state.blameOpenBlocks.isEmpty then .ok (reader.state.finish stream.span)
      else .error reader.state.blameOpenBlocks.toList := by
    rw [same]
    rfl
  have start : (nextToken (lastSpan (stream.followedBy beyond)) (stream.followedBy beyond)).span =
      (nextToken stream.finish stream.tokens).span :=
    congrArg Token.span (nextToken_append _ _ _ _)
  rw [parsed]
  simp only [outcome]
  by_cases clean : reader.state.blameOpenBlocks.isEmpty
  · -- Without a problem the reader has come to the end of the file.
    have none := Array.isEmpty_iff_size_eq_zero.mp clean
    rw [ParseState.blameOpenBlocks_size] at none
    have atEnd : rest = [] := by
      rcases ended with atEnd | full
      · exact atEnd
      · have positive : 0 < Report.capacity := by decide
        omega
    subst atEnd
    rw [if_pos clean, if_pos clean, start, stands.take_eq]
    rfl
  · rw [if_neg clean, if_neg clean]
    rfl

end Reader

/-! ### Whole lists -/

namespace TokenStream

theorem ofList_of_no_end {tokens : List Token} (noEnd : ∀ token ∈ tokens, token.kind ≠ .endOfFile) :
    ofList tokens = ⟨tokens, Reader.lastSpan tokens⟩ := by
  have passed : ∀ token ∈ tokens, (token.kind != .endOfFile) = true := fun token member =>
    bne_iff_ne.mpr (noEnd token member)
  have notFound : tokens.find? (fun token => token.kind == .endOfFile) = none := by
    simpa using noEnd
  simp only [ofList, List.takeWhile_eq_self_iff.mpr passed, notFound]
  rfl

/-- What a reader goes through is what the parser sees, followed by the end of the file at least. -/
theorem withEndOfFile_eq (tokens : List Token) :
    (ofList tokens).NoEnd ∧ ∃ beyond, withEndOfFile tokens = (ofList tokens).followedBy beyond := by
  cases found : tokens.find? (fun token => token.kind == .endOfFile) with
  | some last =>
      obtain ⟨isEnd, before, beyond, rfl, passed⟩ := List.find?_eq_some_iff_append.mp found
      have ends : last.kind = .endOfFile := eq_of_beq isEnd
      have noEnd : ∀ token ∈ before, token.kind ≠ .endOfFile := by
        simpa using passed
      have same (later : List Token) :
          followedBy ⟨before, last.span⟩ later = before ++ last :: later := by
        rw [followedBy, endAt, ← ends]
      rw [ofList_of_end noEnd ends]
      refine ⟨noEnd, ?_⟩
      unfold withEndOfFile
      split
      · exact ⟨beyond, (same beyond).symm⟩
      · exact ⟨_, (List.append_assoc before (last :: beyond) _).trans (same _).symm⟩
  | none =>
      have noEnd : ∀ token ∈ tokens, token.kind ≠ .endOfFile := by
        simpa using found
      rw [ofList_of_no_end noEnd]
      refine ⟨noEnd, [], ?_⟩
      have added : tokens.getLast?.any (·.kind == .endOfFile) = false := by
        cases final : tokens.getLast? with
        | none => rfl
        | some last => exact beq_eq_false_iff_ne.mpr (noEnd last (List.mem_of_getLast? final))
      rw [withEndOfFile, added]
      rfl

/-- The end of the file is the first one. -/
theorem findIdx_followedBy {stream : TokenStream} (noEnd : stream.NoEnd) (beyond : List Token) :
    (stream.followedBy beyond).findIdx (·.kind == .endOfFile) = stream.tokens.length := by
  have notFound : stream.tokens.findIdx (·.kind == .endOfFile) = stream.tokens.length := by
    apply List.findIdx_eq_length_of_false
    exact fun token member => beq_eq_false_iff_ne.mpr (noEnd token member)
  rw [followedBy, List.findIdx_append, notFound, if_neg (Nat.lt_irrefl _)]
  exact Nat.zero_add _

end TokenStream

/-- A round of the parser leaves a part of what follows the token at which it starts. On every list
of tokens, with an end of file added unless it ends in one: a reader never stands behind the first
end of file, every round moves its cursor on, and after at most as many rounds as there are tokens
before that end it stops, with what the parser makes of the list. So what stands behind the first
end of file has no bearing on the program or the report. -/
theorem reader_moves_up_to_end (source : SourceFile) (tokens : List Token) :
    let stream := withEndOfFile tokens
    let stop := stream.findIdx (·.kind == .endOfFile)
    (∀ (finish : Span) (state : ParseState) (token : Token) (rest : List Token),
      (state.advance finish token rest).2 <:+ rest) ∧
    stop < stream.length ∧
    (∀ rounds reader, Reader.afterRounds stream rounds = some reader →
      reader.cursor ≤ stop ∧
      ∀ next, reader.round stream = some next → reader.cursor < next.cursor) ∧
    (∃ rounds ≤ stop, ∃ reader, Reader.afterRounds stream rounds = some reader ∧
      reader.round stream = none ∧ reader.outcome source stream = parseTokens source tokens) ∧
    ∀ before last beyond, (∀ token ∈ before, token.kind ≠ .endOfFile) → last.kind = .endOfFile →
      parseTokens source (before ++ [last] ++ beyond) = parseTokens source (before ++ [last]) := by
  intro stream stop
  obtain ⟨noEnd, beyond, whole⟩ := TokenStream.withEndOfFile_eq tokens
  change stream = _ at whole
  have atEnd : stop = (TokenStream.ofList tokens).tokens.length := by
    rw [← TokenStream.findIdx_followedBy noEnd beyond, ← whole]
  rw [atEnd, whole]
  refine ⟨?_, ?_, ?_, ?_, ?_⟩
  · exact fun finish state token rest => state.advance_suffix finish token rest
  · rw [TokenStream.followedBy, List.length_append]
    exact Nat.lt_add_of_pos_right (Nat.succ_pos _)
  · intro rounds reader reached
    obtain ⟨rest, stands⟩ := Reader.afterRounds_stands noEnd reached
    exact ⟨stands.cursor_le, fun next goesOn => (Reader.round_moves noEnd stands goesOn).1⟩
  · have starts : Reader.afterRounds ((TokenStream.ofList tokens).followedBy beyond) 0 =
        some Reader.start := rfl
    obtain ⟨rounds, few, reader, left, reached, same, stands, ended⟩ :=
      Reader.afterRounds_stops noEnd starts (.start _)
    rw [Nat.zero_add] at reached
    exact ⟨rounds, few, reader, reached, Reader.round_of_end stands ended beyond,
      Reader.outcome_eq stands ended same source beyond⟩
  · intro before last beyond noEndBefore ends
    have cut (later : List Token) :
        TokenStream.ofList (before ++ last :: later) = ⟨before, last.span⟩ :=
      TokenStream.ofList_of_end noEndBefore ends later
    rw [List.append_assoc, List.singleton_append, parseTokens, parseTokens, cut, cut]

/-- A repeat count is followed by the end of the file, and that by a block. The round that misses
the block blames the end of the file and leaves the cursor there. -/
theorem reader_stops_before_block_behind_end :
    let source : SourceFile := ⟨"lesson.robo", "3"⟩
    let count : Token := ⟨.integer 3, .point 1 1 0⟩
    let finish : Token := ⟨.endOfFile, .point 1 2 1⟩
    let block : List Token := [⟨.openBrace, .point 2 1 2⟩, ⟨.closeBrace, .point 2 2 3⟩]
    let blamed : Problem := ⟨.missingBlock (.repeatCount 3) .endOfFile, .point 1 2 1⟩
    let reader : Reader := ⟨ParseState.initial.blame blamed, 1⟩
    let stream := withEndOfFile ([count] ++ [finish] ++ block)
    Reader.afterRounds stream 1 = some reader ∧
      reader.cursor ≤ stream.findIdx (·.kind == .endOfFile) ∧ reader.round stream = none ∧
      parseTokens source ([count] ++ [finish] ++ block) =
        parseTokens source ([count] ++ [finish]) := by
  intro source count finish block blamed reader stream
  have reached : Reader.afterRounds stream 1 = some reader := by decide
  have noEnd : ∀ token ∈ [count], token.kind ≠ .endOfFile := by decide
  have progress := reader_moves_up_to_end source ([count] ++ [finish] ++ block)
  refine ⟨reached, (progress.2.2.1 1 reader reached).1, by decide, ?_⟩
  exact progress.2.2.2.2 [count] finish block noEnd rfl

end RobotScript
