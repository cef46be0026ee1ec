/-
Module: RobotScript.Proofs.ParserRounds
Purpose: What one round of the parser can do. A round is one of the four clean rounds of `Round`, or
  one of the three of `FailedRound`, which add a problem each; problems are never taken back, so a
  stream that is accepted was read by clean rounds only. Facts about accepted streams follow by
  `parseStream_preserves` from what one clean round keeps; facts about all streams follow by
  `parseLoop_reaches` from what both kinds of rounds keep.
Main exports: Header, Owner.statement, Round, Abandoned, FailedRound, ParseState.advance_rounds,
  ParseState.advance_cases, ParseState.advance_takes, parseLoop_reaches, parseLoop_preserves,
  parseStream_eq_ok_iff, TokenStream.found_forall, parseStream_preserves, TokenStream.problems, parseTokens_eq_ok_iff,
  reportOn, complaintsAbout, TokenStream.ofList_of_end, kindsBeforeEnd
-/
import RobotScript.Program.Parser

namespace RobotScript

/-! ### Clean rounds -/

/-- The tokens that open a block, and the open block they give. -/
inductive Header : List Token → OpenBlock → Prop where
  | bare (brace : Span) : Header [⟨.openBrace, brace⟩] ⟨brace, #[], .bare⟩
  | repeated (count : UInt32) (start brace : Span) :
      Header [⟨.integer count, start⟩, ⟨.openBrace, brace⟩] ⟨brace, #[], .repeated count start⟩
  | thenBranch (condition : Ident) (start brace : Span) :
      Header [⟨.keyword .se, start⟩, ⟨.identifier condition.name, condition.span⟩,
        ⟨.openBrace, brace⟩] ⟨brace, #[], .thenBranch condition start⟩
  | loop (condition : Ident) (start brace : Span) :
      Header [⟨.keyword .enquanto, start⟩, ⟨.identifier condition.name, condition.span⟩,
        ⟨.openBrace, brace⟩] ⟨brace, #[], .loop condition start⟩

/-- The statement that a closed block makes with what it belongs to. -/
def Owner.statement (owner : Owner) (id : BlockId) (close : Span) : Stmt :=
  match owner with
  | .bare => .block id
  | .repeated count start => .repeated count id (start.merge close)
  | .thenBranch condition start => .conditional condition id none (start.merge close)
  | .elseBranch condition thenBlock start =>
      .conditional condition thenBlock (some id) (start.merge close)
  | .loop condition start => .loop condition id (start.merge close)

/-- The state right after a block is opened. -/
def ParseState.enter (state : ParseState) (block : OpenBlock) : ParseState :=
  { state with nest := block :: state.nest }

/-- The state right after the innermost block is closed and numbered. -/
def ParseState.closeInto (state : ParseState) (block : OpenBlock) (outer : List OpenBlock)
    (brace : Span) : ParseState :=
  { state with
    nest := outer
    blocks := state.blocks.push ⟨block.stmts, block.brace.merge brace⟩ }

/-- A round without a problem: the state and the tokens before it and after it. -/
inductive Round : ParseState → List Token → ParseState → List Token → Prop where
  | acts (state : ParseState) (letter : Char) (span : Span) (rest : List Token) :
      Round state (⟨.action letter, span⟩ :: rest) (state.addStmt (.action letter span)) rest
  | opens (state : ParseState) {read : List Token} {block : OpenBlock} (header : Header read block)
      (rest : List Token) :
      Round state (read ++ rest) (state.enter block) rest
  | closes {state : ParseState} {block : OpenBlock} {outer : List OpenBlock}
      (nested : state.nest = block :: outer) (brace : Span) (rest : List Token) :
      Round state (⟨.closeBrace, brace⟩ :: rest)
        ((state.closeInto block outer brace).addStmt (block.owner.statement state.nextId brace))
        rest
  | reopens {state : ParseState} {block : OpenBlock} {outer : List OpenBlock}
      (nested : state.nest = block :: outer) {condition : Ident} {start : Span}
      (owned : block.owner = .thenBranch condition start) (brace word openBrace : Span)
      (rest : List Token) :
      Round state
        (⟨.closeBrace, brace⟩ :: ⟨.keyword .senao, word⟩ :: ⟨.openBrace, openBrace⟩ :: rest)
        ((state.closeInto block outer brace).enter
          ⟨openBrace, #[], .elseBranch condition state.nextId start⟩) rest

/-! ### Failed rounds -/

/-- The tokens of a statement that is given up before `rest`, and what is wrong with it. -/
inductive Abandoned (finish : Span) (rest : List Token) : List Token → Problem → Prop where
  | repeated (count : UInt32) (start : Span) (noBlock : (nextToken finish rest).kind ≠ .openBrace) :
      Abandoned finish rest [⟨.integer count, start⟩]
        ⟨.missingBlock (.repeatCount count) (nextToken finish rest).kind,
          (nextToken finish rest).span⟩
  | nameless (word : Keyword) (introduces : word.introducesName = true) (start : Span)
      (noName : ∀ name, (nextToken finish rest).kind ≠ .identifier name) :
      Abandoned finish rest [⟨.keyword word, start⟩]
        ⟨.missingCondition word (nextToken finish rest).kind, (nextToken finish rest).span⟩
  | conditional (condition : Ident) (start : Span)
      (noBlock : (nextToken finish rest).kind ≠ .openBrace) :
      Abandoned finish rest
        [⟨.keyword .se, start⟩, ⟨.identifier condition.name, condition.span⟩]
        ⟨.missingBlock (.conditional condition.name) (nextToken finish rest).kind,
          (nextToken finish rest).span⟩
  | loop (condition : Ident) (start : Span) (noBlock : (nextToken finish rest).kind ≠ .openBrace) :
      Abandoned finish rest
        [⟨.keyword .enquanto, start⟩, ⟨.identifier condition.name, condition.span⟩]
        ⟨.missingBlock (.loop condition.name) (nextToken finish rest).kind,
          (nextToken finish rest).span⟩
  | strayElse (word : Span) : Abandoned finish rest [⟨.keyword .senao, word⟩] ⟨.strayElse, word⟩
  | invalid (text : String) (place : Span) :
      Abandoned finish rest [⟨.invalid text, place⟩] ⟨.invalidToken text, place⟩
  | strayName (name : String) (place : Span) :
      Abandoned finish rest [⟨.identifier name, place⟩] ⟨.unexpectedToken (.identifier name), place⟩
  | strayEnd (place : Span) :
      Abandoned finish rest [⟨.endOfFile, place⟩] ⟨.unexpectedToken .endOfFile, place⟩

/-- A round with a problem: the state and the tokens before it, the problem, and the state and the
tokens after it. -/
inductive FailedRound (finish : Span) :
    ParseState → List Token → Problem → ParseState → List Token → Prop where
  | unmatched {state : ParseState} (outermost : state.nest = []) (brace : Span)
      (rest : List Token) :
      FailedRound finish state (⟨.closeBrace, brace⟩ :: rest) ⟨.unmatchedBrace, brace⟩
        (state.blame ⟨.unmatchedBrace, brace⟩) rest
  | abandons (state : ParseState) {read rest : List Token} {problem : Problem}
      (abandoned : Abandoned finish rest read problem) :
      FailedRound finish state (read ++ rest) problem (state.blame problem) (recover rest)
  | elseless {state : ParseState} {block : OpenBlock} {outer : List OpenBlock}
      (nested : state.nest = block :: outer) {condition : Ident} {start : Span}
      (owned : block.owner = .thenBranch condition start) (brace word : Span) {rest : List Token}
      (noBlock : (nextToken finish rest).kind ≠ .openBrace) {problem : Problem}
      (blamed : problem = ⟨.missingBlock .alternative (nextToken finish rest).kind,
        (nextToken finish rest).span⟩) :
      FailedRound finish state (⟨.closeBrace, brace⟩ :: ⟨.keyword .senao, word⟩ :: rest) problem
        ((state.closeInto block outer brace).blame problem) (recover rest)

theorem FailedRound.problems_eq {finish : Span} {state after : ParseState}
    {tokens rest : List Token} {problem : Problem}
    (failed : FailedRound finish state tokens problem after rest) :
    after.problems = state.problems.push problem := by
  cases failed with
  | unmatched => rfl
  | abandons => rfl
  | elseless => rfl

/-! ### The parts of a round -/

theorem openBlock_cases (finish : Span) (construct : Construct) (owner : Owner)
    (rest : List Token) :
    ((nextToken finish rest).kind ≠ .openBrace ∧
      openBlock finish construct owner rest =
        (.failed ⟨.missingBlock construct (nextToken finish rest).kind,
          (nextToken finish rest).span⟩, rest)) ∨
      ∃ brace later, rest = ⟨.openBrace, brace⟩ :: later ∧
        openBlock finish construct owner rest = (.opened ⟨brace, #[], owner⟩, later) := by
  unfold openBlock
  dsimp only
  split
  · rename_i opens
    match rest, opens with
    | ⟨.openBrace, brace⟩ :: later, _ => exact Or.inr ⟨brace, later, rfl, rfl⟩
  · rename_i noBlock
    exact Or.inl ⟨noBlock, rfl⟩

theorem withCondition_cases (finish : Span) (word : Keyword) (rest : List Token)
    (go : Ident → List Token → Progress × List Token) :
    ((∀ name, (nextToken finish rest).kind ≠ .identifier name) ∧
      withCondition finish word rest go =
        (.failed ⟨.missingCondition word (nextToken finish rest).kind,
          (nextToken finish rest).span⟩, rest)) ∨
      ∃ condition later, rest = ⟨.identifier condition.name, condition.span⟩ :: later ∧
        withCondition finish word rest go = go condition later := by
  unfold withCondition
  dsimp only
  split
  · rename_i name named
    match rest, named with
    | ⟨.identifier _, span⟩ :: later, rfl => exact Or.inr ⟨⟨_, span⟩, later, rfl, rfl⟩
  · rename_i noName
    exact Or.inl ⟨noName, rfl⟩

/-- Starting a statement gives it up, reads an action, or opens a block. -/
theorem startStatement_cases (finish : Span) (token : Token) (rest : List Token)
    (opens : token.kind ≠ .closeBrace) :
    (∃ read problem later, Abandoned finish later read problem ∧ token :: rest = read ++ later ∧
        startStatement finish token rest = (.failed problem, later)) ∨
      (∃ letter span, token = ⟨.action letter, span⟩ ∧
        startStatement finish token rest = (.complete (.action letter span), rest)) ∨
      ∃ read block later, Header read block ∧ token :: rest = read ++ later ∧
        startStatement finish token rest = (.opened block, later) := by
  obtain ⟨kind, start⟩ := token
  cases kind with
  | action letter => exact Or.inr (Or.inl ⟨letter, start, rfl, rfl⟩)
  | integer count =>
      rcases openBlock_cases finish (.repeatCount count) (.repeated count start) rest with
        ⟨noBlock, failed⟩ | ⟨brace, later, rfl, opened⟩
      · exact Or.inl ⟨_, _, rest, .repeated count start noBlock, rfl, failed⟩
      · exact Or.inr (Or.inr ⟨_, _, later, .repeated count start brace, rfl, opened⟩)
  | openBrace => exact Or.inr (Or.inr ⟨_, _, rest, .bare start, rfl, rfl⟩)
  | keyword word =>
      cases word with
      | senao => exact Or.inl ⟨_, _, rest, .strayElse start, rfl, rfl⟩
      | se =>
          simp only [startStatement]
          rcases withCondition_cases finish .se rest _ with
            ⟨noName, failed⟩ | ⟨condition, later, rfl, found⟩
          · exact Or.inl ⟨_, _, rest, .nameless .se rfl start noName, rfl, failed⟩
          rw [found]
          rcases openBlock_cases finish (.conditional condition.name)
              (.thenBranch condition start) later with
            ⟨noBlock, failed⟩ | ⟨brace, later, rfl, opened⟩
          · exact Or.inl ⟨_, _, later, .conditional condition start noBlock, rfl, failed⟩
          · exact Or.inr (Or.inr ⟨_, _, later, .thenBranch condition start brace, rfl, opened⟩)
      | enquanto =>
          simp only [startStatement]
          rcases withCondition_cases finish .enquanto rest _ with
            ⟨noName, failed⟩ | ⟨condition, later, rfl, found⟩
          · exact Or.inl ⟨_, _, rest, .nameless .enquanto rfl start noName, rfl, failed⟩
          rw [found]
          rcases openBlock_cases finish (.loop condition.name) (.loop condition start) later with
            ⟨noBlock, failed⟩ | ⟨brace, later, rfl, opened⟩
          · exact Or.inl ⟨_, _, later, .loop condition start noBlock, rfl, failed⟩
          · exact Or.inr (Or.inr ⟨_, _, later, .loop condition start brace, rfl, opened⟩)
  | identifier name => exact Or.inl ⟨_, _, rest, .strayName name start, rfl, rfl⟩
  | closeBrace => exact absurd rfl opens
  | invalid text => exact Or.inl ⟨_, _, rest, .invalid text start, rfl, rfl⟩
  | endOfFile => exact Or.inl ⟨_, _, rest, .strayEnd start, rfl, rfl⟩

/-- Closing a block fails after `senao`, completes its statement, or opens the block after
`senao`. -/
theorem Owner.finishBlock_cases (finish : Span) (owner : Owner) (id : BlockId) (close : Span)
    (rest : List Token) :
    (∃ condition start word later, owner = .thenBranch condition start ∧
        rest = ⟨.keyword .senao, word⟩ :: later ∧ (nextToken finish later).kind ≠ .openBrace ∧
        owner.finishBlock finish id close rest =
          (.failed ⟨.missingBlock .alternative (nextToken finish later).kind,
            (nextToken finish later).span⟩, later)) ∨
      owner.finishBlock finish id close rest = (.complete (owner.statement id close), rest) ∨
      ∃ condition start word brace later, owner = .thenBranch condition start ∧
        rest = ⟨.keyword .senao, word⟩ :: ⟨.openBrace, brace⟩ :: later ∧
        owner.finishBlock finish id close rest =
          (.opened ⟨brace, #[], .elseBranch condition id start⟩, later) := by
  cases owner with
  | bare => exact Or.inr (Or.inl rfl)
  | repeated count start => exact Or.inr (Or.inl rfl)
  | elseBranch condition thenBlock start => exact Or.inr (Or.inl rfl)
  | loop condition start => exact Or.inr (Or.inl rfl)
  | thenBranch condition start =>
      simp only [finishBlock, statement]
      split
      · rename_i continued
        match rest, continued with
        | ⟨.keyword .senao, word⟩ :: rest, _ =>
            rcases openBlock_cases finish .alternative (.elseBranch condition id start) rest with
              ⟨noBlock, failed⟩ | ⟨brace, later, rfl, opened⟩
            · exact Or.inl ⟨condition, start, word, rest, rfl, rfl, noBlock, failed⟩
            · exact Or.inr (Or.inr ⟨condition, start, word, brace, later, rfl, rfl, opened⟩)
      · exact Or.inr (Or.inl rfl)

namespace ParseState

theorem close_eq {state : ParseState} {block : OpenBlock} {outer : List OpenBlock}
    (nested : state.nest = block :: outer) (finish brace : Span) (rest : List Token) :
    state.close finish brace rest =
      (state.closeInto block outer brace).absorb
        (block.owner.finishBlock finish state.nextId brace rest) := by
  obtain ⟨nest, top, blocks, problems⟩ := state
  subst nested
  rfl

/-- A round is clean or fails in one of the known ways. -/
theorem advance_rounds (finish : Span) (state : ParseState) (token : Token) (rest : List Token) :
    Round state (token :: rest) (state.advance finish token rest).1
        (state.advance finish token rest).2 ∨
      ∃ problem, FailedRound finish state (token :: rest) problem
        (state.advance finish token rest).1 (state.advance finish token rest).2 := by
  simp only [advance]
  split
  · rename_i closes
    obtain ⟨kind, brace⟩ := token
    subst closes
    cases nested : state.nest with
    | nil =>
        simp only [close, nested]
        exact Or.inr ⟨_, .unmatched nested brace rest⟩
    | cons block outer =>
        rw [close_eq nested]
        rcases block.owner.finishBlock_cases finish state.nextId brace rest with
          ⟨condition, start, word, later, owned, rfl, noBlock, failed⟩ | completed |
          ⟨condition, start, word, openBrace, later, owned, rfl, opened⟩
        · rw [failed]
          exact Or.inr ⟨_, .elseless nested owned brace word noBlock rfl⟩
        · rw [completed]
          exact Or.inl (.closes nested brace rest)
        · rw [opened]
          exact Or.inl (.reopens nested owned brace word openBrace later)
  · rename_i opens
    rcases startStatement_cases finish token rest opens with
      ⟨read, problem, later, abandoned, split, failed⟩ | ⟨letter, span, rfl, completed⟩ |
      ⟨read, block, later, header, split, opened⟩
    · rw [failed, split]
      exact Or.inr ⟨problem, .abandons state abandoned⟩
    · rw [completed]
      exact Or.inl (.acts state letter span rest)
    · rw [opened, split]
      exact Or.inl (.opens state header later)

/-- A round adds a problem or is clean. -/
theorem advance_cases (finish : Span) (state : ParseState) (token : Token) (rest : List Token) :
    (∃ problem, (state.advance finish token rest).1.problems = state.problems.push problem) ∨
      Round state (token :: rest) (state.advance finish token rest).1
        (state.advance finish token rest).2 := by
  rcases state.advance_rounds finish token rest with clean | ⟨problem, failed⟩
  · exact Or.inr clean
  · exact Or.inl ⟨problem, failed.problems_eq⟩

theorem addStmt_problems (state : ParseState) (stmt : Stmt) :
    (state.addStmt stmt).problems = state.problems := by
  simp only [addStmt]
  split <;> rfl

end ParseState

theorem Round.problems_eq {state after : ParseState} {tokens rest : List Token}
    (round : Round state tokens after rest) : after.problems = state.problems := by
  cases round with
  | acts => exact state.addStmt_problems _
  | opens => rfl
  | closes => exact ParseState.addStmt_problems _ _
  | reopens => rfl

theorem Header.ne_nil {read : List Token} {block : OpenBlock} (header : Header read block) :
    read ≠ [] := by
  cases header <;> exact List.cons_ne_nil _ _

theorem Abandoned.ne_nil {finish : Span} {rest read : List Token} {problem : Problem}
    (abandoned : Abandoned finish rest read problem) : read ≠ [] := by
  cases abandoned <;> exact List.cons_ne_nil _ _

/-- A clean round takes tokens off the stream, at least one. -/
theorem Round.takes {state after : ParseState} {tokens rest : List Token}
    (round : Round state tokens after rest) : ∃ taken, taken ≠ [] ∧ tokens = taken ++ rest := by
  cases round with
  | acts letter span => exact ⟨[_], List.cons_ne_nil _ _, rfl⟩
  | opens header => exact ⟨_, header.ne_nil, rfl⟩
  | closes nested brace => exact ⟨[_], List.cons_ne_nil _ _, rfl⟩
  | reopens nested owned brace word openBrace => exact ⟨[_, _, _], List.cons_ne_nil _ _, rfl⟩

theorem recover_suffix (rest : List Token) : recover rest <:+ rest :=
  List.dropWhile_suffix _

/-- So does a failed round; recovery may take further ones. -/
theorem FailedRound.takes {finish : Span} {state after : ParseState} {tokens rest : List Token}
    {problem : Problem} (failed : FailedRound finish state tokens problem after rest) :
    ∃ taken, taken ≠ [] ∧ tokens = taken ++ rest := by
  cases failed with
  | unmatched outermost brace => exact ⟨[_], List.cons_ne_nil _ _, rfl⟩
  | @abandons read later _ abandoned =>
      rcases recover_suffix later with ⟨skipped, split⟩
      refine ⟨read ++ skipped, ?_, ?_⟩
      · exact List.append_ne_nil_of_left_ne_nil abandoned.ne_nil skipped
      · rw [List.append_assoc, split]
  | @elseless block outer nested condition start owned brace word later noBlock _ blamed =>
      rcases recover_suffix later with ⟨skipped, split⟩
      refine ⟨⟨.closeBrace, brace⟩ :: ⟨.keyword .senao, word⟩ :: skipped,
        List.cons_ne_nil _ _, ?_⟩
      rw [List.cons_append, List.cons_append, split]

theorem ParseState.advance_takes (finish : Span) (state : ParseState) (token : Token)
    (rest : List Token) :
    ∃ taken, taken ≠ [] ∧ token :: rest = taken ++ (state.advance finish token rest).2 := by
  rcases state.advance_rounds finish token rest with clean | ⟨problem, failed⟩
  · exact clean.takes
  · exact failed.takes

/-! ### Whole streams -/

/-- A round takes no problem back. -/
theorem ParseState.problems_prefix_advance (finish : Span) (state : ParseState) (token : Token)
    (rest : List Token) :
    state.problems.toList <+: (state.advance finish token rest).1.problems.toList := by
  rcases state.advance_cases finish token rest with ⟨problem, added⟩ | round
  · rw [added, Array.toList_push]
    exact List.prefix_append _ _
  · have same := congrArg Array.toList round.problems_eq
    exact ⟨[], (List.append_nil _).trans same.symm⟩

theorem problems_prefix_parseLoop (limit : Option Nat) (finish : Span) (state : ParseState)
    (tokens : List Token) :
    state.problems.toList <+: (parseLoop limit finish state tokens).problems.toList := by
  fun_induction parseLoop limit finish state tokens with
  | case1 state => exact List.prefix_rfl
  | case2 state token rest full => exact List.prefix_rfl
  | case3 state token rest room round inductionHypothesis =>
      exact (state.problems_prefix_advance finish token rest).trans inductionHypothesis

/-- What rounds of both kinds keep holds where reading stops: at the end of the stream, or once
the limit is reached. -/
theorem parseLoop_reaches {P : ParseState → List Token → Prop} {finish : Span}
    (kept : ∀ (state : ParseState) (token : Token) (rest : List Token), P state (token :: rest) →
      P (state.advance finish token rest).1 (state.advance finish token rest).2)
    (limit : Option Nat) {state : ParseState} {tokens : List Token} (holds : P state tokens) :
    ∃ left, P (parseLoop limit finish state tokens) left ∧
      (left = [] ∨ limit.any (· ≤ (parseLoop limit finish state tokens).problems.size)) := by
  fun_induction parseLoop limit finish state tokens with
  | case1 state => exact ⟨[], holds, Or.inl rfl⟩
  | case2 state token rest full => exact ⟨token :: rest, holds, Or.inr full⟩
  | case3 state token rest room round inductionHypothesis =>
      exact inductionHypothesis (kept state token rest holds)

/-- What clean rounds keep holds at the end of a stream that is read without a problem. -/
theorem parseLoop_preserves {P : ParseState → List Token → Prop}
    (kept : ∀ {state after : ParseState} {tokens rest : List Token},
      Round state tokens after rest → P state tokens → P after rest)
    {limit : Option Nat} (room : limit.any (· ≤ 0) = false) {finish : Span} {state : ParseState}
    {tokens : List Token} (holds : P state tokens)
    (clean : (parseLoop limit finish state tokens).problems.size = 0) :
    P (parseLoop limit finish state tokens) [] := by
  fun_induction parseLoop limit finish state tokens with
  | case1 state => exact holds
  | case2 state token rest full =>
      rw [clean, room] at full
      cases full
  | case3 state token rest goesOn round inductionHypothesis =>
      apply inductionHypothesis _ clean
      rcases state.advance_cases finish token rest with ⟨problem, added⟩ | cleanRound
      · have kept := (problems_prefix_parseLoop limit finish round.1 round.2).length_le
        have grown : round.1.problems.size = state.problems.size + 1 := by
          rw [added, Array.size_push]
        simp only [Array.length_toList] at kept
        omega
      · exact kept cleanRound holds

theorem ParseState.blameOpenBlocks_toList (state : ParseState) :
    state.blameOpenBlocks.toList =
      state.problems.toList ++ state.nest.map fun block => ⟨.unclosedBrace, block.brace⟩ := by
  simp only [blameOpenBlocks]
  generalize state.problems = problems
  induction state.nest generalizing problems with
  | nil => simp
  | cons block outer inductionHypothesis =>
      rw [List.foldl_cons, inductionHypothesis, Array.toList_push]
      simp

theorem ParseState.blameOpenBlocks_size (state : ParseState) :
    state.blameOpenBlocks.size = state.problems.size + state.nest.length := by
  rw [← Array.length_toList, state.blameOpenBlocks_toList]
  simp

/-- The state after the last round on a stream. -/
def TokenStream.finalState (limit : Option Nat) (stream : TokenStream) : ParseState :=
  parseLoop limit stream.finish ParseState.initial stream.tokens

/-- What rounds keep of the tokens that are left, and what a failed round then finds, holds of every
problem that is found on the way. -/
theorem TokenStream.found_forall {stream : TokenStream} {P : List Token → Prop} {Q : Problem → Prop}
    (kept : ∀ {state after : ParseState} {tokens rest : List Token},
      Round state tokens after rest → P tokens → P rest)
    (finds : ∀ {state after : ParseState} {tokens rest : List Token} {problem : Problem},
      FailedRound stream.finish state tokens problem after rest → P tokens → P rest ∧ Q problem)
    (limit : Option Nat) (holds : P stream.tokens) :
    ∀ problem ∈ (stream.finalState limit).problems.toList, Q problem := by
  have start : P stream.tokens ∧ ∀ problem ∈ ParseState.initial.problems.toList, Q problem :=
    ⟨holds, by simp [ParseState.initial]⟩
  have step : ∀ (state : ParseState) (token : Token) (rest : List Token),
      (P (token :: rest) ∧ ∀ problem ∈ state.problems.toList, Q problem) →
      P (state.advance stream.finish token rest).2 ∧
        ∀ problem ∈ (state.advance stream.finish token rest).1.problems.toList, Q problem := by
    intro state token rest before
    rcases state.advance_rounds stream.finish token rest with clean | ⟨problem, failed⟩
    · rw [clean.problems_eq]
      exact ⟨kept clean before.1, before.2⟩
    · have found := finds failed before.1
      rw [failed.problems_eq, Array.toList_push, List.forall_mem_append, List.forall_mem_singleton]
      exact ⟨found.1, before.2, found.2⟩
  rcases parseLoop_reaches
      (P := fun state left => P left ∧ ∀ problem ∈ state.problems.toList, Q problem)
      step limit start with ⟨_, reached, -⟩
  exact reached.2

/-- The program that a state without open blocks stands for. -/
def ParseState.finish (state : ParseState) (span : Span) : Program :=
  ⟨state.blocks.push ⟨state.top, span⟩, state.nextId⟩

/-- A stream is accepted if no problem was found and no block is left open. -/
theorem parseStream_eq_ok_iff {limit : Option Nat} {stream : TokenStream} {program : Program} :
    parseStream limit stream = .ok program ↔
      (stream.finalState limit).problems.size = 0 ∧ (stream.finalState limit).nest = [] ∧
        program = (stream.finalState limit).finish stream.span := by
  have size := (stream.finalState limit).blameOpenBlocks_size
  rw [← List.length_eq_zero_iff]
  change (if (stream.finalState limit).blameOpenBlocks.isEmpty then _ else _) = _ ↔ _
  split
  · rename_i empty
    rw [Array.isEmpty_iff_size_eq_zero, size] at empty
    constructor
    · intro same
      exact ⟨by omega, by omega, (Except.ok.inj same).symm⟩
    · rintro ⟨-, -, rfl⟩
      rfl
  · rename_i blamed
    rw [Array.isEmpty_iff_size_eq_zero, size] at blamed
    constructor
    · intro same
      cases same
    · rintro ⟨clean, closed, -⟩
      omega

/-- What clean rounds keep holds of the state that an accepted program comes from. -/
theorem parseStream_preserves {P : ParseState → List Token → Prop}
    (kept : ∀ {state after : ParseState} {tokens rest : List Token},
      Round state tokens after rest → P state tokens → P after rest)
    {limit : Option Nat} (room : limit.any (· ≤ 0) = false) {stream : TokenStream}
    (holds : P ParseState.initial stream.tokens) {program : Program}
    (accepted : parseStream limit stream = .ok program) : P (stream.finalState limit) [] := by
  obtain ⟨clean, -, -⟩ := parseStream_eq_ok_iff.mp accepted
  exact parseLoop_preserves kept room holds clean

/-- The problems of a stream; none if it is accepted. -/
def TokenStream.problems (limit : Option Nat) (stream : TokenStream) : List Problem :=
  match parseStream limit stream with
  | .ok _ => []
  | .error problems => problems

/-- The problems found on the way come first, then one for each block left open. -/
theorem TokenStream.problems_eq (limit : Option Nat) (stream : TokenStream) :
    stream.problems limit = (stream.finalState limit).problems.toList ++
      (stream.finalState limit).nest.map fun block => ⟨.unclosedBrace, block.brace⟩ := by
  rw [← ParseState.blameOpenBlocks_toList]
  unfold problems parseStream
  simp only [finalState]
  generalize (parseLoop limit stream.finish ParseState.initial stream.tokens) = state
  by_cases empty : state.blameOpenBlocks.isEmpty
  · rw [if_pos empty, Array.isEmpty_iff.mp empty]
  · rw [if_neg empty]

/-- A refused stream has problems. -/
theorem parseStream_error_ne_nil {limit : Option Nat} {stream : TokenStream}
    {problems : List Problem} (refused : parseStream limit stream = .error problems) :
    problems ≠ [] := by
  unfold parseStream at refused
  dsimp only at refused
  split at refused
  · cases refused
  · rename_i blamed
    obtain rfl := Except.error.inj refused
    simpa using blamed

theorem parseTokens_eq_ok_iff {source : SourceFile} {tokens : List Token} {program : Program} :
    parseTokens source tokens = .ok program ↔
      parseStream (some Report.capacity) (TokenStream.ofList tokens) = .ok program := by
  simp only [parseTokens]
  cases parseStream (some Report.capacity) (TokenStream.ofList tokens) with
  | ok read =>
      constructor
      · intro accepted
        exact congrArg Except.ok (Except.ok.inj accepted)
      · intro accepted
        exact congrArg Except.ok (Except.ok.inj accepted)
  | error problems =>
      constructor
      · intro accepted
        cases accepted
      · intro accepted
        cases accepted

/-- The report on a refused token list counts at least one complaint. -/
theorem parseTokens_error_total {source : SourceFile} {tokens : List Token} {report : Report}
    (refused : parseTokens source tokens = .error report) : 1 ≤ report.total := by
  simp only [parseTokens] at refused
  cases outcome : parseStream (some Report.capacity) (TokenStream.ofList tokens) with
  | ok program =>
      rw [outcome] at refused
      cases refused
  | error problems =>
      rw [outcome] at refused
      obtain rfl := Except.error.inj refused
      rw [Problem.report_eq]
      exact List.length_pos_iff.mpr (parseStream_error_ne_nil outcome)

/-- The report on a list of tokens; empty if they spell a program. -/
def reportOn (source : SourceFile) (tokens : List Token) : Report :=
  match parseTokens source tokens with
  | .ok _ => Report.empty
  | .error report => report

theorem reportOn_eq (source : SourceFile) (tokens : List Token) :
    reportOn source tokens =
      Problem.report source ((TokenStream.ofList tokens).problems (some Report.capacity)) := by
  unfold reportOn parseTokens TokenStream.problems
  cases parseStream (some Report.capacity) (TokenStream.ofList tokens) with
  | ok program => rfl
  | error problems => rfl

/-- The complaints that are stored about a script; none if it is accepted. -/
def complaintsAbout (source : SourceFile) : List Diagnostic :=
  match parse source with
  | .ok _ => []
  | .error report => report.stored

theorem complaintsAbout_eq (source : SourceFile) :
    complaintsAbout source =
      (((TokenStream.ofList (lex source.text)).problems (some Report.capacity)).take
        Report.capacity).map (Problem.diagnose source) := by
  unfold complaintsAbout parse parseTokens TokenStream.problems
  cases parseStream (some Report.capacity) (TokenStream.ofList (lex source.text)) with
  | ok program => rfl
  | error problems => exact congrArg Report.stored (Problem.report_eq source problems)

/-- A list is cut at its first end of file, whatever follows that. -/
theorem TokenStream.ofList_of_end {before : List Token}
    (noEnd : ∀ token ∈ before, token.kind ≠ .endOfFile) {last : Token}
    (ends : last.kind = .endOfFile) (beyond : List Token) :
    ofList (before ++ last :: beyond) = ⟨before, last.span⟩ := by
  have passed : ∀ token ∈ before, (token.kind != .endOfFile) = true := fun token member =>
    bne_iff_ne.mpr (noEnd token member)
  have notFound : before.find? (fun token => token.kind == .endOfFile) = none := by
    simpa using noEnd
  simp [ofList, List.takeWhile_append_of_pos passed, notFound, ends]

/-- The kinds of the tokens before the first end of file. -/
def kindsBeforeEnd (tokens : List Token) : List TokenKind :=
  (tokens.map Token.kind).takeWhile (· != .endOfFile)

theorem kinds_ofList (tokens : List Token) :
    (TokenStream.ofList tokens).tokens.map Token.kind = kindsBeforeEnd tokens := by
  simp only [kindsBeforeEnd]
  rw [List.takeWhile_map]
  rfl

end RobotScript
