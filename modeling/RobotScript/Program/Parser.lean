/-
Module: RobotScript.Program.Parser
Purpose: From tokens to a program, or to all problems found on the way.

    statement   := action | repeat | conditional | loop | block
    repeat      := INTEGER block
    conditional := "se" NAME block ("senao" block)?
    loop        := "enquanto" NAME block
    block       := open brace, statement*, close brace

  The blocks that are open are kept in a list, innermost first, so nesting costs no call depth.
  After a problem reading goes on at the next token that can begin a statement or close a block, and
  never past the end of the file.
Main exports: TokenStream, OpenBlock, ParseState, ParseState.advance, parseLoop, parseProblems,
  parseTokens, parse
-/
import RobotScript.Diagnostic.Problem
import RobotScript.Program.Basic
import RobotScript.Token.Lexer

namespace RobotScript

/-! ### Token streams -/

/-- The tokens before the end of the file, and where that end is. -/
structure TokenStream where
  tokens : List Token
  finish : Span
  deriving Repr, Inhabited, DecidableEq

namespace TokenStream

/-- Cuts a list of tokens at its first end of file. A list without one ends where its last token
stands. -/
def ofList (tokens : List Token) : TokenStream :=
  { tokens := tokens.takeWhile fun token => token.kind != .endOfFile
    finish :=
      match tokens.find? fun token => token.kind == .endOfFile with
      | some token => token.span
      | none => (tokens.getLast?.map Token.span).getD Span.origin }

end TokenStream

/-- The token that comes next: the end of the file if none is left. -/
def nextToken (finish : Span) : List Token → Token
  | [] => ⟨.endOfFile, finish⟩
  | token :: _ => token

/-- Where skipping stops after a problem: where a statement can begin or a block be closed, and at
the end of the file. -/
def TokenKind.resumesAt (kind : TokenKind) : Bool :=
  kind.startsStatement || kind == .closeBrace || kind == .endOfFile

/-- Skips the tokens up to the next place where reading can go on. -/
def recover (rest : List Token) : List Token :=
  rest.dropWhile fun token => !token.kind.resumesAt

/-! ### Open blocks -/

/-- The statement that an open block becomes part of when it is closed. -/
inductive Owner where
  | bare
  | repeated (count : UInt32) (start : Span)
  | thenBranch (condition : Ident) (start : Span)
  | elseBranch (condition : Ident) (thenBlock : BlockId) (start : Span)
  | loop (condition : Ident) (start : Span)
  deriving Repr, Inhabited, DecidableEq

/-- A block whose closing brace has not come yet: the place of its opening brace, its statements
so far, and what it belongs to. -/
structure OpenBlock where
  brace : Span
  stmts : Array Stmt
  owner : Owner
  deriving Repr, Inhabited, DecidableEq

/-- What came of starting a statement, or of closing a block. -/
inductive Progress where
  /-- A statement is complete. -/
  | complete (stmt : Stmt)
  /-- A block was opened; statements go into it from now on. -/
  | opened (block : OpenBlock)
  | failed (problem : Problem)
  deriving Repr, Inhabited, DecidableEq

/-- Takes the opening brace that `construct` needs, or blames the token in its place, which is
left for later. -/
def openBlock (finish : Span) (construct : Construct) (owner : Owner) (rest : List Token) :
    Progress × List Token :=
  let next := nextToken finish rest
  if next.kind = .openBrace then (.opened ⟨next.span, #[], owner⟩, rest.tail)
  else (.failed ⟨.missingBlock construct next.kind, next.span⟩, rest)

/-- Takes the name that `word` needs, or blames the token in its place, which is left for later;
then goes on with the name. -/
def withCondition (finish : Span) (word : Keyword) (rest : List Token)
    (go : Ident → List Token → Progress × List Token) : Progress × List Token :=
  let next := nextToken finish rest
  match next.kind with
  | .identifier name => go ⟨name, next.span⟩ rest.tail
  | found => (.failed ⟨.missingCondition word found, next.span⟩, rest)

/-- Starts the statement that begins with `token`. -/
def startStatement (finish : Span) (token : Token) (rest : List Token) :
    Progress × List Token :=
  match token.kind with
  | .action letter => (.complete (.action letter token.span), rest)
  | .integer count => openBlock finish (.repeatCount count) (.repeated count token.span) rest
  | .keyword .se =>
      withCondition finish .se rest fun condition later =>
        openBlock finish (.conditional condition.name) (.thenBranch condition token.span) later
  | .keyword .enquanto =>
      withCondition finish .enquanto rest fun condition later =>
        openBlock finish (.loop condition.name) (.loop condition token.span) later
  | .openBrace => (.opened ⟨token.span, #[], .bare⟩, rest)
  | .keyword .senao => (.failed ⟨.strayElse, token.span⟩, rest)
  | .invalid text => (.failed ⟨.invalidToken text, token.span⟩, rest)
  | found => (.failed ⟨.unexpectedToken found, token.span⟩, rest)

/-- What closing a block at `close` gives, once the block has its number. The block of a `se` may
be followed by `senao` and a second block. -/
def Owner.finishBlock (finish : Span) (owner : Owner) (id : BlockId) (close : Span)
    (rest : List Token) : Progress × List Token :=
  match owner with
  | .bare => (.complete (.block id), rest)
  | .repeated count start => (.complete (.repeated count id (start.merge close)), rest)
  | .loop condition start => (.complete (.loop condition id (start.merge close)), rest)
  | .elseBranch condition thenBlock start =>
      (.complete (.conditional condition thenBlock (some id) (start.merge close)), rest)
  | .thenBranch condition start =>
      if (nextToken finish rest).kind = .keyword .senao then
        openBlock finish .alternative (.elseBranch condition id start) rest.tail
      else (.complete (.conditional condition id none (start.merge close)), rest)

/-! ### The parser's state -/

/-- What has been read: the open blocks (innermost first), the statements at top level, the closed
blocks in the order they were closed, and the problems in the order they were found. -/
structure ParseState where
  nest : List OpenBlock
  top : Array Stmt
  blocks : Array Block
  problems : Array Problem
  deriving Repr, Inhabited, DecidableEq

namespace ParseState

/-- Nothing read yet. -/
def initial : ParseState := ⟨[], #[], #[], #[]⟩

/-- The number that the next closed block gets. -/
def nextId (state : ParseState) : BlockId :=
  ⟨UInt32.ofNat state.blocks.size⟩

/-- Adds a problem. -/
def blame (state : ParseState) (problem : Problem) : ParseState :=
  { state with problems := state.problems.push problem }

/-- Adds a statement to the innermost open block, or to the top level. -/
def addStmt (state : ParseState) (stmt : Stmt) : ParseState :=
  match state with
  | ⟨[], top, blocks, problems⟩ => ⟨[], top.push stmt, blocks, problems⟩
  | ⟨⟨brace, stmts, owner⟩ :: outer, top, blocks, problems⟩ =>
      ⟨⟨brace, stmts.push stmt, owner⟩ :: outer, top, blocks, problems⟩

/-- Takes in what came of a statement; after a problem, skips to where reading can go on. -/
def absorb (state : ParseState) : Progress × List Token → ParseState × List Token
  | (.complete stmt, rest) => (state.addStmt stmt, rest)
  | (.opened block, rest) => ({ state with nest := block :: state.nest }, rest)
  | (.failed problem, rest) => (state.blame problem, recover rest)

/-- Closes the innermost open block at a closing brace; at top level the brace is a problem. -/
def close (finish : Span) (state : ParseState) (brace : Span) (rest : List Token) :
    ParseState × List Token :=
  match state.nest with
  | [] => (state.blame ⟨.unmatchedBrace, brace⟩, rest)
  | block :: outer =>
      let id := state.nextId
      let closed : ParseState :=
        { state with
          nest := outer
          blocks := state.blocks.push ⟨block.stmts, block.brace.merge brace⟩ }
      closed.absorb (block.owner.finishBlock finish id brace rest)

/-- One round: takes `token` and what belongs to it off the stream. -/
def advance (finish : Span) (state : ParseState) (token : Token) (rest : List Token) :
    ParseState × List Token :=
  if token.kind = .closeBrace then state.close finish token.span rest
  else state.absorb (startStatement finish token rest)

end ParseState

/-! ### Every round takes a token -/

theorem openBlock_length_le (finish : Span) (construct : Construct) (owner : Owner)
    (rest : List Token) : (openBlock finish construct owner rest).2.length ≤ rest.length := by
  unfold openBlock
  dsimp only
  split <;> simp

theorem withCondition_length_le (finish : Span) (word : Keyword) (rest : List Token)
    (go : Ident → List Token → Progress × List Token)
    (shrinks : ∀ condition later, (go condition later).2.length ≤ later.length) :
    (withCondition finish word rest go).2.length ≤ rest.length := by
  unfold withCondition
  dsimp only
  split
  · exact Nat.le_trans (shrinks _ _) (by simp)
  · exact Nat.le_refl _

theorem startStatement_length_le (finish : Span) (token : Token) (rest : List Token) :
    (startStatement finish token rest).2.length ≤ rest.length := by
  obtain ⟨kind, span⟩ := token
  cases kind with
  | integer count => exact openBlock_length_le ..
  | keyword word =>
      cases word with
      | se => exact withCondition_length_le _ _ _ _ fun _ _ => openBlock_length_le ..
      | enquanto => exact withCondition_length_le _ _ _ _ fun _ _ => openBlock_length_le ..
      | senao => exact Nat.le_refl _
  | action _ => exact Nat.le_refl _
  | identifier _ => exact Nat.le_refl _
  | openBrace => exact Nat.le_refl _
  | closeBrace => exact Nat.le_refl _
  | invalid _ => exact Nat.le_refl _
  | endOfFile => exact Nat.le_refl _

theorem Owner.finishBlock_length_le (finish : Span) (owner : Owner) (id : BlockId) (close : Span)
    (rest : List Token) : (owner.finishBlock finish id close rest).2.length ≤ rest.length := by
  unfold finishBlock
  split
  case h_5 =>
      split
      · exact Nat.le_trans (openBlock_length_le ..) (by simp)
      · exact Nat.le_refl _
  all_goals exact Nat.le_refl _

theorem recover_length_le (rest : List Token) : (recover rest).length ≤ rest.length :=
  List.Sublist.length_le (List.dropWhile_sublist _)

namespace ParseState

theorem absorb_length_le (state : ParseState) (progress : Progress × List Token) :
    (state.absorb progress).2.length ≤ progress.2.length := by
  unfold absorb
  split
  · exact Nat.le_refl _
  · exact Nat.le_refl _
  · exact recover_length_le _

/-- A round never gives tokens back, so each round leaves fewer of them. -/
theorem advance_length_le (finish : Span) (state : ParseState) (token : Token)
    (rest : List Token) : (state.advance finish token rest).2.length ≤ rest.length := by
  unfold advance
  split
  · unfold close
    split
    · exact Nat.le_refl _
    · exact Nat.le_trans (absorb_length_le _ _) (Owner.finishBlock_length_le ..)
  · exact Nat.le_trans (absorb_length_le _ _) (startStatement_length_le ..)

end ParseState

/-! ### Whole streams -/

/-- Reads rounds until the tokens are used up or, if there is a `limit`, so many problems have
been found. -/
def parseLoop (limit : Option Nat) (finish : Span) (state : ParseState) :
    List Token → ParseState
  | [] => state
  | token :: rest =>
      if limit.any (· ≤ state.problems.size) then state
      else
        let round := state.advance finish token rest
        parseLoop limit finish round.1 round.2
  termination_by tokens => tokens.length
  decreasing_by
    exact Nat.lt_succ_of_le (ParseState.advance_length_le finish state token rest)

/-- Blames every block that is still open, the innermost first. -/
def ParseState.blameOpenBlocks (state : ParseState) : Array Problem :=
  state.nest.foldl (fun problems block => problems.push ⟨.unclosedBrace, block.brace⟩)
    state.problems

/-- The span of the top level: from the first token to the last one before the end. -/
def TokenStream.span (stream : TokenStream) : Span :=
  (nextToken stream.finish stream.tokens).span.merge
    ((stream.tokens.getLast?.map Token.span).getD Span.origin)

/-- The program of a stream, or its problems. The top level is the last block of the table. -/
def parseStream (limit : Option Nat) (stream : TokenStream) : Except (List Problem) Program :=
  let state := parseLoop limit stream.finish ParseState.initial stream.tokens
  let problems := state.blameOpenBlocks
  if problems.isEmpty then
    .ok ⟨state.blocks.push ⟨state.top, stream.span⟩, state.nextId⟩
  else .error problems.toList

/-- The program that a list of tokens spells, or the report on what is wrong with it. Reading
stops early once the report is full. -/
def parseTokens (source : SourceFile) (tokens : List Token) : Except Report Program :=
  (parseStream (some Report.capacity) (TokenStream.ofList tokens)).mapError
    (Problem.report source)

/-- The program of a script, or the report on what is wrong with it. -/
def parse (source : SourceFile) : Except Report Program :=
  parseTokens source (lex source.text)

end RobotScript
