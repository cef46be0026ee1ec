/-
Module: RobotScript.Proofs.Lexemes
Purpose: Reading loses nothing and misplaces nothing. A text is cut into lexemes with blanks
  between them, one for each token; the token says where its lexeme stands and what it is.
  What the text at one place can be read as is said once, in `Scanned`; places are computed from
  the text before them, and the running position of the reader is shown to agree.
Main exports: Position.start_advance, Scanned, scan_scanned, TokenKind.Spells, Span.StartsAfter,
  Piece, Cut, lex_cut, lex_lossless_and_placed
-/
import Mathlib.Data.List.DropRight
import Mathlib.Data.Nat.Digits.Defs
import RobotScript.Token.Lexer

namespace RobotScript

/-! ### Places -/

namespace Position

/-- The place after a text: its lines, the characters after its last line feed, its bytes. -/
theorem start_advance (before : List Char) :
    start.advance before =
      ⟨1 + before.count '\n', 1 + (before.rtakeWhile (· != '\n')).length,
        (String.ofList before).utf8ByteSize⟩ := by
  induction before using List.reverseRecOn with
  | nil => rfl
  | append_singleton before c inductionHypothesis =>
      rw [advance_append, inductionHypothesis, advance_cons, advance_nil, next,
        String.ofList_append, String.utf8ByteSize_append, ← String.singleton_eq_ofList,
        String.utf8ByteSize_singleton, List.count_append, List.rtakeWhile_concat]
      by_cases lineFeed : c = '\n'
      · subst lineFeed
        rfl
      · have sameLine : [c].count '\n' = 0 :=
          List.count_eq_zero.mpr fun member => lineFeed (List.mem_singleton.mp member).symm
        rw [if_neg lineFeed, if_pos (bne_iff_ne.mpr lineFeed), sameLine, List.length_append]
        rfl

/-- Within a line only the column moves on. -/
theorem advance_within_line (position : Position) {cs : List Char} (within : '\n' ∉ cs) :
    (position.advance cs).line = position.line ∧
      (position.advance cs).col = position.col + cs.length := by
  induction cs generalizing position with
  | nil => exact ⟨rfl, rfl⟩
  | cons c later inductionHypothesis =>
      have notFirst : c ≠ '\n' := fun first => within (first ▸ List.mem_cons_self)
      have notLater : '\n' ∉ later := fun member => within (List.mem_cons_of_mem c member)
      obtain ⟨sameLine, column⟩ := inductionHypothesis (position.next c) notLater
      have moves : (position.next c).line = position.line ∧
          (position.next c).col = position.col + 1 := by
        simp only [next, if_neg notFirst, and_self]
      rw [advance_cons, sameLine, column, moves.1, moves.2, List.length_cons]
      exact ⟨rfl, by omega⟩

end Position

/-! ### What one lexeme can be -/

/-- The character after a run is not one that would continue it. -/
def Stops (continues : Char → Bool) (after : List Char) : Prop :=
  ∀ c, after.head? = some c → continues c = false

/-- What a lexeme is read as, given what comes after it and whether a name is expected. -/
inductive Scanned (named : Bool) : TokenKind → List Char → List Char → Prop where
  | openBrace (after : List Char) : Scanned named .openBrace ['{'] after
  | closeBrace (after : List Char) : Scanned named .closeBrace ['}'] after
  | digits {first : Char} {tail after : List Char}
      (run : ∀ c ∈ first :: tail, c.isDigit = true) (whole : Stops Char.isDigit after) :
      Scanned named (numeral (first :: tail)) (first :: tail) after
  | keyword (word : Keyword) {after : List Char} (whole : Stops isNameChar after) :
      Scanned named (.keyword word) word.letters after
  | name {first : Char} {tail after : List Char} (expected : named = true)
      (letter : isAlphabetic first = true) (run : ∀ c ∈ tail, isNameChar c = true)
      (whole : Stops isNameChar after) (free : ∀ word : Keyword, first :: tail ≠ word.letters) :
      Scanned named (.identifier (String.ofList (first :: tail))) (first :: tail) after
  | letter {first : Char} {after : List Char} (unexpected : named = false)
      (letter : isAlphabetic first = true)
      (free : ∀ word : Keyword, (first :: after).takeWhile isNameChar ≠ word.letters) :
      Scanned named (.action first) [first] after
  | other {first : Char} {after : List Char} (noBrace : first ≠ '{' ∧ first ≠ '}')
      (noDigit : first.isDigit = false) (noLetter : isAlphabetic first = false)
      (noBlank : isBlank first = false) :
      Scanned named (.invalid (String.singleton first)) [first] after

theorem drop_takeWhile_length (continues : Char → Bool) (cs : List Char) :
    cs.drop (cs.takeWhile continues).length = cs.dropWhile continues :=
  calc
    cs.drop (cs.takeWhile continues).length
      = (cs.takeWhile continues ++ cs.dropWhile continues).drop
          (cs.takeWhile continues).length := by rw [List.takeWhile_append_dropWhile]
    _ = cs.dropWhile continues := List.drop_left

theorem stops_dropWhile (continues : Char → Bool) (cs : List Char) :
    Stops continues (cs.dropWhile continues) := by
  intro c first
  have stops := List.head?_dropWhile_not continues cs
  rw [first] at stops
  exact stops

theorem takeWhile_of_letter {first : Char} (letter : isAlphabetic first = true)
    (rest : List Char) :
    (first :: rest).takeWhile isNameChar = first :: rest.takeWhile isNameChar :=
  List.takeWhile_cons_of_pos (isNameChar_of_isAlphabetic letter)

/-- What `scan` reads, at a character that is no blank, is one of these. -/
theorem scan_scanned (named : Bool) {first : Char} (rest : List Char)
    (noBlank : isBlank first = false) :
    Scanned named (scan named first rest).1 (first :: (scan named first rest).2)
      (rest.drop (scan named first rest).2.length) := by
  unfold scan
  split
  · rename_i isOpen
    subst isOpen
    exact .openBrace rest
  rename_i notOpen
  split
  · rename_i isClose
    subst isClose
    exact .closeBrace rest
  rename_i notClose
  split
  · rename_i digit
    dsimp only
    rw [drop_takeWhile_length]
    refine .digits (fun c member => ?_) (stops_dropWhile Char.isDigit rest)
    rcases List.mem_cons.mp member with isFirst | inTail
    · rw [isFirst]
      exact digit
    · exact List.mem_takeWhile_imp inTail
  rename_i noDigit
  split
  · rename_i letter
    have word := takeWhile_of_letter letter rest
    cases found : Keyword.at? (first :: rest) with
    | some keyword =>
        have spelt : keyword.letters = first :: rest.takeWhile isNameChar :=
          (Keyword.at?_eq_some_iff.mp found).symm.trans word
        dsimp only
        rw [spelt, List.tail_cons, drop_takeWhile_length, ← spelt]
        exact .keyword keyword (stops_dropWhile isNameChar rest)
    | none =>
        have free (keyword : Keyword) : (first :: rest).takeWhile isNameChar ≠ keyword.letters := by
          intro spelt
          cases found.symm.trans (Keyword.at?_eq_some_iff.mpr spelt)
        dsimp only
        split
        · rename_i expected
          rw [drop_takeWhile_length]
          refine .name expected letter (fun c member => List.mem_takeWhile_imp member)
            (stops_dropWhile isNameChar rest) ?_
          rw [← word]
          exact free
        · rename_i unexpected
          exact .letter (by simpa using unexpected) letter free
  · rename_i noLetter
    exact .other ⟨notOpen, notClose⟩ (by simpa using noDigit) (by simpa using noLetter) noBlank

namespace Scanned

variable {named : Bool} {kind : TokenKind} {lexeme after : List Char}

theorem ne_nil (scanned : Scanned named kind lexeme after) : lexeme ≠ [] := by
  cases scanned with
  | keyword word => cases word <;> exact List.cons_ne_nil _ _
  | _ => exact List.cons_ne_nil _ _

/-- No token is read as the end of the file. -/
theorem kind_ne_endOfFile (scanned : Scanned named kind lexeme after) : kind ≠ .endOfFile := by
  cases scanned with
  | digits =>
      unfold numeral
      dsimp only
      split <;> exact nofun
  | _ => exact nofun

/-- Blanks stand between lexemes only. -/
theorem noBlank (scanned : Scanned named kind lexeme after) :
    ∀ c ∈ lexeme, isBlank c = false := by
  intro c member
  cases scanned with
  | openBrace =>
      rw [List.mem_singleton.mp member]
      decide
  | closeBrace =>
      rw [List.mem_singleton.mp member]
      decide
  | digits run => exact isBlank_eq_false_of_isNameChar (isNameChar_of_isDigit (run c member))
  | keyword word =>
      exact isBlank_eq_false_of_isNameChar (word.isNameChar_of_mem_letters member)
  | name _ letter run =>
      rcases List.mem_cons.mp member with isFirst | inTail
      · rw [isFirst]
        exact isBlank_eq_false_of_isNameChar (isNameChar_of_isAlphabetic letter)
      · exact isBlank_eq_false_of_isNameChar (run c inTail)
  | letter _ letter =>
      rw [List.mem_singleton.mp member]
      exact isBlank_eq_false_of_isNameChar (isNameChar_of_isAlphabetic letter)
  | other _ _ _ noBlank =>
      rw [List.mem_singleton.mp member]
      exact noBlank

end Scanned

/-! ### How tokens are spelt -/

/-- The number that decimal digits stand for, the last one counting units. -/
def decimal (digits : List Char) : Nat :=
  Nat.ofDigits 10 (digits.reverse.map fun digit => digit.toNat - '0'.toNat)

theorem decimalValue_eq_decimal (digits : List Char) : decimalValue digits = decimal digits := by
  induction digits using List.reverseRecOn with
  | nil => rfl
  | append_singleton digits digit inductionHypothesis =>
      have shifted : decimalValue (digits ++ [digit]) =
          decimalValue digits * 10 + (digit.toNat - '0'.toNat) := by
        rw [decimalValue, List.foldl_append]
        rfl
      rw [shifted, inductionHypothesis, decimal, decimal, List.reverse_append,
        List.reverse_singleton, List.singleton_append, List.map_cons, Nat.ofDigits_cons,
        Nat.mul_comm, Nat.add_comm]

/-- Nothing but digits. -/
def DigitRun (lexeme : List Char) : Prop :=
  ∀ c ∈ lexeme, c.isDigit = true

/-- How the lexeme of a token goes with what the token is, before the rest of the text. -/
structure TokenKind.Spells (kind : TokenKind) (lexeme after : List Char) : Prop where
  /-- A token is quoted as it is written, counts apart. -/
  display : (∀ count, kind ≠ .integer count) → kind.display = String.ofList lexeme
  /-- A count is the number that its digits stand for. -/
  count : ∀ count, kind = .integer count → DigitRun lexeme ∧ decimal lexeme = count.toNat
  /-- Digits are a count if the number fits. -/
  fits : DigitRun lexeme → ((∃ count, kind = .integer count) ↔ decimal lexeme ≤ 2 ^ 32 - 1)
  /-- Digits are of no use if the number is too large. -/
  tooLarge : DigitRun lexeme → ((∃ text, kind = .invalid text) ↔ 2 ^ 32 - 1 < decimal lexeme)
  /-- A run of digits is taken as a whole. -/
  whole : DigitRun lexeme → Stops Char.isDigit after

theorem numeral_spells {lexeme after : List Char} (run : DigitRun lexeme)
    (whole : Stops Char.isDigit after) : (numeral lexeme).Spells lexeme after := by
  have size : UInt32.size = 2 ^ 32 := rfl
  simp only [numeral, decimalValue_eq_decimal]
  split
  · rename_i small
    exact
      { display := fun noCount => absurd rfl (noCount _)
        count := fun count same =>
          ⟨run, TokenKind.integer.inj same ▸ (UInt32.toNat_ofNat_of_lt' small).symm⟩
        fits := fun _ => ⟨fun _ => by omega, fun _ => ⟨_, rfl⟩⟩
        tooLarge := fun _ => ⟨nofun, fun large => by omega⟩
        whole := fun _ => whole }
  · rename_i large
    exact
      { display := fun _ => rfl
        count := nofun
        fits := fun _ => ⟨nofun, fun small => by omega⟩
        tooLarge := fun _ => ⟨fun _ => by omega, fun _ => ⟨_, rfl⟩⟩
        whole := fun _ => whole }

namespace Scanned

variable {named : Bool} {kind : TokenKind} {lexeme after : List Char}

theorem spells_of_noDigit {first : Char} {tail : List Char} (noDigit : first.isDigit = false)
    (noCount : ∀ count, kind ≠ .integer count)
    (display : kind.display = String.ofList (first :: tail)) :
    kind.Spells (first :: tail) after := by
  have noRun : ¬ DigitRun (first :: tail) := by
    intro run
    cases noDigit.symm.trans (run first List.mem_cons_self)
  exact
    { display := fun _ => display
      count := fun count same => absurd same (noCount count)
      fits := fun run => absurd run noRun
      tooLarge := fun run => absurd run noRun
      whole := fun run => absurd run noRun }

theorem spells (scanned : Scanned named kind lexeme after) : kind.Spells lexeme after := by
  cases scanned with
  | openBrace => exact spells_of_noDigit (by decide) nofun rfl
  | closeBrace => exact spells_of_noDigit (by decide) nofun rfl
  | digits run whole => exact numeral_spells run whole
  | keyword word =>
      cases word <;> exact spells_of_noDigit (by decide) nofun rfl
  | name _ letter =>
      exact spells_of_noDigit (isDigit_eq_false_of_isAlphabetic letter) nofun rfl
  | letter _ letter =>
      exact spells_of_noDigit (isDigit_eq_false_of_isAlphabetic letter) nofun
        String.singleton_eq_ofList
  | other _ noDigit => exact spells_of_noDigit noDigit nofun String.singleton_eq_ofList

end Scanned

/-! ### The pieces of a text -/

/-- A token with the lexeme it was read from and the blanks before that. -/
structure Piece where
  blanks : List Char
  lexeme : List Char
  token : Token

/-- The text that a piece stands for. -/
def Piece.chars (piece : Piece) : List Char :=
  piece.blanks ++ piece.lexeme

/-- The text that pieces stand for, one after the other. -/
def Piece.charsOfAll (pieces : List Piece) : List Char :=
  pieces.flatMap chars

/-- What a piece is, between the text before it and the text after it. -/
structure Piece.Fits (piece : Piece) (before after : List Char) : Prop where
  blanks : ∀ c ∈ piece.blanks, isBlank c = true
  scanned : ∃ named, Scanned named piece.token.kind piece.lexeme after
  span : piece.token.span = (Position.start.advance (before ++ piece.blanks)).spanTo
    (Position.start.advance (before ++ piece.chars))

/-- After the text `before`, the pieces and then blanks follow. -/
inductive Cut : List Char → List Piece → List Char → Prop where
  | blanks {before trailing : List Char} (blanks : ∀ c ∈ trailing, isBlank c = true) :
      Cut before [] trailing
  | piece {before trailing : List Char} {piece : Piece} {pieces : List Piece}
      (fits : piece.Fits before (Piece.charsOfAll pieces ++ trailing))
      (later : Cut (before ++ piece.chars) pieces trailing) : Cut before (piece :: pieces) trailing

namespace Cut

variable {before trailing : List Char} {pieces : List Piece}

theorem trailing_blanks (cut : Cut before pieces trailing) : ∀ c ∈ trailing, isBlank c = true := by
  induction cut with
  | blanks blanks => exact blanks
  | piece _ _ inductionHypothesis => exact inductionHypothesis

/-- Every piece fits where it stands. -/
theorem fits {earlier later : List Piece} {piece : Piece}
    (cut : Cut before (earlier ++ piece :: later) trailing) :
    piece.Fits (before ++ Piece.charsOfAll earlier) (Piece.charsOfAll later ++ trailing) := by
  induction earlier generalizing before with
  | nil =>
      cases cut with
      | piece fits =>
          rw [Piece.charsOfAll, List.flatMap_nil, List.append_nil]
          exact fits
  | cons first others inductionHypothesis =>
      cases cut with
      | piece _ rest =>
          have placed := inductionHypothesis rest
          rw [List.append_assoc] at placed
          exact placed

end Cut

/-- Reading on after `before` and some blanks cuts those blanks and the rest of the text, and ends
with the end of the file behind all of it. -/
theorem tokensFrom_cut (named : Bool) (position : Position) (cs before skipped : List Char)
    (blanks : ∀ c ∈ skipped, isBlank c = true)
    (here : position = Position.start.advance (before ++ skipped)) :
    ∃ pieces trailing, Piece.charsOfAll pieces ++ trailing = skipped ++ cs ∧
      tokensFrom named position cs = pieces.map Piece.token ++
        [⟨.endOfFile, (Position.start.advance (before ++ skipped ++ cs)).point⟩] ∧
      Cut before pieces trailing := by
  fun_induction tokensFrom named position cs generalizing before skipped with
  | case1 named position =>
      refine ⟨[], skipped, (List.append_nil _).symm, ?_, .blanks blanks⟩
      rw [List.append_nil, here]
      rfl
  | case2 named position c cs blank inductionHypothesis =>
      -- One more blank to be skipped.
      have oneMore : ∀ d ∈ skipped ++ [c], isBlank d = true := by
        intro d member
        rcases List.mem_append.mp member with old | new
        · exact blanks d old
        · rw [List.mem_singleton.mp new]
          exact blank
      have next : position.next c = Position.start.advance (before ++ (skipped ++ [c])) := by
        rw [← List.append_assoc, Position.advance_append, ← here]
        rfl
      obtain ⟨pieces, trailing, whole, tokens, cut⟩ := inductionHypothesis _ _ oneMore next
      refine ⟨pieces, trailing, ?_, ?_, cut⟩
      · rw [whole, List.append_assoc]
        rfl
      · rw [tokens]
        simp only [List.append_assoc, List.singleton_append]
  | case3 named position c cs notBlank lexeme stop inductionHypothesis =>
      -- The blanks skipped so far and the lexeme are the next piece.
      have noBlank : isBlank c = false := by simpa using notBlank
      have scanned := scan_scanned named cs noBlank
      have taken : lexeme.2 <+: cs := scan_tail_prefix named c cs
      have restored : lexeme.2 ++ cs.drop lexeme.2.length = cs := List.prefix_iff_eq_append.mp taken
      have there : stop = Position.start.advance (before ++ (skipped ++ c :: lexeme.2) ++ []) := by
        rw [List.append_nil, ← List.append_assoc, Position.advance_append, ← here]
      obtain ⟨pieces, trailing, whole, tokens, cut⟩ :=
        inductionHypothesis _ [] (List.forall_mem_nil _) there
      rw [List.nil_append] at whole
      rw [List.append_nil] at there tokens
      refine ⟨⟨skipped, c :: lexeme.2, ⟨lexeme.1, position.spanTo stop⟩⟩ :: pieces, trailing,
        ?_, ?_, .piece ⟨blanks, ⟨named, ?_⟩, ?_⟩ cut⟩
      · calc
          _ = skipped ++ c :: lexeme.2 ++ (Piece.charsOfAll pieces ++ trailing) :=
            List.append_assoc _ _ _
          _ = skipped ++ c :: (lexeme.2 ++ cs.drop lexeme.2.length) := by
            rw [whole, List.append_assoc, List.cons_append]
          _ = skipped ++ c :: cs := by rw [restored]
      · rw [tokens, List.map_cons, List.cons_append]
        conv => rhs; rw [← restored]
        simp only [List.append_assoc, List.cons_append]
      · rw [whole]
        exact scanned
      · dsimp only [Piece.chars]
        rw [← here, ← there]

/-- The tokens of a text are those of its pieces and the end of the file. -/
theorem lex_cut (text : String) :
    ∃ pieces trailing, Piece.charsOfAll pieces ++ trailing = text.toList ∧
      lex text = pieces.map Piece.token ++
        [⟨.endOfFile, (Position.start.advance text.toList).point⟩] ∧
      Cut [] pieces trailing := by
  rw [lex_eq_tokensFrom]
  exact tokensFrom_cut false Position.start text.toList [] [] (List.forall_mem_nil _) rfl

/-! ### Where tokens stand -/

/-- The span begins after this text. -/
structure Span.StartsAfter (span : Span) (before : List Char) : Prop where
  offset : span.offset = (String.ofList before).utf8ByteSize
  startLine : span.startLine.toNat = 1 + before.count '\n'
  startCol : span.startCol.toNat = 1 + (before.rtakeWhile (· != '\n')).length

/-- Lines and columns of a text that is not too long fit into 32 bits. -/
theorem Span.startsAfter_of_short {span : Span} {before : List Char}
    (short : before.length + 1 < UInt32.size)
    (line : span.startLine = UInt32.ofNat (Position.start.advance before).line)
    (col : span.startCol = UInt32.ofNat (Position.start.advance before).col)
    (offset : span.offset = (Position.start.advance before).offset) : span.StartsAfter before := by
  have lines : before.count '\n' ≤ before.length := List.count_le_length
  have columns := (List.rtakeWhile_suffix (· != '\n') before).length_le
  rw [Position.start_advance] at line col offset
  refine ⟨offset, ?_, ?_⟩
  · rw [line]
    exact UInt32.toNat_ofNat_of_lt' (by dsimp only; omega)
  · rw [col]
    exact UInt32.toNat_ofNat_of_lt' (by dsimp only; omega)

/-- A piece of a text that is not too long: its token begins where its lexeme does and ends with
it, on the same line. -/
theorem Piece.Fits.placed {piece : Piece} {before after : List Char}
    (fits : piece.Fits before after)
    (short : (before ++ piece.chars).length + 1 < UInt32.size) :
    piece.token.span.StartsAfter (before ++ piece.blanks) ∧
      piece.token.span.endLine = piece.token.span.startLine ∧
      piece.token.span.endCol.toNat =
        piece.token.span.startCol.toNat + piece.lexeme.length - 1 := by
  obtain ⟨named, scanned⟩ := fits.scanned
  have nonempty := List.length_pos_iff.mpr scanned.ne_nil
  have oneLine : '\n' ∉ piece.lexeme := by
    intro member
    cases scanned.noBlank '\n' member
  rw [chars, ← List.append_assoc, List.length_append] at short
  have begins : piece.token.span.StartsAfter (before ++ piece.blanks) := by
    apply Span.startsAfter_of_short (by omega) <;> rw [fits.span] <;> rfl
  obtain ⟨sameLine, lastCol⟩ :=
    (Position.start.advance (before ++ piece.blanks)).advance_within_line oneLine
  have col : (Position.start.advance (before ++ piece.blanks)).col =
      piece.token.span.startCol.toNat := by
    rw [begins.startCol, Position.start_advance]
  have columns := (List.rtakeWhile_suffix (· != '\n') (before ++ piece.blanks)).length_le
  have firstCol := begins.startCol
  have span := fits.span
  rw [chars, ← List.append_assoc, Position.advance_append _ (before ++ piece.blanks),
    Position.spanTo, sameLine, lastCol, col] at span
  refine ⟨begins, ?_, ?_⟩
  · rw [span]
  · have ends : piece.token.span.endCol =
        UInt32.ofNat (max (piece.token.span.startCol.toNat + piece.lexeme.length - 1) 1) :=
      congrArg Span.endCol span
    rw [ends, UInt32.toNat_ofNat_of_lt' (by omega)]
    omega

/-- A text of fewer than 2^32 - 1 characters is blanks and lexemes in turn, one lexeme for each
token but the last, which is the end of the file and stands behind all of them. Each token begins
where its lexeme does, in bytes, lines and columns, ends with it on the same line, and is spelt by
it. -/
theorem lex_lossless_and_placed (text : String) (short : text.length < 2 ^ 32 - 1) :
    ∃ (pieces : List Piece) (trailing : List Char) (last : Token),
      lex text = pieces.map Piece.token ++ [last] ∧
      text.toList = Piece.charsOfAll pieces ++ trailing ∧
      (∀ c ∈ trailing, isBlank c = true) ∧
      last.kind = .endOfFile ∧ last.span.StartsAfter text.toList ∧
      last.span.offset = text.utf8ByteSize ∧
      ∀ (earlier : List Piece) (piece : Piece) (later : List Piece),
        pieces = earlier ++ piece :: later →
        (∀ c ∈ piece.blanks, isBlank c = true) ∧
        piece.lexeme ≠ [] ∧ (∀ c ∈ piece.lexeme, isBlank c = false) ∧
        piece.token.kind ≠ .endOfFile ∧
        piece.token.kind.Spells piece.lexeme (Piece.charsOfAll later ++ trailing) ∧
        piece.token.span.StartsAfter (Piece.charsOfAll earlier ++ piece.blanks) ∧
        piece.token.span.endLine = piece.token.span.startLine ∧
        piece.token.span.endCol.toNat =
          piece.token.span.startCol.toNat + piece.lexeme.length - 1 := by
  obtain ⟨pieces, trailing, whole, tokens, cut⟩ := lex_cut text
  have size : UInt32.size = 2 ^ 32 := rfl
  have fewChars : text.toList.length + 1 < UInt32.size := by
    rw [String.length_toList]
    omega
  have ends : (Position.start.advance text.toList).point.StartsAfter text.toList :=
    Span.startsAfter_of_short fewChars rfl rfl rfl
  have bytes := ends.offset
  rw [String.ofList_toList] at bytes
  refine ⟨pieces, trailing, _, tokens, whole.symm, cut.trailing_blanks, rfl, ends, bytes, ?_⟩
  intro earlier piece later split
  subst split
  have fits := cut.fits
  rw [List.nil_append] at fits
  obtain ⟨named, scanned⟩ := fits.scanned
  have shorter : (Piece.charsOfAll earlier ++ piece.chars).length + 1 < UInt32.size := by
    have within : Piece.charsOfAll earlier ++ piece.chars <+: text.toList := by
      refine ⟨Piece.charsOfAll later ++ trailing, ?_⟩
      rw [← whole]
      simp [Piece.charsOfAll]
    have notLonger := within.length_le
    omega
  exact ⟨fits.blanks, scanned.ne_nil, scanned.noBlank, scanned.kind_ne_endOfFile, scanned.spells,
    fits.placed shorter⟩

/-- A text with a letter of two bytes, leading zeros, two lines and blanks at its end. -/
theorem lex_lossless_and_placed_accented :
    "ç 007\nB ".length < 2 ^ 32 - 1 ∧
      ∃ pieces trailing last, lex "ç 007\nB " = pieces.map Piece.token ++ [last] ∧
        "ç 007\nB ".toList = Piece.charsOfAll pieces ++ trailing ∧ last.span.offset = 9 := by
  have short : "ç 007\nB ".length < 2 ^ 32 - 1 := by decide +kernel
  obtain ⟨pieces, trailing, last, tokens, whole, _, _, _, bytes, _⟩ :=
    lex_lossless_and_placed "ç 007\nB " short
  exact ⟨short, pieces, trailing, last, tokens, whole, bytes.trans (by decide +kernel)⟩

example : lex "ç 007\nB " =
    [⟨.action 'ç', ⟨1, 1, 1, 1, 0⟩⟩, ⟨.integer 7, ⟨1, 3, 1, 5, 3⟩⟩, ⟨.action 'B', ⟨2, 1, 2, 1, 7⟩⟩,
      ⟨.endOfFile, ⟨2, 3, 2, 3, 9⟩⟩] := by
  decide +kernel

end RobotScript
