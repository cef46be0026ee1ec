/-
Module: RobotScript.Proofs.WrittenTokens
Purpose: Reading back what was written. A blank ends every token, so what stands behind it has no
  influence on the tokens before it; and tokens that are written with blanks between them are read
  as the tokens they are, provided that names stand where names are expected.
Main exports: StartsBlank, scan_append, tokensFrom_append, IsName, TokenKind.WellSpelt,
  lex_scanned, lex_wellSpelt, kinds_tokensFrom_eq, Legible, TokenKind.ReadsBack, spaced, Separates,
  AllReadBack.kinds_tokensFrom
-/
import RobotScript.Proofs.Lexemes

namespace RobotScript

/-! ### Blanks end tokens -/

/-- Nothing follows, or a blank does. -/
def StartsBlank (after : List Char) : Prop :=
  after.head?.all isBlank = true

theorem StartsBlank.stops {after : List Char} (apart : StartsBlank after)
    {continues : Char → Bool} (noBlanks : ∀ c, continues c = true → isBlank c = false) :
    Stops continues after := by
  intro c first
  have blank : isBlank c = true := by simpa [StartsBlank, first] using apart
  cases decision : continues c with
  | false => rfl
  | true => cases (noBlanks c decision).symm.trans blank

theorem StartsBlank.stops_name {after : List Char} (apart : StartsBlank after) :
    Stops isNameChar after :=
  apart.stops fun _ => isBlank_eq_false_of_isNameChar

theorem StartsBlank.stops_digit {after : List Char} (apart : StartsBlank after) :
    Stops Char.isDigit after :=
  apart.stops fun _ digit => isBlank_eq_false_of_isNameChar (isNameChar_of_isDigit digit)

/-- A run does not go on beyond the place where it stops. -/
theorem takeWhile_append_of_stops {continues : Char → Bool} {after : List Char}
    (stops : Stops continues after) (cs : List Char) :
    (cs ++ after).takeWhile continues = cs.takeWhile continues := by
  induction cs with
  | nil =>
      cases after with
      | nil => rfl
      | cons c later =>
          have stopsHere : continues c = false := stops c rfl
          simp [stopsHere]
  | cons c rest inductionHypothesis =>
      cases decision : continues c with
      | false => simp [decision]
      | true => simp [decision, inductionHypothesis]

theorem Keyword.at?_append {after : List Char} (apart : StartsBlank after) (cs : List Char) :
    Keyword.at? (cs ++ after) = Keyword.at? cs := by
  apply Option.ext
  intro word
  rw [Keyword.at?_eq_some_iff, Keyword.at?_eq_some_iff,
    takeWhile_append_of_stops apart.stops_name]

/-- What a token is does not depend on what follows the next blank. -/
theorem scan_append (named : Bool) (first : Char) (rest : List Char) {after : List Char}
    (apart : StartsBlank after) : scan named first (rest ++ after) = scan named first rest := by
  have sameWord := Keyword.at?_append apart (first :: rest)
  rw [List.cons_append] at sameWord
  simp only [scan, takeWhile_append_of_stops apart.stops_digit,
    takeWhile_append_of_stops apart.stops_name, sameWord]

/-- Whether a name is expected after these tokens. -/
def namedAfter (named : Bool) (kinds : List TokenKind) : Bool :=
  kinds.foldl (fun _ kind => kind.introducesName) named

/-- Reading a text up to a blank gives the tokens of that text; reading goes on from there as if the
text before it were of no other interest. -/
theorem tokensFrom_append (named : Bool) (position : Position) (cs : List Char)
    {after : List Char} (apart : StartsBlank after) :
    ∃ tokens,
      tokensFrom named position cs = tokens ++ [⟨.endOfFile, (position.advance cs).point⟩] ∧
      tokensFrom named position (cs ++ after) =
        tokens ++ tokensFrom (namedAfter named (tokens.map Token.kind)) (position.advance cs)
          after := by
  fun_induction tokensFrom named position cs with
  | case1 named position => exact ⟨[], rfl, rfl⟩
  | case2 named position c cs blank inductionHypothesis =>
      rw [List.cons_append, tokensFrom, if_pos blank, Position.advance_cons]
      exact inductionHypothesis
  | case3 named position c cs notBlank lexeme stop inductionHypothesis =>
      have taken : lexeme.2 <+: cs := scan_tail_prefix named c cs
      have restored : lexeme.2 ++ cs.drop lexeme.2.length = cs := List.prefix_iff_eq_append.mp taken
      have sameEnd : stop.advance (cs.drop lexeme.2.length) = position.advance (c :: cs) := by
        rw [← Position.advance_append, List.cons_append, restored]
      have sameRest : (cs ++ after).drop lexeme.2.length = cs.drop lexeme.2.length ++ after :=
        List.drop_append_of_le_length taken.length_le
      obtain ⟨tokens, alone, continued⟩ := inductionHypothesis
      rw [sameEnd] at alone continued
      refine ⟨⟨lexeme.1, position.spanTo stop⟩ :: tokens, by rw [alone, List.cons_append], ?_⟩
      rw [List.cons_append, tokensFrom, if_neg notBlank, scan_append named c cs apart]
      dsimp only
      rw [sameRest, continued]
      rfl

/-- Blanks in front are skipped. -/
theorem tokensFrom_skip (named : Bool) (position : Position) {gap : List Char}
    (blanks : ∀ c ∈ gap, isBlank c = true) (cs : List Char) :
    tokensFrom named position (gap ++ cs) = tokensFrom named (position.advance gap) cs := by
  induction gap generalizing position with
  | nil => rfl
  | cons c later inductionHypothesis =>
      rw [List.cons_append, tokensFrom, if_pos (blanks c List.mem_cons_self),
        inductionHypothesis _ fun d member => blanks d (List.mem_cons_of_mem c member)]
      rfl

/-! ### Names -/

/-- The name of a condition: it begins with a letter, goes on with letters, numerals and
underscores, and is no reserved word. -/
def IsName (name : String) : Prop :=
  ∃ first tail, name.toList = first :: tail ∧ isAlphabetic first = true ∧
    (∀ c ∈ tail, isNameChar c = true) ∧ ∀ word : Keyword, name ≠ word.text

/-- The letter of an action is a letter, and the name of a condition is a name. -/
def TokenKind.WellSpelt : TokenKind → Prop
  | .action letter => isAlphabetic letter = true
  | .identifier name => IsName name
  | _ => True

theorem Scanned.wellSpelt {named : Bool} {kind : TokenKind} {lexeme after : List Char}
    (scanned : Scanned named kind lexeme after) : kind.WellSpelt := by
  cases scanned with
  | digits =>
      unfold numeral
      dsimp only
      split <;> trivial
  | @name first tail _ _ letter run _ free =>
      refine ⟨first, tail, String.toList_ofList, letter, run, fun word same => free word ?_⟩
      rw [word.text_eq_ofList_letters] at same
      exact String.ofList_injective same
  | letter _ letter => exact letter
  | _ => trivial

/-- The tokens of a text but the last one are read off the text. -/
theorem lex_scanned (text : String) :
    ∃ tokens, lex text = tokens ++ [⟨.endOfFile, (Position.start.advance text.toList).point⟩] ∧
      ∀ token ∈ tokens, ∃ named lexeme after, Scanned named token.kind lexeme after := by
  obtain ⟨pieces, trailing, -, tokens, cut⟩ := lex_cut text
  refine ⟨pieces.map Piece.token, tokens, ?_⟩
  intro token member
  obtain ⟨piece, inside, rfl⟩ := List.mem_map.mp member
  obtain ⟨earlier, later, rfl⟩ := List.append_of_mem inside
  obtain ⟨named, scanned⟩ := cut.fits.scanned
  exact ⟨named, _, _, scanned⟩

/-- The tokens of a text are well spelt, whether the text makes sense or not. -/
theorem lex_wellSpelt (text : String) : ∀ token ∈ lex text, token.kind.WellSpelt := by
  rcases lex_scanned text with ⟨tokens, lexed, scanned⟩
  rw [lexed]
  intro token member
  rcases List.mem_append.mp member with inTokens | last
  · rcases scanned token inTokens with ⟨named, lexeme, after, scanned⟩
    exact scanned.wellSpelt
  · rw [List.mem_singleton.mp last]
    trivial

/-- Where a text stands makes no difference to what its tokens are. -/
theorem kinds_tokensFrom_eq (named : Bool) (position other : Position) (cs : List Char) :
    (tokensFrom named position cs).map Token.kind =
      (tokensFrom named other cs).map Token.kind := by
  fun_induction tokensFrom named position cs generalizing other with
  | case1 named position => simp [tokensFrom]
  | case2 named position c cs blank inductionHypothesis =>
      rw [tokensFrom, if_pos blank]
      exact inductionHypothesis _
  | case3 named position c cs notBlank lexeme stop inductionHypothesis =>
      rw [tokensFrom, if_neg notBlank, List.map_cons, List.map_cons]
      exact congrArg (lexeme.1 :: ·) (inductionHypothesis _)

/-! ### Tokens that are read back -/

/-- What is written as this token is read as it, given whether a name is expected. -/
def TokenKind.Expected (named : Bool) : TokenKind → Prop
  | .action letter => named = false ∧ isAlphabetic letter = true
  | .identifier name => named = true ∧ IsName name
  | .invalid _ => False
  | .endOfFile => False
  | _ => True

/-- One after the other, the tokens are read as what they are. -/
def Legible : Bool → List TokenKind → Prop
  | _, [] => True
  | named, kind :: kinds => kind.Expected named ∧ Legible kind.introducesName kinds

/-- Quoted on its own, the token is read as what it is, given whether a name is expected. -/
def TokenKind.ReadsBack (named : Bool) (kind : TokenKind) : Prop :=
  ∃ first tail, kind.display.toList = first :: tail ∧ isBlank first = false ∧
    scan named first tail = (kind, tail)

/-- So are the tokens one after the other. -/
def AllReadBack : Bool → List TokenKind → Prop
  | _, [] => True
  | named, kind :: kinds => kind.ReadsBack named ∧ AllReadBack kind.introducesName kinds

/-- At a letter there is a reserved word, a name or an action. -/
theorem scan_at_letter (named : Bool) {first : Char} (letter : isAlphabetic first = true)
    (rest : List Char) :
    scan named first rest =
      match Keyword.at? (first :: rest) with
      | some word => (.keyword word, word.letters.tail)
      | none =>
          if named then
            (.identifier (String.ofList (first :: rest.takeWhile isNameChar)),
              rest.takeWhile isNameChar)
          else (.action first, []) := by
  have notOpen : first ≠ '{' := by
    rintro rfl
    cases letter
  have notClose : first ≠ '}' := by
    rintro rfl
    cases letter
  have noDigit : ¬ first.isDigit = true := by
    rw [isDigit_eq_false_of_isAlphabetic letter]
    exact Bool.false_ne_true
  unfold scan
  exact (if_neg notOpen).trans ((if_neg notClose).trans ((if_neg noDigit).trans (if_pos letter)))

/-- At a letter that begins no reserved word there is a name or an action. -/
theorem scan_of_letter (named : Bool) {first : Char} (letter : isAlphabetic first = true)
    {rest : List Char} (free : Keyword.at? (first :: rest) = none) :
    scan named first rest =
      if named then
        (.identifier (String.ofList (first :: rest.takeWhile isNameChar)),
          rest.takeWhile isNameChar)
      else (.action first, []) := by
  rw [scan_at_letter named letter, free]

theorem Keyword.at?_eq_none {cs : List Char}
    (free : ∀ word : Keyword, cs.takeWhile isNameChar ≠ word.letters) : Keyword.at? cs = none := by
  cases found : Keyword.at? cs with
  | none => rfl
  | some word => exact absurd (Keyword.at?_eq_some_iff.mp found) (free word)

theorem takeWhile_eq_self {continues : Char → Bool} {cs : List Char}
    (run : ∀ c ∈ cs, continues c = true) : cs.takeWhile continues = cs :=
  List.takeWhile_eq_self_iff.mpr run

/-- The decimals of a number, read as digits, give the number back. -/
theorem numeral_toDigits (count : UInt32) :
    numeral (Nat.toDigits 10 count.toNat) = .integer count := by
  have value : decimalValue (Nat.toDigits 10 count.toNat) = count.toNat := by
    have readBack : Nat.ofDigitChars 10 (Nat.toDigits 10 count.toNat) 0 = count.toNat :=
      Nat.ofDigitChars_toDigits (by decide) (by decide)
    simp only [Nat.ofDigitChars, Nat.mul_comm 10] at readBack
    exact readBack
  simp only [numeral, value, if_pos count.toNat_lt_size, UInt32.ofNat_toNat]

/-- Digits are read as the number they stand for, or as digits of no use. -/
theorem scan_digits (named : Bool) {first : Char} {tail : List Char}
    (digits : ∀ c ∈ first :: tail, c.isDigit = true) :
    scan named first tail = (numeral (first :: tail), tail) := by
  have digit := digits first List.mem_cons_self
  have notOpen : first ≠ '{' := by
    rintro rfl
    cases digit
  have notClose : first ≠ '}' := by
    rintro rfl
    cases digit
  have whole : tail.takeWhile Char.isDigit = tail :=
    takeWhile_eq_self fun c member => digits c (List.mem_cons_of_mem first member)
  simp only [scan, if_neg notOpen, if_neg notClose, digit, if_true, whole]

/-- A token that is expected is read back. -/
theorem TokenKind.Expected.readsBack {named : Bool} {kind : TokenKind}
    (expected : kind.Expected named) : kind.ReadsBack named := by
  have noBlank {c : Char} (letter : isAlphabetic c = true) : isBlank c = false :=
    isBlank_eq_false_of_isNameChar (isNameChar_of_isAlphabetic letter)
  cases kind with
  | action letter =>
      obtain ⟨unexpected, isLetter⟩ := expected
      have free : Keyword.at? [letter] = none := by
        apply Keyword.at?_eq_none
        intro word
        rw [takeWhile_of_letter isLetter]
        cases word <;> exact nofun
      refine ⟨letter, [], String.toList_singleton letter, noBlank isLetter, ?_⟩
      rw [scan_of_letter named isLetter free, unexpected]
      rfl
  | identifier name =>
      obtain ⟨isExpected, first, tail, spelt, isLetter, run, notReserved⟩ := expected
      have free : Keyword.at? (first :: tail) = none := by
        apply Keyword.at?_eq_none
        intro word same
        rw [takeWhile_of_letter isLetter, takeWhile_eq_self run, ← spelt] at same
        apply notReserved word
        rw [word.text_eq_ofList_letters, ← same, String.ofList_toList]
      refine ⟨first, tail, spelt, noBlank isLetter, ?_⟩
      rw [scan_of_letter named isLetter free, isExpected, takeWhile_eq_self run, ← spelt,
        String.ofList_toList]
      rfl
  | integer count =>
      have digits : ∀ c ∈ Nat.toDigits 10 count.toNat, c.isDigit = true :=
        fun c member => Nat.isDigit_of_mem_toDigits (by decide) (by decide) member
      have isNumeral := numeral_toDigits count
      cases shape : Nat.toDigits 10 count.toNat with
      | nil => exact absurd shape Nat.toDigits_ne_nil
      | cons first tail =>
          rw [shape] at digits isNumeral
          have digit := digits first List.mem_cons_self
          refine ⟨first, tail, ?_, isBlank_eq_false_of_isNameChar (isNameChar_of_isDigit digit), ?_⟩
          · rw [display, Nat.toString_eq_repr, Nat.toList_repr, shape]
          · rw [scan_digits named digits, isNumeral]
  | keyword word =>
      cases word <;> cases named <;> exact ⟨_, _, rfl, by decide, by decide +kernel⟩
  | openBrace => exact ⟨'{', [], rfl, by decide, rfl⟩
  | closeBrace => exact ⟨'}', [], rfl, by decide, rfl⟩
  | invalid text => cases expected
  | endOfFile => cases expected

/-! ### Written texts -/

/-- The tokens as they are quoted, with a gap in front of each and one behind the last. -/
def spaced (gaps : Nat → List Char) : List TokenKind → List Char
  | [] => gaps 0
  | kind :: kinds => gaps 0 ++ (kind.display.toList ++ spaced (fun index => gaps (index + 1)) kinds)

/-- Gaps for so many tokens: they hold nothing but blanks, and between two tokens there is at least
one. -/
structure Separates (gaps : Nat → List Char) (count : Nat) : Prop where
  blank : ∀ index, ∀ c ∈ gaps index, isBlank c = true
  between : ∀ index, 0 < index → index < count → gaps index ≠ []

namespace Separates

variable {gaps : Nat → List Char} {count : Nat}

theorem shift (separates : Separates gaps (count + 1)) :
    Separates (fun index => gaps (index + 1)) count :=
  ⟨fun index => separates.blank (index + 1),
    fun index _ below => separates.between (index + 1) index.succ_pos (Nat.succ_lt_succ below)⟩

/-- What is written after a token begins with a blank. -/
theorem startsBlank {kind : TokenKind} {kinds : List TokenKind}
    (separates : Separates gaps (kind :: kinds).length) :
    StartsBlank (spaced (fun index => gaps (index + 1)) kinds) := by
  cases gap : gaps 1 with
  | nil =>
      -- Only the last gap can be empty, and nothing comes after it.
      cases kinds with
      | nil => simp [StartsBlank, spaced, gap]
      | cons next later => exact absurd gap (separates.between 1 Nat.one_pos (by simp))
  | cons c more =>
      have blank : isBlank c = true := separates.blank 1 c (by simp [gap])
      cases kinds <;> simpa [StartsBlank, spaced, gap] using blank

end Separates

/-- Tokens that are read back one by one are read back from every text they are written in. -/
theorem AllReadBack.kinds_tokensFrom {named : Bool} {kinds : List TokenKind}
    (readBack : AllReadBack named kinds) {gaps : Nat → List Char}
    (separates : Separates gaps kinds.length) (position : Position) :
    (tokensFrom named position (spaced gaps kinds)).map Token.kind = kinds ++ [.endOfFile] := by
  induction kinds generalizing named gaps position with
  | nil =>
      have skipped := tokensFrom_skip named position (separates.blank 0) []
      rw [List.append_nil] at skipped
      rw [spaced, skipped, tokensFrom]
      rfl
  | cons kind kinds inductionHypothesis =>
      rcases readBack with ⟨⟨first, tail, spelt, noBlank, scanned⟩, later⟩
      have notBlank : ¬ isBlank first = true := by
        rw [noBlank]
        exact Bool.false_ne_true
      rw [spaced, tokensFrom_skip named position (separates.blank 0), spelt, List.cons_append,
        tokensFrom, if_neg notBlank, scan_append named first tail separates.startsBlank, scanned]
      dsimp only
      rw [List.drop_left, List.map_cons, inductionHypothesis later separates.shift]
      rfl

theorem Legible.allReadBack {named : Bool} {kinds : List TokenKind}
    (legible : Legible named kinds) : AllReadBack named kinds := by
  induction kinds generalizing named with
  | nil => trivial
  | cons kind kinds inductionHypothesis =>
      exact ⟨legible.1.readsBack, inductionHypothesis legible.2⟩

theorem Legible.kinds_tokensFrom {named : Bool} {kinds : List TokenKind}
    (legible : Legible named kinds) {gaps : Nat → List Char}
    (separates : Separates gaps kinds.length) (position : Position) :
    (tokensFrom named position (spaced gaps kinds)).map Token.kind = kinds ++ [.endOfFile] :=
  legible.allReadBack.kinds_tokensFrom separates position

end RobotScript
