/-
Module: RobotScript.Proofs.Relexing
Purpose: Quoting the tokens of a text and reading them again changes nothing, whether the text makes
  sense or not. What a token was read as in its text depends on what stands around it: a letter may
  be followed by others, digits may stand in front of letters, and names are read only where they are
  expected. But what was read is quoted so that it is read the same on its own, and whether a name
  is expected depends on the token before, which is the same one. So blanks between tokens carry no
  meaning.
Main exports: Scanned.readsBack, tokensFrom_readBack, tokens_are_read_back
-/
import RobotScript.Proofs.WrittenTokens

namespace RobotScript

/-- A character that begins no token of use is taken alone, whatever follows it. -/
theorem scan_other (named : Bool) {first : Char} (noBrace : first ≠ '{' ∧ first ≠ '}')
    (noDigit : first.isDigit = false) (noLetter : isAlphabetic first = false)
    (rest : List Char) : scan named first rest = (.invalid (String.singleton first), []) := by
  simp only [scan, if_neg noBrace.1, if_neg noBrace.2, noDigit, noLetter, Bool.false_eq_true,
    if_false]

/-- Digits are quoted as the number they stand for, without leading zeros, or as they stand if the
number is too large. -/
theorem numeral_readsBack (named : Bool) {first : Char} {tail : List Char}
    (run : ∀ c ∈ first :: tail, c.isDigit = true) :
    (numeral (first :: tail)).ReadsBack named := by
  have scanned := scan_digits named run
  have noBlank : isBlank first = false :=
    isBlank_eq_false_of_isNameChar (isNameChar_of_isDigit (run first List.mem_cons_self))
  simp only [numeral] at scanned ⊢
  split at scanned
  · rename_i fits
    rw [if_pos fits]
    exact TokenKind.Expected.readsBack trivial
  · rename_i tooLarge
    rw [if_neg tooLarge]
    exact ⟨first, tail, String.toList_ofList, noBlank, scanned⟩

/-- Whatever was read from a text is read back where it is quoted on its own. -/
theorem Scanned.readsBack {named : Bool} {kind : TokenKind} {lexeme after : List Char}
    (scanned : Scanned named kind lexeme after) : kind.ReadsBack named := by
  have spelt := scanned.wellSpelt
  cases scanned with
  | openBrace => exact TokenKind.Expected.readsBack trivial
  | closeBrace => exact TokenKind.Expected.readsBack trivial
  | digits run => exact numeral_readsBack named run
  | keyword word => exact TokenKind.Expected.readsBack trivial
  | name expected => exact TokenKind.Expected.readsBack ⟨expected, spelt⟩
  | letter unexpected => exact TokenKind.Expected.readsBack ⟨unexpected, spelt⟩
  | @other first _ noBrace noDigit noLetter noBlank =>
      exact ⟨first, [], String.toList_singleton first, noBlank,
        scan_other named noBrace noDigit noLetter []⟩

/-- The tokens of a text, up to the one for the end of the file, are read back one after the
other. -/
theorem tokensFrom_readBack (named : Bool) (position : Position) (cs : List Char) :
    ∃ kinds, (tokensFrom named position cs).map Token.kind = kinds ++ [.endOfFile] ∧
      (∀ kind ∈ kinds, kind ≠ .endOfFile) ∧ AllReadBack named kinds := by
  fun_induction tokensFrom named position cs with
  | case1 named position => exact ⟨[], rfl, List.forall_mem_nil _, trivial⟩
  | case2 named position c cs blank inductionHypothesis => exact inductionHypothesis
  | case3 named position c cs notBlank lexeme stop inductionHypothesis =>
      have noBlank : isBlank c = false := by simpa using notBlank
      have scanned := scan_scanned named cs noBlank
      rcases inductionHypothesis with ⟨kinds, same, noEnd, readBack⟩
      refine ⟨lexeme.1 :: kinds, ?_, ?_, scanned.readsBack, readBack⟩
      · rw [List.map_cons, same, List.cons_append]
      · exact List.forall_mem_cons.mpr ⟨scanned.kind_ne_endOfFile, noEnd⟩

/-- The tokens of any text, well formed or not, but for the end of the file, written as they are
quoted with blanks between them and any blanks at both ends, are read as the same tokens again. -/
theorem tokens_are_read_back (text : String) (gaps : Nat → List Char) :
    let kinds := ((lex text).map Token.kind).filter (· != .endOfFile)
    Separates gaps kinds.length →
      (lex (String.ofList (spaced gaps kinds))).map Token.kind = (lex text).map Token.kind := by
  intro kinds separates
  rcases tokensFrom_readBack false Position.start text.toList with ⟨read, whole, noEnd, readBack⟩
  rw [← lex_eq_tokensFrom] at whole
  have same : kinds = read := by
    have kept : read.filter (· != .endOfFile) = read :=
      List.filter_eq_self.mpr fun kind member => bne_iff_ne.mpr (noEnd kind member)
    simp only [kinds, whole, List.filter_append, kept]
    exact List.append_nil read
  rw [← same] at readBack whole
  have again := readBack.kinds_tokensFrom separates Position.start
  rw [lex_eq_tokensFrom, String.toList_ofList, again, whole]

/-- A name that begins with a reserved word, a reserved word at the end of other letters, a number
that is too large in front of a letter, leading zeros, an underscore and a numeral that is no digit. -/
theorem tokens_are_read_back_from_garbage :
    let text := "se se9 Lenquanto 99999999999a 007_9²"
    let gaps : Nat → List Char := fun index => if index = 0 then [] else ['\n', '\u3000']
    let kinds := ((lex text).map Token.kind).filter (· != .endOfFile)
    Separates gaps kinds.length ∧
      kinds = [.keyword .se, .identifier "se9", .action 'L', .keyword .enquanto,
        .invalid "99999999999", .action 'a', .integer 7, .invalid "_", .integer 9, .invalid "²"] ∧
      (lex (String.ofList (spaced gaps kinds))).map Token.kind = (lex text).map Token.kind := by
  intro text gaps kinds
  have separates : Separates gaps kinds.length := by
    constructor
    · intro index
      by_cases front : index = 0
      · simp only [gaps, if_pos front]
        exact List.forall_mem_nil _
      · simp only [gaps, if_neg front]
        exact List.all_eq_true.mp (by decide)
    · intro index positive _
      simp only [gaps, if_neg (Nat.ne_of_gt positive)]
      exact List.cons_ne_nil _ _
  exact ⟨separates, by decide +kernel, tokens_are_read_back text gaps separates⟩

end RobotScript
