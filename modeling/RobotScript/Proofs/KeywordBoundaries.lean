/-
Module: RobotScript.Proofs.KeywordBoundaries
Purpose: Where reserved words are found in a text. A reserved word always goes on to the end of its
  word, but it need not be the whole word: letters in front of it are read one by one, as actions,
  and what is left of the word is looked at afresh after each of them. So a run of letters that is
  not read as a name yields a reserved word exactly if it ends in one.
Main exports: Keyword.eq_of_suffix, kinds_tokensFrom_letters, Cut.action_before_keyword,
  Cut.keyword_suffix, Scanned.letter_of_run, Cut.piece_at, Cut.yields_keyword,
  keywords_end_letter_runs, keyword_after_letter
-/
import RobotScript.Proofs.NamePlaces

namespace RobotScript

/-! ### Letters in front of a reserved word -/

/-- No reserved word ends in another one. -/
theorem Keyword.eq_of_suffix {word other : Keyword} (ends : word.letters <:+ other.letters) :
    word = other := by
  revert ends
  cases word <;> cases other <;> decide

theorem Keyword.isAlphabetic_of_mem_letters (word : Keyword) {c : Char}
    (member : c ∈ word.letters) : isAlphabetic c = true := by
  have allLetters : word.letters.all isAlphabetic = true := by
    cases word <;> decide +kernel
  exact List.all_eq_true.mp allLetters c member

theorem Keyword.letters_eq_cons (word : Keyword) : ∃ first tail, word.letters = first :: tail := by
  cases word <;> exact ⟨_, _, rfl⟩

/-- Letters and a reserved word behind them go on as one word. -/
theorem isNameChar_of_mem_run {front : List Char} (letters : ∀ c ∈ front, isAlphabetic c = true)
    (word : Keyword) : ∀ c ∈ front ++ word.letters, isNameChar c = true := by
  intro c member
  rcases List.mem_append.mp member with inFront | inWord
  · exact isNameChar_of_isAlphabetic (letters c inFront)
  · exact word.isNameChar_of_mem_letters inWord

/-- Such a run begins with a letter. -/
theorem run_eq_cons {front : List Char} (letters : ∀ c ∈ front, isAlphabetic c = true)
    (word : Keyword) : ∃ first others, front ++ word.letters = first :: others ∧
      isAlphabetic first = true := by
  cases front with
  | nil =>
      obtain ⟨first, others, spelt⟩ := word.letters_eq_cons
      exact ⟨first, others, spelt, word.isAlphabetic_of_mem_letters (spelt ▸ List.mem_cons_self)⟩
  | cons first others => exact ⟨first, _, rfl, letters first List.mem_cons_self⟩

/-- A reserved word is read as such wherever its last letter ends a word. -/
theorem scan_keyword (named : Bool) (word : Keyword) {first : Char} {tail after : List Char}
    (spelt : word.letters = first :: tail) (whole : Stops isNameChar after) :
    scan named first (tail ++ after) = (.keyword word, tail) := by
  have letter : isAlphabetic first = true :=
    word.isAlphabetic_of_mem_letters (spelt ▸ List.mem_cons_self)
  have found : Keyword.at? (first :: (tail ++ after)) = some word := by
    rw [Keyword.at?_eq_some_iff, ← List.cons_append, ← spelt, takeWhile_append_of_stops whole]
    exact takeWhile_eq_self fun _ => word.isNameChar_of_mem_letters
  rw [scan_at_letter named letter, found]
  exact congrArg (TokenKind.keyword word, ·) (congrArg List.tail spelt)

/-- Letters in front of a reserved word are actions, and the reserved word is read all the same. -/
theorem kinds_tokensFrom_letters (position : Position) {front : List Char}
    (letters : ∀ c ∈ front, isAlphabetic c = true) (word : Keyword) {after : List Char}
    (whole : Stops isNameChar after) :
    (tokensFrom false position (front ++ word.letters ++ after)).map Token.kind =
      front.map TokenKind.action ++ .keyword word ::
        (tokensFrom word.introducesName Position.start after).map Token.kind := by
  induction front generalizing position with
  | nil =>
      obtain ⟨first, tail, spelt⟩ := word.letters_eq_cons
      have noBlank : isBlank first = false := isBlank_eq_false_of_isNameChar
        (word.isNameChar_of_mem_letters (spelt ▸ List.mem_cons_self))
      rw [List.nil_append, spelt, List.cons_append, tokensFrom, noBlank]
      simp only [Bool.false_eq_true, if_false, scan_keyword false word spelt whole]
      rw [List.drop_left, List.map_cons, List.map_nil, List.nil_append]
      exact congrArg (TokenKind.keyword word :: ·) (kinds_tokensFrom_eq _ _ _ _)
  | cons c front inductionHypothesis =>
      have letter : isAlphabetic c = true := letters c List.mem_cons_self
      have noBlank : isBlank c = false :=
        isBlank_eq_false_of_isNameChar (isNameChar_of_isAlphabetic letter)
      have free : Keyword.at? (c :: (front ++ word.letters ++ after)) = none := by
        apply Keyword.at?_eq_none
        intro other spelt
        have run := isNameChar_of_mem_run letters word
        rw [List.cons_append] at run
        rw [← List.cons_append, takeWhile_append_of_stops whole, takeWhile_eq_self run] at spelt
        -- The other word would end in this one, and be longer.
        obtain rfl := Keyword.eq_of_suffix ⟨c :: front, spelt⟩
        have length := congrArg List.length spelt
        simp only [List.length_cons, List.length_append] at length
        omega
      have rest := inductionHypothesis (position.advance [c])
        fun d member => letters d (List.mem_cons_of_mem c member)
      rw [List.cons_append, List.cons_append, tokensFrom, noBlank]
      simp only [Bool.false_eq_true, if_false, scan_of_letter false letter free]
      rw [List.map_cons, List.map_cons, List.cons_append]
      exact congrArg (TokenKind.action c :: ·) rest

/-! ### Around a reserved word -/

theorem numeral_ne_keyword (digits : List Char) (word : Keyword) :
    numeral digits ≠ .keyword word := by
  simp only [numeral]
  split
  · intro same
    cases same
  · intro same
    cases same

/-- What is read as a reserved word is that word, up to the end of a word of the text. -/
theorem Scanned.keyword_whole {named : Bool} {word : Keyword} {lexeme after : List Char}
    (scanned : Scanned named (.keyword word) lexeme after) :
    lexeme = word.letters ∧ Stops isNameChar after := by
  generalize isKeyword : TokenKind.keyword word = kind at scanned
  cases scanned with
  | keyword other whole =>
      obtain rfl := TokenKind.keyword.inj isKeyword
      exact ⟨rfl, whole⟩
  | digits => exact absurd isKeyword.symm (numeral_ne_keyword _ _)
  | openBrace => cases isKeyword
  | closeBrace => cases isKeyword
  | name => cases isKeyword
  | letter => cases isKeyword
  | other => cases isKeyword

/-- A lexeme that ends in a letter and is followed by a character that would continue a word is an
action: everything else that can end in a letter takes its word to the end. -/
theorem Scanned.action_of_continued {named : Bool} {kind : TokenKind} {lexeme after : List Char}
    (scanned : Scanned named kind lexeme after) {c next : Char}
    (last : lexeme.getLast? = some c) (letter : isAlphabetic c = true)
    (followed : after.head? = some next) (continues : isNameChar next = true) :
    kind = .action c ∧ lexeme = [c] := by
  have notWhole : ¬ Stops isNameChar after := by
    intro whole
    cases (whole next followed).symm.trans continues
  cases scanned with
  | openBrace =>
      cases last
      cases letter
  | closeBrace =>
      cases last
      cases letter
  | digits run =>
      have digit := run c (List.mem_of_getLast? last)
      cases (isDigit_eq_false_of_isAlphabetic letter).symm.trans digit
  | keyword _ whole => exact absurd whole notWhole
  | name _ _ _ whole => exact absurd whole notWhole
  | letter =>
      cases last
      exact ⟨rfl, rfl⟩
  | other _ _ noLetter =>
      cases last
      cases noLetter.symm.trans letter

namespace Cut

variable {trailing : List Char} {earlier later : List Piece} {piece : Piece} {word : Keyword}

theorem keyword_whole (cut : Cut [] (earlier ++ piece :: later) trailing)
    (isKeyword : piece.token.kind = .keyword word) :
    piece.lexeme = word.letters ∧ Stops isNameChar (Piece.charsOfAll later ++ trailing) := by
  obtain ⟨named, scanned⟩ := cut.fits.scanned
  rw [isKeyword] at scanned
  exact scanned.keyword_whole

/-- A letter right before a reserved word is an action of its own. -/
theorem action_before_keyword (cut : Cut [] (earlier ++ piece :: later) trailing)
    (isKeyword : piece.token.kind = .keyword word) {c : Char}
    (last : (Piece.charsOfAll earlier ++ piece.blanks).getLast? = some c)
    (letter : isAlphabetic c = true) :
    piece.blanks = [] ∧ ∃ others previous, earlier = others ++ [previous] ∧
      previous.token.kind = .action c ∧ previous.lexeme = [c] := by
  have noBlank : isBlank c = false :=
    isBlank_eq_false_of_isNameChar (isNameChar_of_isAlphabetic letter)
  have adjacent : piece.blanks = [] := by
    by_contra blanks
    rw [List.getLast?_append_of_ne_nil _ blanks] at last
    cases noBlank.symm.trans (cut.fits.blanks c (List.mem_of_getLast? last))
  refine ⟨adjacent, ?_⟩
  rw [adjacent, List.append_nil] at last
  obtain ⟨spelt, -⟩ := cut.keyword_whole isKeyword
  rcases List.eq_nil_or_concat earlier with rfl | ⟨others, previous, rfl⟩
  · cases last
  · rw [List.concat_eq_append] at cut last ⊢
    refine ⟨others, previous, rfl, ?_⟩
    rw [List.append_assoc] at cut
    obtain ⟨named, scanned⟩ := cut.fits.scanned
    have ends : previous.lexeme.getLast? = some c := by
      rw [Piece.charsOfAll, List.flatMap_append, List.flatMap_singleton, Piece.chars,
        ← List.append_assoc, List.getLast?_append_of_ne_nil _ scanned.ne_nil] at last
      exact last
    obtain ⟨first, tail, letters⟩ := word.letters_eq_cons
    have followed : (Piece.charsOfAll (piece :: later) ++ trailing).head? = some first := by
      rw [Piece.charsOfAll, List.flatMap_cons, Piece.chars, adjacent, spelt, letters]
      rfl
    have continues : isNameChar first = true :=
      word.isNameChar_of_mem_letters (letters ▸ List.mem_cons_self)
    exact scanned.action_of_continued ends letter followed continues

/-- A stretch of letters, up to a character that is none, ends in every reserved word that begins
in it. -/
theorem keyword_suffix (cut : Cut [] (earlier ++ piece :: later) trailing)
    (isKeyword : piece.token.kind = .keyword word) {outside run rest : List Char}
    (split : Piece.charsOfAll (earlier ++ piece :: later) ++ trailing = outside ++ run ++ rest)
    (letters : ∀ c ∈ run, isAlphabetic c = true) (ended : Stops isAlphabetic rest)
    (fromStart : outside.length ≤ (Piece.charsOfAll earlier ++ piece.blanks).length)
    (beforeEnd : (Piece.charsOfAll earlier ++ piece.blanks).length < (outside ++ run).length) :
    word.letters <:+ run := by
  obtain ⟨spelt, whole⟩ := cut.keyword_whole isKeyword
  have text : Piece.charsOfAll (earlier ++ piece :: later) ++ trailing =
      (Piece.charsOfAll earlier ++ piece.blanks) ++
        (word.letters ++ (Piece.charsOfAll later ++ trailing)) := by
    simp [Piece.charsOfAll, Piece.chars, spelt]
  rw [text, List.append_assoc outside] at split
  generalize Piece.charsOfAll earlier ++ piece.blanks = before at split fromStart beforeEnd
  -- The stretch of letters is cut where the reserved word begins.
  obtain ⟨front, rfl⟩ : outside <+: before :=
    List.prefix_of_prefix_length_le ⟨_, split.symm⟩ ⟨_, rfl⟩ fromStart
  rw [List.append_assoc, List.append_cancel_left_eq] at split
  simp only [List.length_append] at beforeEnd
  obtain ⟨ending, rfl⟩ : front <+: run :=
    List.prefix_of_prefix_length_le ⟨_, split⟩ ⟨_, rfl⟩ (by omega)
  rw [List.append_assoc, List.append_cancel_left_eq] at split
  have lettersStop : Stops isAlphabetic (Piece.charsOfAll later ++ trailing) := by
    intro c first
    cases letter : isAlphabetic c with
    | false => rfl
    | true => cases (whole c first).symm.trans (isNameChar_of_isAlphabetic letter)
  have sameRun := congrArg (List.takeWhile isAlphabetic) split
  rw [takeWhile_append_of_stops ended, takeWhile_append_of_stops lettersStop,
    takeWhile_eq_self fun _ => word.isAlphabetic_of_mem_letters,
    takeWhile_eq_self fun c member => letters c (List.mem_append_right front member)] at sameRun
  exact ⟨front, by rw [← sameRun]⟩

end Cut

/-! ### Runs that end in a reserved word -/

/-- What a letter is read as from which on a run of letters ends in a reserved word, unless it is
part of a name: the first letter of that word, if none stand in front of it, and an action of its
own otherwise. -/
theorem Scanned.letter_of_run {named : Bool} {kind : TokenKind}
    {lexeme after inside tail : List Char} {c : Char}
    (scanned : Scanned named kind lexeme after) (here : lexeme = inside ++ c :: tail)
    (noName : ∀ name, kind ≠ .identifier name) {front rest : List Char} {word : Keyword}
    (letters : ∀ d ∈ front, isAlphabetic d = true) (whole : Stops isNameChar rest)
    (run : c :: tail ++ after = front ++ word.letters ++ rest) :
    inside = [] ∧ (front = [] ∧ kind = .keyword word ∧ lexeme = word.letters ∨
      ∃ others, front = c :: others ∧ kind = .action c ∧ lexeme = [c]) := by
  have wholeRun : (front ++ word.letters ++ rest).takeWhile isNameChar = front ++ word.letters := by
    rw [takeWhile_append_of_stops whole, takeWhile_eq_self (isNameChar_of_mem_run letters word)]
  have letter : isAlphabetic c = true := by
    obtain ⟨first, others, shape, isLetter⟩ := run_eq_cons letters word
    rw [shape] at run
    exact (List.cons.inj run).1 ▸ isLetter
  have single {first : Char} (alone : [first] = inside ++ c :: tail) :
      inside = [] ∧ first = c ∧ tail = [] := by
    cases inside with
    | nil => exact ⟨rfl, (List.cons.inj alone).1, (List.cons.inj alone).2.symm⟩
    | cons d inside => simp at alone
  cases scanned with
  | openBrace =>
      obtain ⟨-, rfl, -⟩ := single here
      cases letter
  | closeBrace =>
      obtain ⟨-, rfl, -⟩ := single here
      cases letter
  | digits isRun =>
      have digit := isRun c (here ▸ List.mem_append_right inside List.mem_cons_self)
      cases (isDigit_eq_false_of_isAlphabetic letter).symm.trans digit
  | keyword other stops =>
      have inOther : ∀ d ∈ c :: tail, isNameChar d = true := fun d member =>
        other.isNameChar_of_mem_letters (here ▸ List.mem_append_right inside member)
      have same : c :: tail = front ++ word.letters := by
        rw [← wholeRun, ← run, takeWhile_append_of_stops stops, takeWhile_eq_self inOther]
      rw [same, ← List.append_assoc] at here
      obtain rfl := Keyword.eq_of_suffix ⟨inside ++ front, here.symm⟩
      have nothing : inside ++ front = [] := List.self_eq_append_left.mp here
      obtain ⟨rfl, rfl⟩ := List.append_eq_nil_iff.mp nothing
      exact ⟨rfl, Or.inl ⟨rfl, rfl, rfl⟩⟩
  | name => exact absurd rfl (noName _)
  | letter _ _ free =>
      obtain ⟨rfl, rfl, rfl⟩ := single here
      refine ⟨rfl, Or.inr ?_⟩
      rw [List.singleton_append] at run
      cases front with
      | nil =>
          rw [← run] at wholeRun
          exact absurd wholeRun (free word)
      | cons d front =>
          obtain ⟨rfl, -⟩ := List.cons.inj run
          exact ⟨front, rfl, rfl, rfl⟩
  | other _ _ noLetter =>
      obtain ⟨-, rfl, -⟩ := single here
      cases noLetter.symm.trans letter

/-- A character of a text in two parts stands in the first part or in the second. -/
theorem part_of_append {first second outside rest : List Char} {c : Char}
    (split : first ++ second = outside ++ c :: rest) :
    (∃ tail, first = outside ++ c :: tail) ∨
      ∃ inside, outside = first ++ inside ∧ second = inside ++ c :: rest := by
  rcases List.append_eq_append_iff.mp split with behind | ⟨tail, firstIs, restIs⟩
  · exact Or.inr behind
  · cases tail with
    | nil => exact Or.inr ⟨[], by simpa using firstIs.symm, restIs.symm⟩
    | cons d tail =>
        obtain ⟨rfl, -⟩ := List.cons.inj restIs
        exact Or.inl ⟨tail, firstIs⟩

/-- No name reaches over this place of a text: one that begins at it or before it also ends there or
before. -/
def NoNameAt (pieces : List Piece) (place : Nat) : Prop :=
  ∀ earlier piece later name, pieces = earlier ++ piece :: later →
    piece.token.kind = .identifier name →
    (Piece.charsOfAll earlier ++ piece.blanks).length ≤ place →
    (Piece.charsOfAll (earlier ++ [piece])).length ≤ place

namespace Cut

variable {before trailing : List Char} {pieces : List Piece}

theorem later {earlier : List Piece} (cut : Cut before (earlier ++ pieces) trailing) :
    Cut (before ++ Piece.charsOfAll earlier) pieces trailing := by
  induction earlier generalizing before with
  | nil =>
      rw [Piece.charsOfAll, List.flatMap_nil, List.append_nil]
      exact cut
  | cons first others inductionHypothesis =>
      cases cut with
      | piece _ rest =>
          have placed := inductionHypothesis rest
          rw [List.append_assoc] at placed
          exact placed

/-- A character that is no blank stands in the lexeme of a piece. -/
theorem piece_at (cut : Cut before pieces trailing) {outside rest : List Char} {c : Char}
    (split : Piece.charsOfAll pieces ++ trailing = outside ++ c :: rest)
    (noBlank : isBlank c = false) :
    ∃ earlier piece later inside tail, pieces = earlier ++ piece :: later ∧
      outside = Piece.charsOfAll earlier ++ piece.blanks ++ inside ∧
      piece.lexeme = inside ++ c :: tail := by
  have notIn {blanks : List Char} (allBlank : ∀ d ∈ blanks, isBlank d = true) : c ∉ blanks := by
    intro member
    cases noBlank.symm.trans (allBlank c member)
  have inside {outside tail : List Char} : c ∈ outside ++ c :: tail :=
    List.mem_append_right _ List.mem_cons_self
  induction cut generalizing outside with
  | blanks allBlank =>
      have member : c ∈ outside ++ c :: rest := inside
      rw [← split] at member
      exact absurd member (notIn allBlank)
  | @piece before trailing piece pieces fits _ inductionHypothesis =>
      have chars : piece.blanks ++ (piece.lexeme ++ (Piece.charsOfAll pieces ++ trailing)) =
          outside ++ c :: rest := by
        rw [← split]
        simp [Piece.charsOfAll, Piece.chars]
      rcases part_of_append chars with ⟨tail, inBlanks⟩ | ⟨behind, rfl, notInBlanks⟩
      · exact absurd (inBlanks ▸ inside) (notIn fits.blanks)
      rcases part_of_append notInBlanks with ⟨tail, inLexeme⟩ | ⟨further, rfl, inLater⟩
      · exact ⟨[], piece, pieces, behind, tail, rfl, rfl, inLexeme⟩
      · obtain ⟨earlier, other, later, inside, tail, rfl, rfl, found⟩ := inductionHypothesis inLater
        refine ⟨piece :: earlier, other, later, inside, tail, rfl, ?_, found⟩
        simp [Piece.charsOfAll, Piece.chars]

/-- Blanks and then a character that is none are where the first piece begins. -/
theorem first_piece (cut : Cut before pieces trailing) {gap rest : List Char} {c : Char}
    (blanks : ∀ d ∈ gap, isBlank d = true) (noBlank : isBlank c = false)
    (split : Piece.charsOfAll pieces ++ trailing = gap ++ c :: rest) :
    ∃ piece later tail, pieces = piece :: later ∧ piece.blanks = gap ∧ piece.lexeme = c :: tail ∧
      tail ++ (Piece.charsOfAll later ++ trailing) = rest := by
  have stops {d : Char} {later : List Char} (noBlank : isBlank d = false) :
      Stops isBlank (d :: later) := by
    rintro e ⟨⟩
    exact noBlank
  cases cut with
  | blanks allBlank =>
      have member : c ∈ gap ++ c :: rest := List.mem_append_right _ List.mem_cons_self
      rw [← split] at member
      cases noBlank.symm.trans (allBlank c member)
  | @piece _ _ piece later fits =>
      obtain ⟨named, scanned⟩ := fits.scanned
      obtain ⟨d, tail, spelt⟩ := List.exists_cons_of_ne_nil scanned.ne_nil
      have chars : piece.blanks ++ d :: (tail ++ (Piece.charsOfAll later ++ trailing)) =
          gap ++ c :: rest := by
        rw [← split]
        simp [Piece.charsOfAll, Piece.chars, spelt]
      have sameGap := congrArg (List.takeWhile isBlank) chars
      rw [takeWhile_append_of_stops (stops (scanned.noBlank d (spelt ▸ List.mem_cons_self))),
        takeWhile_append_of_stops (stops noBlank), takeWhile_eq_self fits.blanks,
        takeWhile_eq_self blanks] at sameGap
      rw [sameGap, List.append_cancel_left_eq] at chars
      obtain ⟨rfl, others⟩ := List.cons.inj chars
      exact ⟨piece, later, tail, rfl, sameGap, spelt, others⟩

/-- The first piece of a run that ends in a reserved word is that word or an action in front of it,
where no name is expected. -/
theorem first_of_run (cut : Cut before pieces trailing)
    (awaited : NamesAwaited false (pieces.map Piece.token)) {gap front rest : List Char}
    (blanks : ∀ c ∈ gap, isBlank c = true) (letters : ∀ c ∈ front, isAlphabetic c = true)
    {word : Keyword} (whole : Stops isNameChar rest)
    (split : Piece.charsOfAll pieces ++ trailing = gap ++ (front ++ word.letters ++ rest)) :
    ∃ piece later, pieces = piece :: later ∧ piece.blanks = gap ∧
      (front = [] ∧ piece.token.kind = .keyword word ∧ piece.lexeme = word.letters ∨
        ∃ c others, front = c :: others ∧ piece.token.kind = .action c ∧ piece.lexeme = [c] ∧
          Piece.charsOfAll later ++ trailing = others ++ word.letters ++ rest) := by
  obtain ⟨first, others, shape, letter⟩ := run_eq_cons letters word
  have noBlank : isBlank first = false :=
    isBlank_eq_false_of_isNameChar (isNameChar_of_isAlphabetic letter)
  rw [shape, List.cons_append] at split
  obtain ⟨piece, later, tail, rfl, sameGap, spelt, continued⟩ :=
    cut.first_piece blanks noBlank split
  have noName : ∀ name, piece.token.kind ≠ .identifier name := by
    intro name isName
    have expected := awaited.1
    rw [isName] at expected
    cases expected
  have run : first :: tail ++ (Piece.charsOfAll later ++ trailing) =
      front ++ word.letters ++ rest := by
    rw [List.cons_append, continued, shape, List.cons_append]
  have here : piece.lexeme = [] ++ first :: tail := spelt
  refine ⟨piece, later, rfl, sameGap, ?_⟩
  cases cut with
  | piece fits =>
      obtain ⟨named, scanned⟩ := fits.scanned
      rcases (scanned.letter_of_run here noName letters whole run).2 with
        isWord | ⟨behind, rfl, isAction, alone⟩
      · exact Or.inl isWord
      · obtain rfl : tail = [] := (List.cons.inj (spelt.symm.trans alone)).2
        exact Or.inr ⟨first, behind, rfl, isAction, alone, (List.cons.inj run).2⟩

/-- Where reading goes on with a run of letters that ends in a reserved word, and no name is
expected, the letters in front of the word are actions, and the word is read. -/
theorem yields_from_start (cut : Cut before pieces trailing)
    (awaited : NamesAwaited false (pieces.map Piece.token)) {gap front rest : List Char}
    (blanks : ∀ c ∈ gap, isBlank c = true) (letters : ∀ c ∈ front, isAlphabetic c = true)
    {word : Keyword} (whole : Stops isNameChar rest)
    (split : Piece.charsOfAll pieces ++ trailing = gap ++ (front ++ word.letters ++ rest)) :
    ∃ actions piece later, pieces = actions ++ piece :: later ∧
      Piece.charsOfAll actions ++ piece.blanks = gap ++ front ∧
      actions.map (·.token.kind) = front.map TokenKind.action ∧
      piece.token.kind = .keyword word ∧ piece.lexeme = word.letters := by
  induction front generalizing before gap pieces with
  | nil =>
      obtain ⟨piece, later, rfl, sameGap, ⟨-, isWord⟩ | ⟨c, others, impossible, -⟩⟩ :=
        cut.first_of_run awaited blanks letters whole split
      · exact ⟨[], piece, later, rfl, by simp [Piece.charsOfAll, sameGap], rfl, isWord⟩
      · cases impossible
  | cons c front inductionHypothesis =>
      obtain ⟨first, pieces, rfl, sameGap, ⟨impossible, -⟩ | ⟨d, others, same, isAction, alone,
        continued⟩⟩ := cut.first_of_run awaited blanks letters whole split
      · cases impossible
      obtain ⟨rfl, rfl⟩ := List.cons.inj same
      have awaitedBehind := awaited.2
      rw [isAction] at awaitedBehind
      cases cut with
      | piece _ cutBehind =>
          obtain ⟨actions, piece, later, rfl, place, areActions, isWord⟩ :=
            inductionHypothesis cutBehind awaitedBehind (List.forall_mem_nil _)
              (fun e member => letters e (List.mem_cons_of_mem c member)) continued
          refine ⟨first :: actions, piece, later, rfl, ?_, ?_, isWord⟩
          · rw [Piece.charsOfAll, List.flatMap_cons, List.append_assoc, ← Piece.charsOfAll, place,
              Piece.chars, sameGap, alone]
            simp
          · rw [List.map_cons, isAction, areActions, List.map_cons]

/-- A run of letters that ends in a reserved word yields it, after an action for each letter in
front, wherever in a text it stands, unless its first letter is part of a name. -/
theorem yields_keyword (cut : Cut before pieces trailing)
    (awaited : NamesAwaited false (pieces.map Piece.token)) {outside front rest : List Char}
    (letters : ∀ c ∈ front, isAlphabetic c = true) {word : Keyword} (whole : Stops isNameChar rest)
    (split : Piece.charsOfAll pieces ++ trailing = outside ++ (front ++ word.letters ++ rest))
    (noName : NoNameAt pieces outside.length) :
    ∃ earlier actions piece later, pieces = earlier ++ actions ++ piece :: later ∧
      Piece.charsOfAll (earlier ++ actions) ++ piece.blanks = outside ++ front ∧
      actions.map (·.token.kind) = front.map TokenKind.action ∧
      piece.token.kind = .keyword word ∧ piece.lexeme = word.letters := by
  obtain ⟨first, others, shape, letter⟩ := run_eq_cons letters word
  have noBlank : isBlank first = false :=
    isBlank_eq_false_of_isNameChar (isNameChar_of_isAlphabetic letter)
  have atFirst := split
  rw [shape, List.cons_append] at atFirst
  obtain ⟨earlier, piece, later, inside, tail, rfl, rfl, found⟩ := cut.piece_at atFirst noBlank
  have isNoName : ∀ name, piece.token.kind ≠ .identifier name := by
    intro name isName
    have past := noName earlier piece later name rfl isName (by simp)
    simp only [Piece.charsOfAll, List.flatMap_append, List.flatMap_singleton, Piece.chars,
      List.length_append, found, List.length_cons] at past
    omega
  have fromLexeme : piece.lexeme ++ (Piece.charsOfAll later ++ trailing) =
      inside ++ (front ++ word.letters ++ rest) := by
    simp only [Piece.charsOfAll, List.flatMap_append, List.flatMap_cons, Piece.chars,
      List.append_assoc, List.append_cancel_left_eq] at split ⊢
    exact split
  have run : first :: tail ++ (Piece.charsOfAll later ++ trailing) =
      front ++ word.letters ++ rest := by
    rw [found, List.append_assoc, List.append_cancel_left_eq] at fromLexeme
    exact fromLexeme
  -- The run begins with its piece, so it can be read from there on.
  obtain ⟨named, scanned⟩ := cut.fits.scanned
  obtain ⟨rfl, -⟩ := scanned.letter_of_run found isNoName letters whole run
  rw [List.map_append] at awaited
  have notAwaited : ∀ name,
      (nextToken Span.origin ((piece :: later).map Piece.token)).kind ≠ .identifier name :=
    isNoName
  have awaitedHere := awaited.right.of_noName notAwaited
  have here : Piece.charsOfAll (piece :: later) ++ trailing =
      piece.blanks ++ (front ++ word.letters ++ rest) := by
    rw [Piece.charsOfAll, List.flatMap_cons, ← Piece.charsOfAll, Piece.chars, List.append_assoc,
      List.append_assoc, fromLexeme, List.nil_append]
  obtain ⟨actions, keyword, behind, shape, place, areActions, isWord⟩ :=
    cut.later.yields_from_start awaitedHere cut.fits.blanks letters whole here
  refine ⟨earlier, actions, keyword, behind, ?_, ?_, areActions, isWord⟩
  · rw [shape, List.append_assoc]
  · rw [Piece.charsOfAll, List.flatMap_append, List.append_assoc, ← Piece.charsOfAll,
      ← Piece.charsOfAll, place, List.append_nil, List.append_assoc]

end Cut

/-- Reserved words stand at the end of words. The characters of a reserved word are followed by
none that continues a word. A letter right before them is an action, read from the same run of
letters; so a reserved word that no action stands right before is a whole word. A run of letters
that does not end in a reserved word yields none. One that does, wherever it stands and unless a
name reaches over its first letter, yields it after an action for each letter in front. At the
beginning of a text no name is read, and reading goes on behind the reserved word. -/
theorem keywords_end_letter_runs (text : String) :
    (∃ (pieces : List Piece) (trailing : List Char) (last : Token),
      lex text = pieces.map Piece.token ++ [last] ∧ last.kind = .endOfFile ∧
      text.toList = Piece.charsOfAll pieces ++ trailing ∧ Cut [] pieces trailing ∧
      (∀ (earlier : List Piece) (piece : Piece) (later : List Piece) (word : Keyword),
        pieces = earlier ++ piece :: later → piece.token.kind = .keyword word →
        piece.lexeme = word.letters ∧
        Stops isNameChar (Piece.charsOfAll later ++ trailing) ∧
        (∀ c, (Piece.charsOfAll earlier ++ piece.blanks).getLast? = some c →
          isAlphabetic c = true →
          piece.blanks = [] ∧ ∃ others previous, earlier = others ++ [previous] ∧
            previous.token.kind = .action c ∧ previous.lexeme = [c]) ∧
        ∀ outside run rest : List Char, text.toList = outside ++ run ++ rest →
          (∀ c ∈ run, isAlphabetic c = true) → Stops isAlphabetic rest →
          outside.length ≤ (Piece.charsOfAll earlier ++ piece.blanks).length →
          (Piece.charsOfAll earlier ++ piece.blanks).length < (outside ++ run).length →
          word.letters <:+ run) ∧
      ∀ (outside front : List Char) (word : Keyword) (rest : List Char),
        text.toList = outside ++ (front ++ word.letters ++ rest) →
        (∀ c ∈ front, isAlphabetic c = true) → Stops isNameChar rest →
        NoNameAt pieces outside.length →
        ∃ earlier actions piece later, pieces = earlier ++ actions ++ piece :: later ∧
          Piece.charsOfAll (earlier ++ actions) ++ piece.blanks = outside ++ front ∧
          actions.map (·.token.kind) = front.map TokenKind.action ∧
          piece.token.kind = .keyword word ∧ piece.lexeme = word.letters) ∧
    ∀ (front : List Char) (word : Keyword) (rest : List Char),
      text.toList = front ++ word.letters ++ rest → (∀ c ∈ front, isAlphabetic c = true) →
      Stops isNameChar rest →
      (lex text).map Token.kind = front.map TokenKind.action ++ .keyword word ::
        (tokensFrom word.introducesName Position.start rest).map Token.kind := by
  constructor
  · obtain ⟨pieces, trailing, whole, tokens, cut⟩ := lex_cut text
    refine ⟨pieces, trailing, _, tokens, rfl, whole.symm, cut, ?_, ?_⟩
    · rintro earlier piece later word rfl isKeyword
      obtain ⟨spelt, ends⟩ := cut.keyword_whole isKeyword
      refine ⟨spelt, ends, fun c => cut.action_before_keyword isKeyword, ?_⟩
      intro outside run rest split
      exact cut.keyword_suffix isKeyword (whole.trans split)
    · intro outside front word rest split letters ends
      have awaited := lex_namesAwaited text
      rw [tokens] at awaited
      exact cut.yields_keyword awaited.left letters ends (whole.trans split)
  · intro front word rest split letters ends
    rw [lex_eq_tokensFrom, split]
    exact kinds_tokensFrom_letters Position.start letters word ends

/-- The run of letters `Lse` is no reserved word and no name, and yet a reserved word is read in
it, right behind a letter. -/
theorem keyword_after_letter :
    ¬ ∀ (text : String) (token : Token) (before : List Char) (c : Char) (after : List Char),
      token ∈ lex text → token.kind.isKeyword = true → text.toList = before ++ c :: after →
      token.span.offset = (String.ofList (before ++ [c])).utf8ByteSize →
      isAlphabetic c = false := by
  intro never
  have apart : isAlphabetic 'L' = false :=
    never "Lse" ⟨.keyword .se, ⟨1, 2, 1, 3, 1⟩⟩ [] 'L' ['s', 'e'] (by decide +kernel) rfl
      (by decide +kernel) (by decide +kernel)
  revert apart
  decide +kernel

example : (lex "Lse x").map Token.kind =
    [.action 'L', .keyword .se, .identifier "x", .endOfFile] := by
  decide +kernel

end RobotScript
