/-
Module: RobotScript.Token.Lexer
Purpose: From text to tokens. Reading never fails: what the grammar has no use for becomes an
  invalid token, and the parser complains about it.
  A word is, in this order: a reserved word if the whole word is one; a name if it comes right
  after a word that introduces a name; otherwise only its first letter is taken, as an action.
Main exports: Keyword.at?, numeral, scan, tokensFrom, lex, lex_eq_tokensFrom
-/
import RobotScript.CharClass.Name
import RobotScript.Token.Basic

namespace RobotScript

/-! ### Reserved words are whole words -/

/-- Whether the word at the beginning of `cs` is this reserved word, no more and no less. -/
def Keyword.standsAt (word : Keyword) (cs : List Char) : Bool :=
  word.letters.isPrefixOf cs && !(cs.drop word.letters.length).head?.any isNameChar

/-- The reserved word that the word at the beginning of `cs` is. -/
def Keyword.at? (cs : List Char) : Option Keyword :=
  Keyword.all.find? fun word => word.standsAt cs

theorem Keyword.isNameChar_of_mem_letters (word : Keyword) {c : Char} (member : c ∈ word.letters) :
    isNameChar c = true := by
  have allNameChars : word.letters.all isNameChar = true := by
    cases word <;> decide +kernel
  exact List.all_eq_true.mp allNameChars c member

/-- A reserved word stands at the beginning of a text exactly if it is the longest run of name
characters there. -/
theorem Keyword.standsAt_iff (word : Keyword) (cs : List Char) :
    word.standsAt cs = true ↔ cs.takeWhile isNameChar = word.letters := by
  have nameChars : ∀ c ∈ word.letters, isNameChar c = true :=
    fun _ member => word.isNameChar_of_mem_letters member
  simp only [standsAt, Bool.and_eq_true, Bool.not_eq_true', List.isPrefixOf_iff_prefix]
  constructor
  · rintro ⟨⟨rest, rfl⟩, ended⟩
    rw [List.drop_left] at ended
    rw [List.takeWhile_append_of_pos nameChars]
    cases rest with
    | nil => simp
    | cons c later =>
        have stops : isNameChar c = false := by simpa using ended
        simp [stops]
  · intro whole
    have split := List.takeWhile_append_dropWhile (p := isNameChar) (l := cs)
    rw [whole] at split
    refine ⟨⟨_, split⟩, ?_⟩
    have after : cs.drop word.letters.length = cs.dropWhile isNameChar := by
      conv => lhs; rw [← split]
      exact List.drop_left
    rw [after]
    have stops := List.head?_dropWhile_not isNameChar cs
    cases shape : (cs.dropWhile isNameChar).head? with
    | none => rfl
    | some c => simpa [shape] using stops

/-- Of two reserved words at most one stands at a place. -/
theorem Keyword.at?_eq_some_iff {cs : List Char} {word : Keyword} :
    Keyword.at? cs = some word ↔ cs.takeWhile isNameChar = word.letters := by
  have lettersInjective : ∀ a b : Keyword, a.letters = b.letters → a = b := by
    intro a b same
    cases a <;> cases b <;> first | rfl | cases same
  rw [← word.standsAt_iff]
  constructor
  · intro found
    simpa using List.find?_some found
  · intro stands
    cases found : Keyword.at? cs with
    | none =>
        have := List.find?_eq_none.mp found word word.mem_all
        exact absurd stands this
    | some other =>
        have otherStands : other.standsAt cs = true := by simpa using List.find?_some found
        rw [Keyword.standsAt_iff] at stands otherStands
        rw [lettersInjective other word (otherStands.symm.trans stands)]

/-! ### One token -/

/-- The number that a run of decimal digits stands for. -/
def decimalValue (digits : List Char) : Nat :=
  digits.foldl (fun value digit => value * 10 + (digit.toNat - '0'.toNat)) 0

/-- A run of digits is a repeat count if it fits into 32 bits, and of no use otherwise. -/
def numeral (digits : List Char) : TokenKind :=
  let value := decimalValue digits
  if value < UInt32.size then .integer (UInt32.ofNat value) else .invalid (String.ofList digits)

/-- The token that begins with the character `first`, which is no blank, and the characters of
`rest` that belong to it. `named` tells that the token before it introduces a name. -/
def scan (named : Bool) (first : Char) (rest : List Char) : TokenKind × List Char :=
  if first = '{' then (.openBrace, [])
  else if first = '}' then (.closeBrace, [])
  else if first.isDigit then
    let tail := rest.takeWhile Char.isDigit
    (numeral (first :: tail), tail)
  else if isAlphabetic first then
    match Keyword.at? (first :: rest) with
    | some word => (.keyword word, word.letters.tail)
    | none =>
        if named then
          let tail := rest.takeWhile isNameChar
          (.identifier (String.ofList (first :: tail)), tail)
        else (.action first, [])
  else (.invalid (String.singleton first), [])

/-- What a token takes beyond its first character stands right after it. -/
theorem scan_tail_prefix (named : Bool) (first : Char) (rest : List Char) :
    (scan named first rest).2 <+: rest := by
  unfold scan
  split
  · exact List.nil_prefix
  split
  · exact List.nil_prefix
  split
  · exact List.takeWhile_prefix _
  split
  · split
    · rename_i word found
      have whole := Keyword.at?_eq_some_iff.mp found
      have nonempty : word.letters = first :: word.letters.tail := by
        by_cases letter : isNameChar first = true
        · simp [letter] at whole
          simp [← whole]
        · simp [letter] at whole
          cases word <;> cases whole
      have wordPrefix : word.letters <+: first :: rest := whole ▸ List.takeWhile_prefix _
      rw [nonempty] at wordPrefix
      exact (List.cons_prefix_cons.mp wordPrefix).2
    · split
      · exact List.takeWhile_prefix _
      · exact List.nil_prefix
  · exact List.nil_prefix

/-! ### The whole text -/

/-- The tokens of `cs`, read from `position` on, with the one for the end of the file at the end.
Blanks are skipped and leave `named` as it is. -/
def tokensFrom (named : Bool) (position : Position) : List Char → List Token
  | [] => [⟨.endOfFile, position.point⟩]
  | c :: cs =>
      if isBlank c then tokensFrom named (position.next c) cs
      else
        let lexeme := scan named c cs
        let stop := position.advance (c :: lexeme.2)
        ⟨lexeme.1, position.spanTo stop⟩ ::
          tokensFrom lexeme.1.introducesName stop (cs.drop lexeme.2.length)
  termination_by cs => cs.length

/-- The loop behind `tokensFrom`: it adds the tokens to those already read. -/
def tokensOnto (read : Array Token) (named : Bool) (position : Position) :
    List Char → Array Token
  | [] => read.push ⟨.endOfFile, position.point⟩
  | c :: cs =>
      if isBlank c then tokensOnto read named (position.next c) cs
      else
        let lexeme := scan named c cs
        let stop := position.advance (c :: lexeme.2)
        tokensOnto (read.push ⟨lexeme.1, position.spanTo stop⟩) lexeme.1.introducesName stop
          (cs.drop lexeme.2.length)
  termination_by cs => cs.length

/-- The tokens of a text; the last one, and only that, stands for the end of the file. -/
def lex (text : String) : List Token :=
  (tokensOnto #[] false Position.start text.toList).toList

theorem tokensOnto_toList (read : Array Token) (named : Bool) (position : Position)
    (cs : List Char) :
    (tokensOnto read named position cs).toList =
      read.toList ++ tokensFrom named position cs := by
  fun_induction tokensFrom named position cs generalizing read with
  | case1 named position => simp [tokensOnto]
  | case2 named position c cs blank inductionHypothesis =>
      rw [tokensOnto, if_pos blank]
      exact inductionHypothesis read
  | case3 named position c cs notBlank lexeme stop inductionHypothesis =>
      rw [tokensOnto, if_neg notBlank]
      refine (inductionHypothesis _).trans ?_
      rw [Array.toList_push, List.append_assoc, List.singleton_append]

/-- The loop reads what the recursion says. -/
theorem lex_eq_tokensFrom (text : String) :
    lex text = tokensFrom false Position.start text.toList := by
  simp [lex, tokensOnto_toList]

end RobotScript
