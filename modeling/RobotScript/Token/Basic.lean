/-
Module: RobotScript.Token.Basic
Purpose: The words of the language: reserved words, the kinds of token, and tokens with their place.
Main exports: Keyword, Keyword.ofText?, TokenKind, TokenKind.display, TokenKind.startsStatement,
  Token
-/
import RobotScript.Span

namespace RobotScript

/-- The reserved words: "if", "else" and "while" of the language. -/
inductive Keyword where
  | se
  | senao
  | enquanto
  deriving Repr, Inhabited, DecidableEq

namespace Keyword

/-- The spelling of a reserved word. -/
def text : Keyword → String
  | se => "se"
  | senao => "senao"
  | enquanto => "enquanto"

/-- The spelling, letter by letter. -/
def letters : Keyword → List Char
  | se => ['s', 'e']
  | senao => ['s', 'e', 'n', 'a', 'o']
  | enquanto => ['e', 'n', 'q', 'u', 'a', 'n', 't', 'o']

/-- All reserved words. -/
def all : List Keyword :=
  [se, senao, enquanto]

/-- The reserved word with this spelling; case matters. -/
def ofText? (spelling : String) : Option Keyword :=
  all.find? fun word => word.text = spelling

/-- Whether the word is followed by the name of a condition. -/
def introducesName : Keyword → Bool
  | se => true
  | senao => false
  | enquanto => true

theorem mem_all (word : Keyword) : word ∈ all := by
  cases word <;> simp [all]

theorem text_eq_ofList_letters (word : Keyword) : word.text = String.ofList word.letters := by
  cases word <;> rfl

/-- Look-up by spelling finds exactly the word spelt so. -/
theorem ofText?_eq_some_iff {spelling : String} {word : Keyword} :
    ofText? spelling = some word ↔ word.text = spelling := by
  constructor
  · intro found
    simpa using List.find?_some found
  · rintro rfl
    cases word <;> rfl

end Keyword

/-- What a token is. -/
inductive TokenKind where
  /-- One letter standing for one action of the robot. -/
  | action (letter : Char)
  /-- A repeat count. -/
  | integer (value : UInt32)
  /-- The name of a condition, right after a word that introduces one. -/
  | identifier (name : String)
  | keyword (word : Keyword)
  | openBrace
  | closeBrace
  /-- A character the grammar has no use for, or the digits of a count that is too large. -/
  | invalid (text : String)
  | endOfFile
  deriving Repr, Inhabited, DecidableEq

namespace TokenKind

/-- How a token is quoted in a message. -/
def display : TokenKind → String
  | action letter => String.singleton letter
  | integer value => toString value.toNat
  | identifier name => name
  | keyword word => word.text
  | openBrace => "\x7b"
  | closeBrace => "\x7d"
  | invalid text => text
  | endOfFile => "end of file"

/-- Whether the token is a reserved word. -/
def isKeyword : TokenKind → Bool
  | keyword _ => true
  | _ => false

/-- Whether a statement can begin with this token. -/
def startsStatement : TokenKind → Bool
  | action _ => true
  | integer _ => true
  | keyword .se => true
  | keyword .enquanto => true
  | openBrace => true
  | _ => false

/-- Whether the word after this token is read as a name. -/
def introducesName : TokenKind → Bool
  | keyword word => word.introducesName
  | _ => false

end TokenKind

/-- A token and the place it was read from. -/
structure Token where
  kind : TokenKind
  span : Span
  deriving Repr, Inhabited, DecidableEq

end RobotScript
