/-
Module: RobotScript.Diagnostic.Problem
Purpose: What can be wrong with a script, as causes; the code, wording and advice of each; and the
  complaint that a problem becomes for a given source.
Main exports: Construct, Cause, Cause.code, Cause.message, Cause.suggestion?, Problem,
  Problem.diagnose, Problem.report, Problem.report_eq
-/
import RobotScript.Diagnostic.Basic
import RobotScript.Source
import RobotScript.Token.Basic

namespace RobotScript

/-- What has to be followed by a block. -/
inductive Construct where
  | repeatCount (count : UInt32)
  | conditional (condition : String)
  | loop (condition : String)
  | alternative
  deriving Repr, Inhabited, DecidableEq

/-- How a construct is named in a message. -/
def Construct.display : Construct → String
  | repeatCount count => s!"repeat count {count.toNat}"
  | conditional condition => s!"'se {condition}'"
  | loop condition => s!"'enquanto {condition}'"
  | alternative => "'senao'"

/-- Why a script is refused. -/
inductive Cause where
  /-- A token that begins no statement. -/
  | unexpectedToken (found : TokenKind)
  /-- An opening brace that is never closed. -/
  | unclosedBrace
  /-- A closing brace with no block open. -/
  | unmatchedBrace
  /-- No name after a word that introduces one. -/
  | missingCondition (word : Keyword) (found : TokenKind)
  /-- No block where a construct needs one. -/
  | missingBlock (construct : Construct) (found : TokenKind)
  /-- A `senao` anywhere but right after the block of a `se`. -/
  | strayElse
  /-- A character, or a count, the language has no use for. -/
  | invalidToken (text : String)
  deriving Repr, Inhabited, DecidableEq

namespace Cause

/-- The code of each cause. -/
def code : Cause → ErrorCode
  | unexpectedToken _ => ⟨100⟩
  | unclosedBrace => ⟨101⟩
  | unmatchedBrace => ⟨102⟩
  | missingCondition _ _ => ⟨103⟩
  | missingBlock _ _ => ⟨104⟩
  | strayElse => ⟨105⟩
  | invalidToken _ => ⟨106⟩

/-- The wording of each cause. -/
def message : Cause → String
  | unexpectedToken found => s!"expected a statement, found '{found.display}'"
  | unclosedBrace => "unclosed '\x7b'"
  | unmatchedBrace => "unmatched '\x7d'"
  | missingCondition word found =>
      s!"expected a condition name after '{word.text}', found '{found.display}'"
  | missingBlock construct found =>
      s!"expected '\x7b' after {construct.display}, found '{found.display}'"
  | strayElse => "'senao' must directly follow the block of a 'se'"
  | invalidToken text =>
      if text.toList.all Char.isDigit then s!"repeat count '{text}' is too large"
      else s!"unexpected character '{text}'"

/-- What to do about it, where there is something to advise. -/
def suggestion? : Cause → Option String
  | unexpectedToken _ => none
  | unclosedBrace => some "add a matching '\x7d'"
  | unmatchedBrace => some "remove it or add a matching '\x7b' before it"
  | missingCondition word _ => some s!"write '{word.text} sensor \x7b ... \x7d'"
  | missingBlock construct _ => some s!"wrap the body of {construct.display} in '\x7b ... \x7d'"
  | strayElse => some "write 'se sensor \x7b ... \x7d senao \x7b ... \x7d'"
  | invalidToken _ => none

end Cause

/-- A cause and the place it is blamed on. -/
structure Problem where
  cause : Cause
  span : Span
  deriving Repr, Inhabited, DecidableEq

namespace Problem

/-- The complaint about a source that has this problem. It quotes the line the problem starts in,
or nothing if the source has no such line. -/
def diagnose (source : SourceFile) (problem : Problem) : Diagnostic :=
  { file := source.name
    code := problem.cause.code
    message := problem.cause.message
    span := problem.span
    sourceLine := (source.line? problem.span.startLine).getD ""
    suggestion? := problem.cause.suggestion? }

/-- The report on all problems of a source: they become complaints that are pushed one by one, in
the order they were found. -/
def report (source : SourceFile) (problems : List Problem) : Report :=
  problems.foldl (fun report problem => report.push (problem.diagnose source)) Report.empty

theorem report_eq (source : SourceFile) (problems : List Problem) :
    report source problems =
      ⟨(problems.take Report.capacity).map (diagnose source), problems.length⟩ := by
  have pushed := Report.ofList_eq_foldl_push (problems.map (diagnose source))
  rw [List.foldl_map] at pushed
  rw [report, ← pushed, Report.ofList, List.map_take, List.length_map]

end Problem

end RobotScript
