/-
Module: RobotScript.Diagnostic.Basic
Purpose: Complaints as they are shown: a coded message with its place and the line it quotes, and
  the report that keeps the first twenty of them and counts the rest.
Main exports: ErrorCode, Diagnostic, Report, Report.push, Report.ofList, Report.display
-/
import RobotScript.Span

namespace RobotScript

/-- The number of a kind of complaint. -/
structure ErrorCode where
  number : UInt16
  deriving Repr, Inhabited, DecidableEq

/-- A code is shown with the letter E in front. -/
def ErrorCode.display (code : ErrorCode) : String :=
  s!"E{code.number.toNat}"

/-- A complaint about a named source. -/
structure Diagnostic where
  file : String
  code : ErrorCode
  message : String
  span : Span
  /-- The source line that the span starts in. -/
  sourceLine : String
  suggestion? : Option String
  deriving Repr, Inhabited, DecidableEq

/-- Place, code and message on one line. -/
def Diagnostic.display (diagnostic : Diagnostic) : String :=
  s!"{diagnostic.span.display}: {diagnostic.code.display} {diagnostic.message}"

/-- Complaints in the order they were found. Only the first `Report.capacity` are stored; `total`
counts all of them. -/
structure Report where
  stored : List Diagnostic
  total : Nat
  deriving Repr, Inhabited, DecidableEq

namespace Report

/-- How many complaints are stored. -/
def capacity : Nat := 20

/-- No complaint. -/
def empty : Report := ⟨[], 0⟩

/-- Counts a complaint, and stores it while there is room. -/
@[inline] def push (report : Report) (diagnostic : Diagnostic) : Report :=
  { stored :=
      if report.stored.length < capacity then report.stored ++ [diagnostic] else report.stored
    total := report.total + 1 }

/-- Whether anything was found. -/
def hasErrors (report : Report) : Bool :=
  0 < report.total

/-- Whether the count has reached the number that can be stored. -/
def isFull (report : Report) : Bool :=
  capacity ≤ report.total

/-- One line per stored complaint, then how many more there are, if any. -/
def display (report : Report) : String :=
  let shown := "\n".intercalate (report.stored.map Diagnostic.display)
  if report.stored.length < report.total then
    shown ++ s!"\n... and {report.total - report.stored.length} more"
  else shown

/-- The first complaints of a list and the number of all of them. -/
def ofList (found : List Diagnostic) : Report :=
  { stored := found.take capacity, total := found.length }

theorem ofList_append_singleton (found : List Diagnostic) (diagnostic : Diagnostic) :
    ofList (found ++ [diagnostic]) = (ofList found).push diagnostic := by
  by_cases room : found.length < capacity
  · have fits : found.length + 1 ≤ capacity := room
    have full : (found ++ [diagnostic]).take capacity = found ++ [diagnostic] :=
      List.take_of_length_le (by simpa using fits)
    have before : found.take capacity = found := List.take_of_length_le (Nat.le_of_lt room)
    simp [ofList, push, full, before, room]
  · have full : (found.take capacity).length = capacity := by
      rw [List.length_take]; omega
    simp [ofList, push, List.take_append_of_le_length (Nat.le_of_not_lt room), full]

theorem ofList_append (found more : List Diagnostic) :
    ofList (found ++ more) = more.foldl push (ofList found) := by
  induction more generalizing found with
  | nil => simp
  | cons diagnostic rest inductionHypothesis =>
      rw [List.foldl_cons, ← ofList_append_singleton, ← inductionHypothesis]
      simp

/-- Pushing complaints one by one is taking the first twenty at once. -/
theorem ofList_eq_foldl_push (found : List Diagnostic) : ofList found = found.foldl push empty :=
  ofList_append [] found

end Report

end RobotScript
