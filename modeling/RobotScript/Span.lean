/-
Module: RobotScript.Span
Purpose: Places in a script: a running position while reading, and the span a token, a statement
  or a complaint covers.
Main exports: Span, Span.point, Span.merge, Position, Position.advance, Position.spanTo
-/

namespace RobotScript

/-- A stretch of source text. Lines and columns count from one, columns in characters; the end is
the last character covered. `offset` is the place of the first character in UTF-8 bytes. -/
structure Span where
  startLine : UInt32
  startCol : UInt32
  endLine : UInt32
  endCol : UInt32
  offset : Nat
  deriving Repr, Inhabited, DecidableEq

namespace Span

/-- The span of a single place. -/
def point (line col : UInt32) (offset : Nat) : Span :=
  ⟨line, col, line, col, offset⟩

/-- Where the span of an empty text lies. -/
def origin : Span :=
  point 1 1 0

/-- Whether `left` ends strictly after `right`: by line first, then by column. -/
def endsAfter (left right : Span) : Bool :=
  right.endLine < left.endLine || (left.endLine == right.endLine && right.endCol < left.endCol)

/-- The span that covers both: it starts with the one of smaller offset (the left one if they
agree) and ends with the one that ends later. -/
def merge (left right : Span) : Span :=
  let first := if right.offset < left.offset then right else left
  let second := if right.offset < left.offset then left else right
  let last := if second.endsAfter first then second else first
  ⟨first.startLine, first.startCol, last.endLine, last.endCol, first.offset⟩

/-- A span is shown by its start. -/
def display (span : Span) : String :=
  s!"{span.startLine.toNat}:{span.startCol.toNat}"

@[simp] theorem offset_merge (left right : Span) :
    (left.merge right).offset = min left.offset right.offset := by
  by_cases earlier : right.offset < left.offset <;> simp [merge, earlier] <;> omega

end Span

/-- Where reading has got to: line and column count from one, `offset` counts UTF-8 bytes. -/
structure Position where
  line : Nat
  col : Nat
  offset : Nat
  deriving Repr, Inhabited, DecidableEq

namespace Position

/-- Before the first character. -/
def start : Position :=
  ⟨1, 1, 0⟩

/-- The position after one character: a line feed begins the next line. -/
def next (position : Position) (c : Char) : Position :=
  if c = '\n' then ⟨position.line + 1, 1, position.offset + c.utf8Size⟩
  else ⟨position.line, position.col + 1, position.offset + c.utf8Size⟩

/-- The position after a run of characters. -/
def advance (position : Position) (cs : List Char) : Position :=
  cs.foldl next position

/-- The span of this one place. -/
def point (position : Position) : Span :=
  Span.point (UInt32.ofNat position.line) (UInt32.ofNat position.col) position.offset

/-- The span from here up to, and without, `stop`. -/
def spanTo (position stop : Position) : Span :=
  ⟨UInt32.ofNat position.line, UInt32.ofNat position.col,
    UInt32.ofNat stop.line, UInt32.ofNat (max (stop.col - 1) 1), position.offset⟩

@[simp] theorem advance_nil (position : Position) : position.advance [] = position := rfl

@[simp] theorem advance_cons (position : Position) (c : Char) (cs : List Char) :
    position.advance (c :: cs) = (position.next c).advance cs := rfl

theorem advance_append (position : Position) (cs ds : List Char) :
    position.advance (cs ++ ds) = (position.advance cs).advance ds := by
  simp [advance, List.foldl_append]

end Position

end RobotScript
