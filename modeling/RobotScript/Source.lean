/-
Module: RobotScript.Source
Purpose: A named script text and its lines, as complaints quote them. Lines are found by the byte
  offsets at which they begin: a line is the slice between its own offset and that of the next.
Main exports: byteSize, lineStartsFrom, sliceBytes?, SourceFile, SourceFile.line?,
  SourceFile.lineCount
-/

namespace RobotScript

/-! ### Byte offsets -/

/-- How many bytes the characters of a text take up. -/
def byteSize : List Char → Nat
  | [] => 0
  | c :: rest => c.utf8Size + byteSize rest

/-- The byte offsets of the line feeds of a text that itself begins at `offset`. -/
def lineFeedOffsets (offset : Nat) : List Char → List Nat
  | [] => []
  | c :: rest =>
      if c = '\n' then offset :: lineFeedOffsets (offset + c.utf8Size) rest
      else lineFeedOffsets (offset + c.utf8Size) rest

/-- The byte offsets at which the lines of such a text begin: where the text does, and behind every
line feed. -/
def lineStartsFrom (offset : Nat) (text : List Char) : List Nat :=
  offset :: (lineFeedOffsets offset text).map (· + 1)

/-- The index of the character that begins at a byte offset, counted on from `index`. There is none
if the offset lies within a character or beyond the end of the text. -/
def charIndex? (index offset : Nat) : List Char → Option Nat
  | [] => if offset = 0 then some index else none
  | c :: rest =>
      if offset = 0 then some index
      else if offset < c.utf8Size then none
      else charIndex? (index + 1) (offset - c.utf8Size) rest

/-- The part of a text between two byte offsets, if both lie between characters, in this order. -/
def sliceBytes? (start stop : Nat) (text : List Char) : Option (List Char) :=
  if stop < start then none
  else do
    let first ← charIndex? 0 start text
    let last ← charIndex? 0 stop text
    return text.extract first last

/-! ### Lines -/

/-- A line without the carriage returns at its end. -/
def dropTrailingReturns (line : List Char) : List Char :=
  (line.reverse.dropWhile (· == '\r')).reverse

/-- A script together with the name that complaints give it. -/
structure SourceFile where
  name : String
  text : String
  deriving Repr, Inhabited, DecidableEq

namespace SourceFile

/-- The byte offsets at which the lines of the text begin. -/
def lineStarts (source : SourceFile) : List Nat :=
  lineStartsFrom 0 source.text.toList

/-- How many lines there are: one more than there are line feeds. -/
def lineCount (source : SourceFile) : Nat :=
  source.lineStarts.length

/-- A line by its number, counted from one, without line feed and trailing carriage returns. It ends
one byte before the next line begins, or with the text. -/
def line? (source : SourceFile) (number : UInt32) : Option String :=
  if number = 0 then none
  else do
    let index := number.toNat - 1
    let start ← source.lineStarts[index]?
    let stop := (source.lineStarts[index + 1]?.map (· - 1)).getD source.text.utf8ByteSize
    let line ← sliceBytes? start stop source.text.toList
    return String.ofList (dropTrailingReturns line)

end SourceFile

/-! ### Offsets of what stands in a text -/

@[simp] theorem byteSize_nil : byteSize [] = 0 := rfl

@[simp] theorem byteSize_cons (c : Char) (text : List Char) :
    byteSize (c :: text) = c.utf8Size + byteSize text := rfl

@[simp] theorem byteSize_append (text more : List Char) :
    byteSize (text ++ more) = byteSize text + byteSize more := by
  induction text with
  | nil => simp
  | cons c text inductionHypothesis =>
      rw [List.cons_append, byteSize_cons, inductionHypothesis, byteSize_cons, Nat.add_assoc]

theorem byteSize_toList (text : String) : byteSize text.toList = text.utf8ByteSize := by
  suffices sizes : ∀ chars, byteSize chars = (String.ofList chars).utf8ByteSize by
    rw [sizes, String.ofList_toList]
  intro chars
  induction chars with
  | nil => rfl
  | cons c chars inductionHypothesis =>
      rw [← List.singleton_append, String.ofList_append, String.utf8ByteSize_append,
        ← inductionHypothesis, ← String.singleton_eq_ofList, String.utf8ByteSize_singleton]
      simp

/-- The character behind the first bytes of a text is the one behind the characters there. -/
theorem charIndex?_append (index : Nat) (front back : List Char) :
    charIndex? index (byteSize front) (front ++ back) = some (index + front.length) := by
  induction front generalizing index with
  | nil => cases back <;> simp [charIndex?]
  | cons c front inductionHypothesis =>
      have positive := c.utf8Size_pos
      have notZero : byteSize (c :: front) ≠ 0 := by
        rw [byteSize_cons]
        omega
      have reaches : ¬ byteSize (c :: front) < c.utf8Size := by
        rw [byteSize_cons]
        omega
      rw [List.cons_append, charIndex?, if_neg notZero, if_neg reaches, byteSize_cons,
        Nat.add_sub_cancel_left, inductionHypothesis, List.length_cons, Nat.add_assoc,
        Nat.add_comm 1]

/-- What stands between two parts of a text is the slice between their offsets. -/
theorem sliceBytes?_append (before middle after : List Char) :
    sliceBytes? (byteSize before) (byteSize (before ++ middle)) (before ++ middle ++ after) =
      some middle := by
  have first : charIndex? 0 (byteSize before) (before ++ middle ++ after) =
      some before.length := by
    rw [List.append_assoc, charIndex?_append, Nat.zero_add]
  have last : charIndex? 0 (byteSize (before ++ middle)) (before ++ middle ++ after) =
      some (before ++ middle).length := by
    rw [charIndex?_append, Nat.zero_add]
  have inOrder : ¬ byteSize (before ++ middle) < byteSize before := by
    rw [byteSize_append]
    omega
  have between : (before ++ middle ++ after).extract before.length (before ++ middle).length =
      middle := by
    simp
  rw [sliceBytes?, if_neg inOrder, first, last]
  exact congrArg some between

/-- A stretch without line feeds only moves what follows it. -/
theorem lineFeedOffsets_append {line : List Char} (noLineFeed : '\n' ∉ line) (offset : Nat)
    (rest : List Char) :
    lineFeedOffsets offset (line ++ rest) = lineFeedOffsets (offset + byteSize line) rest := by
  induction line generalizing offset with
  | nil => rfl
  | cons c line inductionHypothesis =>
      rw [List.mem_cons, not_or] at noLineFeed
      rw [List.cons_append, lineFeedOffsets, if_neg (Ne.symm noLineFeed.1),
        inductionHypothesis noLineFeed.2, byteSize_cons, Nat.add_assoc]

theorem lineStartsFrom_line {line : List Char} (noLineFeed : '\n' ∉ line) (offset : Nat) :
    lineStartsFrom offset line = [offset] := by
  have none := lineFeedOffsets_append noLineFeed offset []
  rw [List.append_nil] at none
  rw [lineStartsFrom, none]
  rfl

/-- The next line begins one byte behind the end of this one. -/
theorem lineStartsFrom_line_append {line : List Char} (noLineFeed : '\n' ∉ line) (offset : Nat)
    (rest : List Char) :
    lineStartsFrom offset (line ++ '\n' :: rest) =
      offset :: lineStartsFrom (offset + byteSize line + 1) rest := by
  rw [lineStartsFrom, lineFeedOffsets_append noLineFeed, lineFeedOffsets, if_pos rfl]
  rfl

end RobotScript
