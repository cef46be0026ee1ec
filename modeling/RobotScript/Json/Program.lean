/-
Module: RobotScript.Json.Program
Purpose: The JSON forms of programs and their parts. A statement is an object whose one key tells
  its kind. Block numbers are read as they are, whether the program has such a block or not.
Main exports: the `JsonForm` instances of BlockId, Ident, Stmt, Block and Program
-/
import RobotScript.Json.Diagnostic
import RobotScript.Program.Basic

namespace RobotScript

instance : JsonForm BlockId where
  encode id := encode id.number
  decode json := (decode json).map BlockId.mk

instance : JsonForm Ident where
  encode ident := .obj [("name", encode ident.name), ("span", encode ident.span)]
  decode json := do
    let name ← json.required? "name"
    let span ← json.required? "span"
    return { name, span }

namespace Stmt

/-- The content of an action: a letter and its place. -/
def actionForm (letter : Char) (span : Span) : Json :=
  .obj [("letter", encode letter), ("span", encode span)]

/-- Reads the content of an action. -/
def actionOfForm? (json : Json) : Option (Char × Span) := do
  let letter ← json.required? "letter"
  let span ← json.required? "span"
  return (letter, span)

/-- Reads the content of a repetition. -/
def repeatedOfForm? (json : Json) : Option Stmt := do
  let count ← json.required? "count"
  let body ← json.required? "body"
  let span ← json.required? "span"
  return repeated count body span

/-- Reads the content of a conditional. -/
def conditionalOfForm? (json : Json) : Option Stmt := do
  let condition ← json.required? "condition"
  let thenBlock ← json.required? "then_block"
  let elseBlock? ← json.optional? "else_block"
  let span ← json.required? "span"
  return conditional condition thenBlock elseBlock? span

/-- Reads the content of a loop. -/
def loopOfForm? (json : Json) : Option Stmt := do
  let condition ← json.required? "condition"
  let body ← json.required? "body"
  let span ← json.required? "span"
  return loop condition body span

end Stmt

instance : JsonForm Stmt where
  encode
    | .action letter span => .obj [("Action", Stmt.actionForm letter span)]
    | .block body => .obj [("Block", encode body)]
    | .repeated count body span =>
        .obj [("Repeat",
          .obj [("count", encode count), ("body", encode body), ("span", encode span)])]
    | .conditional condition thenBlock elseBlock? span =>
        .obj [("Conditional",
          .obj [("condition", encode condition), ("then_block", encode thenBlock),
            ("else_block", .ofOption elseBlock?), ("span", encode span)])]
    | .loop condition body span =>
        .obj [("Loop",
          .obj [("condition", encode condition), ("body", encode body), ("span", encode span)])]
  decode json :=
    match json.variant? with
    | some ("Action", content) =>
        (Stmt.actionOfForm? content).map fun (letter, span) => .action letter span
    | some ("Block", content) => (decode content).map .block
    | some ("Repeat", content) => Stmt.repeatedOfForm? content
    | some ("Conditional", content) => Stmt.conditionalOfForm? content
    | some ("Loop", content) => Stmt.loopOfForm? content
    | _ => none

instance : JsonForm Block where
  encode block := .obj [("stmts", encode block.stmts), ("span", encode block.span)]
  decode json := do
    let stmts ← json.required? "stmts"
    let span ← json.required? "span"
    return { stmts, span }

instance : JsonForm Program where
  encode program := .obj [("blocks", encode program.blocks), ("root", encode program.root)]
  decode json := do
    let blocks ← json.required? "blocks"
    let root ← json.required? "root"
    return { blocks, root }

end RobotScript
