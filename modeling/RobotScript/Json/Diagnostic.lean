/-
Module: RobotScript.Json.Diagnostic
Purpose: The JSON forms of spans, complaints and reports. A complaint carries the fields of its
  span among its own.
Main exports: Span.fields, Span.ofFields?, and the `JsonForm` instances of Span, ErrorCode,
  Diagnostic and Report
-/
import RobotScript.Diagnostic.Basic
import RobotScript.Json.Form

namespace RobotScript

/-- The fields of a span. -/
def Span.fields (span : Span) : List (String × Json) :=
  [ ("line", encode span.startLine),
    ("column", encode span.startCol),
    ("end_line", encode span.endLine),
    ("end_column", encode span.endCol),
    ("offset", encode span.offset) ]

/-- The span whose fields stand in an object. -/
def Span.ofFields? (json : Json) : Option Span := do
  let startLine ← json.required? "line"
  let startCol ← json.required? "column"
  let endLine ← json.required? "end_line"
  let endCol ← json.required? "end_column"
  let offset ← json.required? "offset"
  return { startLine, startCol, endLine, endCol, offset }

instance : JsonForm Span where
  encode span := .obj span.fields
  decode := Span.ofFields?

instance : JsonForm ErrorCode where
  encode code := encode code.number
  decode json := (decode json).map ErrorCode.mk

/-- The suggestion is left out if there is none. -/
instance : JsonForm Diagnostic where
  encode diagnostic :=
    .obj <|
      [ ("file", encode diagnostic.file),
        ("code", encode diagnostic.code),
        ("message", encode diagnostic.message) ] ++
      diagnostic.span.fields ++
      [("source_line", encode diagnostic.sourceLine)] ++
      (diagnostic.suggestion?.map fun text => ("suggestion", encode text)).toList
  decode json := do
    let file ← json.required? "file"
    let code ← json.required? "code"
    let message ← json.required? "message"
    let span ← Span.ofFields? json
    let sourceLine ← json.required? "source_line"
    let suggestion? ← json.optional? "suggestion"
    return { file, code, message, span, sourceLine, suggestion? }

instance : JsonForm Report where
  encode report :=
    .obj [("errors", encode report.stored), ("total_errors", encode report.total)]
  decode json := do
    let stored ← json.required? "errors"
    let total ← json.required? "total_errors"
    return { stored, total }

end RobotScript
