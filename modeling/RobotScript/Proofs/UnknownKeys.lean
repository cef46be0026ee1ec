/-
Module: RobotScript.Proofs.UnknownKeys
Purpose: Stored values survive their storage. Every value whose numbers fit is read back from its
  JSON form, also if keys that the reader does not know were added to any object on the way. Which
  keys are known where is said by the shape of a form; adding one key is one step, and since the
  reader does not see one step it does not see any number of them.
Main exports: Json.Shape, Json.Inserts, Json.Padded, JsonForm.Tolerates, JsonForm.Kept,
  stored_values_are_kept
-/
import Mathlib.Logic.Relation
import RobotScript.Proofs.JsonRoundTrip

namespace RobotScript

namespace Json

/-! ### Adding keys -/

/-- What a form is made of, as far as this tells which keys are known. -/
inductive Shape where
  /-- No known keys: a scalar, or a map, whose keys are all data. -/
  | plain
  | list (items : Shape)
  /-- An object with one key, which tells what kind of content stands under it. -/
  | variants (cases : List (String × Shape))
  /-- An object with these fields. Every other key is unknown to it. -/
  | record (fields : List (String × Shape))

/-- An unknown key, with anything under it, is added to one object of a form. -/
inductive Inserts : Shape → Json → Json → Prop where
  | here {fields : List (String × Shape)} {key : String} (unknown : fields.lookup key = none)
      (content : Json) (before after : List (String × Json)) :
      Inserts (.record fields) (.obj (before ++ after)) (.obj (before ++ (key, content) :: after))
  | field {fields : List (String × Shape)} {key : String} {shape : Shape}
      (known : fields.lookup key = some shape) {content larger : Json}
      (inside : Inserts shape content larger) (before after : List (String × Json)) :
      Inserts (.record fields) (.obj (before ++ (key, content) :: after))
        (.obj (before ++ (key, larger) :: after))
  | item {shape : Shape} {content larger : Json} (inside : Inserts shape content larger)
      (before after : List Json) :
      Inserts (.list shape) (.arr (before ++ content :: after)) (.arr (before ++ larger :: after))
  | variant {cases : List (String × Shape)} {key : String} {shape : Shape}
      (known : (key, shape) ∈ cases) {content larger : Json}
      (inside : Inserts shape content larger) :
      Inserts (.variants cases) (.obj [(key, content)]) (.obj [(key, larger)])

/-- Unknown keys were added, as many and wherever one likes. -/
def Padded (shape : Shape) : Json → Json → Prop :=
  Relation.ReflTransGen (Inserts shape)

/-! ### What is found in an object -/

theorem field?_append (key : String) (before after : List (String × Json)) :
    (obj (before ++ after)).field? key = ((obj before).field? key).or ((obj after).field? key) := by
  simp only [field?, List.find?_append, Option.map_or]

namespace Inserts

variable {fields : List (String × Shape)} {json larger : Json}

/-- Under a known key stands what stood there before, or that with an unknown key inside. -/
theorem field?_cases (inserts : Inserts (.record fields) json larger) (key : String)
    {shape : Shape} (known : fields.lookup key = some shape) :
    larger.field? key = json.field? key ∨
      ∃ content inner, json.field? key = some content ∧ larger.field? key = some inner ∧
        Inserts shape content inner := by
  cases inserts with
  | @here _ other unknown content before after =>
      have different : other ≠ key := by
        rintro rfl
        cases unknown.symm.trans known
      left
      rw [field?_append, field?_append, JsonForm.field?_cons, if_neg different]
  | @field _ other otherShape otherKnown content inner inside before after =>
      rw [field?_append, field?_append, JsonForm.field?_cons, JsonForm.field?_cons]
      by_cases same : other = key
      · subst same
        obtain rfl : otherShape = shape := Option.some.inj (otherKnown.symm.trans known)
        rw [if_pos rfl, if_pos rfl]
        -- The key may stand in front of the changed one as well; then that one counts.
        cases (obj before).field? other with
        | none => exact Or.inr ⟨content, inner, rfl, rfl, inside⟩
        | some first => exact Or.inl rfl
      · rw [if_neg same, if_neg same]
        exact Or.inl rfl

end Inserts

end Json

/-! ### Readers that do not see unknown keys -/

namespace JsonForm

open Json (Shape Inserts Padded)

/-- Reading does not see that an unknown key was added. -/
def Tolerates (α : Type) [JsonForm α] (shape : Shape) : Prop :=
  ∀ json larger, Inserts shape json larger → (decode larger : Option α) = decode json

/-- A value is read back from its form, and from its form with unknown keys in it. -/
def Kept {α : Type} [JsonForm α] (shape : Shape) (value : α) : Prop :=
  RoundTrips value ∧ ∀ json, Padded shape (encode value) json → decode json = some value

variable {α : Type} [JsonForm α] {shape : Shape}

theorem tolerates_plain : Tolerates α .plain := nofun

/-- What holds of one added key holds of any number of them. -/
theorem Tolerates.padded (tolerates : Tolerates α shape) {json larger : Json}
    (padded : Padded shape json larger) : (decode larger : Option α) = decode json := by
  induction padded with
  | refl => rfl
  | tail _ inserts inductionHypothesis => exact (tolerates _ _ inserts).trans inductionHypothesis

theorem Tolerates.kept (tolerates : Tolerates α shape) {value : α} (trips : RoundTrips value) :
    Kept shape value :=
  ⟨trips, fun _ padded => (tolerates.padded padded).trans trips⟩

theorem Tolerates.list (tolerates : Tolerates α shape) : Tolerates (List α) (.list shape) := by
  intro json larger inserts
  cases inserts with
  | @item _ content inner inside before after =>
      have same : (decode inner : Option α) = decode content := tolerates _ _ inside
      change (before ++ inner :: after).mapM decode = (before ++ content :: after).mapM decode
      simp only [List.mapM_append, List.mapM_cons, same]

theorem Tolerates.array (tolerates : Tolerates α shape) : Tolerates (Array α) (.list shape) := by
  intro json larger inserts
  exact congrArg (Option.map List.toArray) (tolerates.list _ _ inserts)

section Records

variable {fields : List (String × Shape)} {json larger : Json}

theorem Tolerates.required? (tolerates : Tolerates α shape)
    (inserts : Inserts (.record fields) json larger) (key : String)
    (known : fields.lookup key = some shape) :
    (larger.required? key : Option α) = json.required? key := by
  simp only [Json.required?]
  rcases inserts.field?_cases key known with same | ⟨content, inner, before, after, inside⟩
  · rw [same]
  · rw [before, after]
    exact tolerates _ _ inside

theorem required?_plain (inserts : Inserts (.record fields) json larger) (key : String)
    (known : fields.lookup key = some .plain) :
    (larger.required? key : Option α) = json.required? key :=
  tolerates_plain.required? inserts key known

theorem optional?_plain (inserts : Inserts (.record fields) json larger) (key : String)
    (known : fields.lookup key = some .plain) :
    (larger.optional? key : Option (Option α)) = json.optional? key := by
  rcases inserts.field?_cases key known with same | ⟨_, _, _, _, inside⟩
  · simp only [Json.optional?, same]
  · cases inside

end Records

end JsonForm

/-! ### The shapes of the forms -/

open Json (Shape)

/-- The keys of a span, which stand among others in a complaint. -/
def Span.keys : List (String × Shape) :=
  [("line", .plain), ("column", .plain), ("end_line", .plain), ("end_column", .plain),
    ("offset", .plain)]

def Span.shape : Shape := .record Span.keys

def Diagnostic.shape : Shape :=
  .record ([("file", .plain), ("code", .plain), ("message", .plain), ("source_line", .plain),
    ("suggestion", .plain)] ++ Span.keys)

def Report.shape : Shape :=
  .record [("errors", .list Diagnostic.shape), ("total_errors", .plain)]

def Ident.shape : Shape :=
  .record [("name", .plain), ("span", Span.shape)]

def Stmt.shape : Shape :=
  .variants
    [ ("Action", .record [("letter", .plain), ("span", Span.shape)]),
      ("Block", .plain),
      ("Repeat", .record [("count", .plain), ("body", .plain), ("span", Span.shape)]),
      ("Conditional", .record [("condition", Ident.shape), ("then_block", .plain),
        ("else_block", .plain), ("span", Span.shape)]),
      ("Loop", .record [("condition", Ident.shape), ("body", .plain), ("span", Span.shape)]) ]

def Block.shape : Shape :=
  .record [("stmts", .list Stmt.shape), ("span", Span.shape)]

def Program.shape : Shape :=
  .record [("blocks", .list Block.shape), ("root", .plain)]

/-- The names in a scope are data. -/
def Scope.shape : Shape :=
  .record [("bindings", .plain)]

/-- A frame of a bare block has no keys at all. -/
def FrameKind.shape : Shape :=
  .variants
    [("Repeat", .record [("remaining", .plain)]), ("Loop", .record [("condition", .plain)])]

def Frame.shape : Shape :=
  .record [("block", .plain), ("cursor", .plain), ("kind", FrameKind.shape)]

def Execution.shape : Shape :=
  .record [("frames", .list Frame.shape), ("finished", .plain), ("gas_used", .plain),
    ("gas_limit", .plain)]

namespace JsonForm

open Json (Inserts Padded)

/-- The fields of a span are found wherever its keys are known. -/
theorem spanOfFields?_plain {fields : List (String × Shape)} {json larger : Json}
    (inserts : Inserts (.record fields) json larger)
    (known : ∀ key ∈ Span.keys, fields.lookup key.1 = some .plain) :
    Span.ofFields? larger = Span.ofFields? json := by
  simp only [Span.keys, List.forall_mem_cons] at known
  obtain ⟨line, column, endLine, endColumn, offset, -⟩ := known
  simp only [Span.ofFields?, required?_plain inserts _ line, required?_plain inserts _ column,
    required?_plain inserts _ endLine, required?_plain inserts _ endColumn,
    required?_plain inserts _ offset]

theorem tolerates_span : Tolerates Span Span.shape := by
  intro json larger inserts
  exact spanOfFields?_plain inserts (by simp [Span.keys, List.lookup_cons])

theorem tolerates_diagnostic : Tolerates Diagnostic Diagnostic.shape := by
  intro json larger inserts
  have span : Span.ofFields? larger = Span.ofFields? json :=
    spanOfFields?_plain inserts (by simp [Span.keys, List.lookup_cons])
  simp only [decode, span, required?_plain inserts "file" rfl,
    required?_plain inserts "code" rfl, required?_plain inserts "message" rfl,
    required?_plain inserts "source_line" rfl,
    optional?_plain inserts "suggestion" rfl]

theorem tolerates_report : Tolerates Report Report.shape := by
  intro json larger inserts
  simp only [decode, tolerates_diagnostic.list.required? inserts "errors" rfl,
    required?_plain inserts "total_errors" rfl]

theorem tolerates_ident : Tolerates Ident Ident.shape := by
  intro json larger inserts
  simp only [decode, required?_plain inserts "name" rfl,
    tolerates_span.required? inserts "span" rfl]

theorem tolerates_stmt : Tolerates Stmt Stmt.shape := by
  intro json larger inserts
  cases inserts with
  | @variant _ key shape known content inner inside =>
      simp only [List.mem_cons, Prod.mk.injEq, List.not_mem_nil, or_false] at known
      rcases known with ⟨rfl, rfl⟩ | ⟨rfl, rfl⟩ | ⟨rfl, rfl⟩ | ⟨rfl, rfl⟩ | ⟨rfl, rfl⟩
      · change (Stmt.actionOfForm? inner).map _ = (Stmt.actionOfForm? content).map _
        simp only [Stmt.actionOfForm?, required?_plain inside "letter" rfl,
          tolerates_span.required? inside "span" rfl]
      · cases inside
      · change Stmt.repeatedOfForm? inner = Stmt.repeatedOfForm? content
        simp only [Stmt.repeatedOfForm?, required?_plain inside "count" rfl,
          required?_plain inside "body" rfl,
          tolerates_span.required? inside "span" rfl]
      · change Stmt.conditionalOfForm? inner = Stmt.conditionalOfForm? content
        simp only [Stmt.conditionalOfForm?,
          tolerates_ident.required? inside "condition" rfl,
          required?_plain inside "then_block" rfl,
          optional?_plain inside "else_block" rfl,
          tolerates_span.required? inside "span" rfl]
      · change Stmt.loopOfForm? inner = Stmt.loopOfForm? content
        simp only [Stmt.loopOfForm?, tolerates_ident.required? inside "condition" rfl,
          required?_plain inside "body" rfl,
          tolerates_span.required? inside "span" rfl]

theorem tolerates_block : Tolerates Block Block.shape := by
  intro json larger inserts
  simp only [decode, tolerates_stmt.array.required? inserts "stmts" rfl,
    tolerates_span.required? inserts "span" rfl]

theorem tolerates_program : Tolerates Program Program.shape := by
  intro json larger inserts
  simp only [decode, tolerates_block.array.required? inserts "blocks" rfl,
    required?_plain inserts "root" rfl]

theorem tolerates_scope : Tolerates Scope Scope.shape := by
  intro json larger inserts
  rcases inserts.field?_cases "bindings" rfl with same | ⟨_, _, _, _, inside⟩
  · simp only [decode, same]
  · cases inside

theorem tolerates_frameKind : Tolerates FrameKind FrameKind.shape := by
  intro json larger inserts
  cases inserts with
  | @variant _ key shape known content inner inside =>
      simp only [List.mem_cons, Prod.mk.injEq, List.not_mem_nil, or_false] at known
      rcases known with ⟨rfl, rfl⟩ | ⟨rfl, rfl⟩
      · exact congrArg (Option.map FrameKind.repeated)
          (required?_plain inside "remaining" rfl)
      · exact congrArg (Option.map FrameKind.loop)
          (required?_plain inside "condition" rfl)

theorem tolerates_frame : Tolerates Frame Frame.shape := by
  intro json larger inserts
  simp only [decode, required?_plain inserts "block" rfl,
    required?_plain inserts "cursor" rfl,
    tolerates_frameKind.required? inserts "kind" rfl]

theorem tolerates_execution : Tolerates Execution Execution.shape := by
  intro json larger inserts
  simp only [decode, tolerates_frame.list.required? inserts "frames" rfl,
    required?_plain inserts "finished" rfl,
    required?_plain inserts "gas_used" rfl,
    optional?_plain inserts "gas_limit" rfl]

end JsonForm

open JsonForm in
/-- Spans, complaints, reports, names of conditions, statements, blocks, programs, values, scopes,
kinds of frames, frames and executions are read back from their forms as they were, with or without
unknown keys in the objects of these forms. The only condition is that offsets, counts, cursors and
gas fit into 64 bits. -/
theorem stored_values_are_kept :
    (∀ span : Span, span.Storable → Kept Span.shape span) ∧
    (∀ diagnostic : Diagnostic, diagnostic.span.Storable → Kept Diagnostic.shape diagnostic) ∧
    (∀ report : Report, report.Storable → Kept Report.shape report) ∧
    (∀ ident : Ident, ident.span.Storable → Kept Ident.shape ident) ∧
    (∀ stmt : Stmt, stmt.Storable → Kept Stmt.shape stmt) ∧
    (∀ block : Block, block.Storable → Kept Block.shape block) ∧
    (∀ program : Program, program.Storable → Kept Program.shape program) ∧
    (∀ value : Value, Kept .plain value) ∧
    (∀ scope : Scope, Kept Scope.shape scope) ∧
    (∀ kind : FrameKind, Kept FrameKind.shape kind) ∧
    (∀ frame : Frame, frame.cursor < UInt64.size → Kept Frame.shape frame) ∧
    ∀ execution : Execution, execution.Storable → Kept Execution.shape execution :=
  ⟨fun _ storable => tolerates_span.kept (roundTrips_span storable),
    fun _ storable => tolerates_diagnostic.kept (roundTrips_diagnostic storable),
    fun _ storable => tolerates_report.kept (roundTrips_report storable),
    fun _ storable => tolerates_ident.kept (roundTrips_ident storable),
    fun _ storable => tolerates_stmt.kept (roundTrips_stmt storable),
    fun _ storable => tolerates_block.kept (roundTrips_block storable),
    fun _ storable => tolerates_program.kept (roundTrips_program storable),
    fun value => tolerates_plain.kept (roundTrips_value value),
    fun scope => tolerates_scope.kept (roundTrips_scope scope),
    fun kind => tolerates_frameKind.kept (roundTrips_frameKind kind),
    fun _ fits => tolerates_frame.kept (roundTrips_frame fits),
    fun _ storable => tolerates_execution.kept storable.roundTrips⟩

/-- A paused loop under the greatest limit there is, with a key added to the whole and another one
far inside, beside the condition of the loop. -/
theorem stored_values_are_kept_annotated :
    let paused : Execution :=
      ⟨[⟨⟨0⟩, 1, .loop "luz"⟩, ⟨⟨1⟩, 2, .block⟩], false, 5, some 18446744073709551615⟩
    let annotated : Json :=
      .obj [("saved", .bool true),
        ("frames", .arr
          [ .obj [("block", .int 1), ("cursor", .int 2), ("kind", .str "Block")],
            .obj [("block", .int 0), ("cursor", .int 1),
              ("kind", .obj [("Loop", .obj [("condition", .str "luz"), ("note", .null)])])] ]),
        ("finished", .bool false), ("gas_used", .int 5), ("gas_limit", .int 18446744073709551615)]
    paused.Storable ∧ Json.Padded Execution.shape (encode paused) annotated ∧
      decode annotated = some paused := by
  intro paused annotated
  have storable : paused.Storable := by
    refine ⟨?_, by decide, ?_⟩
    · simp [paused, UInt64.size]
    · simp [paused, UInt64.size]
  have noted : Json.Inserts FrameKind.shape (.obj [("Loop", .obj [("condition", .str "luz")])])
      (.obj [("Loop", .obj [("condition", .str "luz"), ("note", .null)])]) :=
    .variant (.tail _ (.head _)) (.here (by rfl) .null [("condition", .str "luz")] [])
  have saved : Json.Inserts Execution.shape
      (.obj [("frames", encode paused.frames.reverse), ("finished", .bool false),
        ("gas_used", .int 5), ("gas_limit", .int 18446744073709551615)])
      (.obj [("saved", .bool true), ("frames", encode paused.frames.reverse),
        ("finished", .bool false), ("gas_used", .int 5),
        ("gas_limit", .int 18446744073709551615)]) :=
    .here (by rfl) (.bool true) [] _
  have padded : Json.Padded Execution.shape (encode paused) annotated :=
    .tail (.single saved)
      (.field rfl
        (.item (.field rfl noted [("block", .int 0), ("cursor", .int 1)] []) [_] []) [_] _)
  obtain ⟨-, -, -, -, -, -, -, -, -, -, -, executions⟩ := stored_values_are_kept
  exact ⟨storable, padded, (executions paused storable).2 annotated padded⟩

end RobotScript
