/-
Module: RobotScript.Proofs.JsonRoundTrip
Purpose: Reading a value from its JSON form gives the value back. Numbers have to fit the type they
  are stored as: offsets, counts of complaints, cursors, the gas counter and its limit are stored in
  64 bits, and `Storable` says of each type which of its values fit.
Main exports: JsonForm.roundTrips_list, JsonForm.required?_of_field, JsonForm.optional?_of_field,
  Report.Storable, Program.Storable, Execution.Storable, and a round trip for each type
-/
import RobotScript.Json.Execution

namespace RobotScript

namespace JsonForm

/-! ### Basic types -/

theorem roundTrips_bool (value : Bool) : RoundTrips value := rfl

theorem roundTrips_string (text : String) : RoundTrips text := rfl

theorem natBelow?_ofNat {bound value : Nat} (fits : value < bound) :
    (Json.int value).natBelow? bound = some value := by
  have inRange : (0 : Int) ≤ value ∧ (value : Int) < bound :=
    ⟨Int.natCast_nonneg value, Int.ofNat_lt.mpr fits⟩
  rw [Json.natBelow?, if_pos inRange, Int.toNat_natCast]

theorem roundTrips_uInt16 (value : UInt16) : RoundTrips value := by
  have read := natBelow?_ofNat value.toNat_lt
  change ((Json.int value.toNat).natBelow? UInt16.size).map UInt16.ofNat = some value
  rw [read, Option.map_some, UInt16.ofNat_toNat]

theorem roundTrips_uInt32 (value : UInt32) : RoundTrips value := by
  have read := natBelow?_ofNat value.toNat_lt
  change ((Json.int value.toNat).natBelow? UInt32.size).map UInt32.ofNat = some value
  rw [read, Option.map_some, UInt32.ofNat_toNat]

theorem roundTrips_nat {value : Nat} (fits : value < UInt64.size) : RoundTrips value :=
  natBelow?_ofNat fits

theorem roundTrips_int64 (value : Int64) : RoundTrips value := by
  have inRange : Int64.minValue.toInt ≤ value.toInt ∧ value.toInt ≤ Int64.maxValue.toInt :=
    ⟨value.minValue_le_toInt, value.toInt_le⟩
  change ((Json.int value.toInt).intBetween? Int64.minValue.toInt Int64.maxValue.toInt).map
    Int64.ofInt = some value
  rw [Json.intBetween?, if_pos inRange, Option.map_some, Int64.ofInt_toInt]

theorem roundTrips_char (c : Char) : RoundTrips c := by
  simp only [RoundTrips, encode, decode, String.toList_singleton]

theorem roundTrips_list {α : Type} [JsonForm α] {values : List α}
    (each : ∀ value ∈ values, RoundTrips value) : RoundTrips values := by
  change (values.map encode).mapM decode = some values
  induction values with
  | nil => rfl
  | cons value values inductionHypothesis =>
      have first : decode (encode value) = some value := each value List.mem_cons_self
      have rest := inductionHypothesis fun other member => each other (List.mem_cons_of_mem _ member)
      simp [first, rest]

theorem roundTrips_array {α : Type} [JsonForm α] {values : Array α}
    (each : ∀ value ∈ values, RoundTrips value) : RoundTrips values := by
  have list : decode (encode values.toList) = some values.toList :=
    roundTrips_list fun value member => each value (Array.mem_toList_iff.mp member)
  change (decode (encode values.toList)).map List.toArray = some values
  rw [list, Option.map_some, Array.toArray_toList]

/-! ### Fields -/

theorem field?_cons (key name : String) (content : Json) (fields : List (String × Json)) :
    (Json.obj ((name, content) :: fields)).field? key =
      if name = key then some content else (Json.obj fields).field? key := by
  by_cases same : name = key <;> simp [Json.field?, same]

theorem required?_of_field {α : Type} [JsonForm α] {key : String} {json : Json} {value : α}
    (found : json.field? key = some (encode value)) (trips : RoundTrips value) :
    json.required? key = some value := by
  rw [Json.required?, found]
  exact trips

/-- A field that may be null is read back if null is not the form of a value. -/
theorem optional?_of_field {α : Type} [JsonForm α] {key : String} {json : Json}
    {value? : Option α} (found : json.field? key = some (Json.ofOption value?))
    (written : ∀ value, value? = some value → encode value ≠ Json.null ∧ RoundTrips value) :
    json.optional? key = some value? := by
  cases value? with
  | none => simp only [Json.optional?, found, Json.ofOption]
  | some value =>
      obtain ⟨notNull, trips⟩ := written value rfl
      have read : decode (encode value) = some value := trips
      simp only [Json.optional?, found, Json.ofOption, read, Option.map_some]

/-! ### Places and complaints -/

end JsonForm

/-- The offset of the span fits into 64 bits. -/
def Span.Storable (span : Span) : Prop :=
  span.offset < UInt64.size

/-- All numbers of the report fit into 64 bits. -/
structure Report.Storable (report : Report) : Prop where
  stored : ∀ diagnostic ∈ report.stored, diagnostic.span.Storable
  total : report.total < UInt64.size

namespace JsonForm

/-- The fields of a span may stand among others. -/
theorem spanOfFields?_of_fields {json : Json} {span : Span} (storable : span.Storable)
    (found : ∀ field ∈ span.fields, json.field? field.1 = some field.2) :
    Span.ofFields? json = some span := by
  have startLine : json.required? "line" = some span.startLine :=
    required?_of_field (found (_, _) (by simp [Span.fields])) (roundTrips_uInt32 span.startLine)
  have startCol : json.required? "column" = some span.startCol :=
    required?_of_field (found (_, _) (by simp [Span.fields])) (roundTrips_uInt32 span.startCol)
  have endLine : json.required? "end_line" = some span.endLine :=
    required?_of_field (found (_, _) (by simp [Span.fields])) (roundTrips_uInt32 span.endLine)
  have endCol : json.required? "end_column" = some span.endCol :=
    required?_of_field (found (_, _) (by simp [Span.fields])) (roundTrips_uInt32 span.endCol)
  have offset : json.required? "offset" = some span.offset :=
    required?_of_field (found (_, _) (by simp [Span.fields])) (roundTrips_nat storable)
  simp [Span.ofFields?, startLine, startCol, endLine, endCol, offset]

theorem roundTrips_span {span : Span} (storable : span.Storable) : RoundTrips span := by
  change Span.ofFields? (.obj span.fields) = some span
  exact spanOfFields?_of_fields storable (by simp [Span.fields, field?_cons])

theorem roundTrips_errorCode (code : ErrorCode) : RoundTrips code := by
  have number : decode (encode code.number) = some code.number := roundTrips_uInt16 code.number
  change (decode (encode code.number)).map ErrorCode.mk = some code
  rw [number]
  rfl

theorem roundTrips_diagnostic {diagnostic : Diagnostic} (storable : diagnostic.span.Storable) :
    RoundTrips diagnostic := by
  let form : Json := encode diagnostic
  have file : form.required? "file" = some diagnostic.file :=
    required?_of_field (by simp [form, encode, field?_cons]) (roundTrips_string diagnostic.file)
  have code : form.required? "code" = some diagnostic.code :=
    required?_of_field (by simp [form, encode, field?_cons]) (roundTrips_errorCode diagnostic.code)
  have message : form.required? "message" = some diagnostic.message :=
    required?_of_field (by simp [form, encode, field?_cons]) (roundTrips_string diagnostic.message)
  have span : Span.ofFields? form = some diagnostic.span :=
    spanOfFields?_of_fields storable (by simp [form, encode, Span.fields, field?_cons])
  have sourceLine : form.required? "source_line" = some diagnostic.sourceLine :=
    required?_of_field (by simp [form, encode, Span.fields, field?_cons])
      (roundTrips_string diagnostic.sourceLine)
  -- Without a suggestion there is no field, rather than a field that is null.
  have suggestion : form.optional? "suggestion" = some diagnostic.suggestion? := by
    cases shape : diagnostic.suggestion? with
    | none => simp [Json.optional?, form, encode, Span.fields, shape, Json.field?]
    | some text =>
        simp [Json.optional?, form, encode, Span.fields, field?_cons, shape, decode]
  change decode form = some diagnostic
  simp [decode, file, code, message, span, sourceLine, suggestion]

theorem roundTrips_report {report : Report} (storable : report.Storable) : RoundTrips report := by
  let form := Json.obj [("errors", encode report.stored), ("total_errors", encode report.total)]
  have each : ∀ diagnostic ∈ report.stored, RoundTrips diagnostic :=
    fun diagnostic member => roundTrips_diagnostic (storable.stored diagnostic member)
  have stored : form.required? "errors" = some report.stored :=
    required?_of_field (by simp [form, field?_cons]) (roundTrips_list each)
  have total : form.required? "total_errors" = some report.total :=
    required?_of_field (by simp [form, field?_cons]) (roundTrips_nat storable.total)
  change decode form = some report
  simp [decode, stored, total]

/-! ### Programs -/

end JsonForm

/-- The places of the statement can be stored. -/
def Stmt.Storable : Stmt → Prop
  | action _ span => span.Storable
  | block _ => True
  | repeated _ _ span => span.Storable
  | conditional condition _ _ span => condition.span.Storable ∧ span.Storable
  | loop condition _ span => condition.span.Storable ∧ span.Storable

/-- The places of the block and of its statements can be stored. -/
structure Block.Storable (block : Block) : Prop where
  stmts : ∀ stmt ∈ block.stmts, stmt.Storable
  span : block.span.Storable

/-- All places of the program can be stored. -/
def Program.Storable (program : Program) : Prop :=
  ∀ block ∈ program.blocks, block.Storable

namespace JsonForm

theorem roundTrips_blockId (id : BlockId) : RoundTrips id := by
  have number : decode (encode id.number) = some id.number := roundTrips_uInt32 id.number
  change (decode (encode id.number)).map BlockId.mk = some id
  rw [number]
  rfl

theorem roundTrips_ident {ident : Ident} (storable : ident.span.Storable) : RoundTrips ident := by
  let form := Json.obj [("name", encode ident.name), ("span", encode ident.span)]
  have name : form.required? "name" = some ident.name :=
    required?_of_field (by simp [form, field?_cons]) (roundTrips_string ident.name)
  have span : form.required? "span" = some ident.span :=
    required?_of_field (by simp [form, field?_cons]) (roundTrips_span storable)
  change decode form = some ident
  simp [decode, name, span]

theorem roundTrips_stmt {stmt : Stmt} (storable : stmt.Storable) : RoundTrips stmt := by
  cases stmt with
  | action letter span =>
      let form := Stmt.actionForm letter span
      have letterRead : form.required? "letter" = some letter :=
        required?_of_field (by simp [form, Stmt.actionForm, field?_cons]) (roundTrips_char letter)
      have spanRead : form.required? "span" = some span :=
        required?_of_field (by simp [form, Stmt.actionForm, field?_cons]) (roundTrips_span storable)
      change (Stmt.actionOfForm? form).map _ = some (Stmt.action letter span)
      simp [Stmt.actionOfForm?, letterRead, spanRead]
  | block body =>
      exact congrArg (Option.map Stmt.block) (roundTrips_blockId body)
  | repeated count body span =>
      let form := Json.obj [("count", encode count), ("body", encode body), ("span", encode span)]
      have countRead : form.required? "count" = some count :=
        required?_of_field (by simp [form, field?_cons]) (roundTrips_uInt32 count)
      have bodyRead : form.required? "body" = some body :=
        required?_of_field (by simp [form, field?_cons]) (roundTrips_blockId body)
      have spanRead : form.required? "span" = some span :=
        required?_of_field (by simp [form, field?_cons]) (roundTrips_span storable)
      change Stmt.repeatedOfForm? form = some (.repeated count body span)
      simp [Stmt.repeatedOfForm?, countRead, bodyRead, spanRead]
  | conditional condition thenBlock elseBlock? span =>
      let form := Json.obj [("condition", encode condition), ("then_block", encode thenBlock),
        ("else_block", .ofOption elseBlock?), ("span", encode span)]
      have conditionRead : form.required? "condition" = some condition :=
        required?_of_field (by simp [form, field?_cons]) (roundTrips_ident storable.1)
      have thenRead : form.required? "then_block" = some thenBlock :=
        required?_of_field (by simp [form, field?_cons]) (roundTrips_blockId thenBlock)
      have elseRead : form.optional? "else_block" = some elseBlock? :=
        optional?_of_field (by simp [form, field?_cons]) fun id _ => ⟨nofun, roundTrips_blockId id⟩
      have spanRead : form.required? "span" = some span :=
        required?_of_field (by simp [form, field?_cons]) (roundTrips_span storable.2)
      change Stmt.conditionalOfForm? form = some (.conditional condition thenBlock elseBlock? span)
      simp [Stmt.conditionalOfForm?, conditionRead, thenRead, elseRead, spanRead]
  | loop condition body span =>
      let form := Json.obj [("condition", encode condition), ("body", encode body),
        ("span", encode span)]
      have conditionRead : form.required? "condition" = some condition :=
        required?_of_field (by simp [form, field?_cons]) (roundTrips_ident storable.1)
      have bodyRead : form.required? "body" = some body :=
        required?_of_field (by simp [form, field?_cons]) (roundTrips_blockId body)
      have spanRead : form.required? "span" = some span :=
        required?_of_field (by simp [form, field?_cons]) (roundTrips_span storable.2)
      change Stmt.loopOfForm? form = some (.loop condition body span)
      simp [Stmt.loopOfForm?, conditionRead, bodyRead, spanRead]

theorem roundTrips_block {block : Block} (storable : block.Storable) : RoundTrips block := by
  let form := Json.obj [("stmts", encode block.stmts), ("span", encode block.span)]
  have each : ∀ stmt ∈ block.stmts, RoundTrips stmt :=
    fun stmt member => roundTrips_stmt (storable.stmts stmt member)
  have stmts : form.required? "stmts" = some block.stmts :=
    required?_of_field (by simp [form, field?_cons]) (roundTrips_array each)
  have span : form.required? "span" = some block.span :=
    required?_of_field (by simp [form, field?_cons]) (roundTrips_span storable.span)
  change decode form = some block
  simp [decode, stmts, span]

theorem roundTrips_program {program : Program} (storable : program.Storable) :
    RoundTrips program := by
  let form := Json.obj [("blocks", encode program.blocks), ("root", encode program.root)]
  have each : ∀ block ∈ program.blocks, RoundTrips block :=
    fun block member => roundTrips_block (storable block member)
  have blocks : form.required? "blocks" = some program.blocks :=
    required?_of_field (by simp [form, field?_cons]) (roundTrips_array each)
  have root : form.required? "root" = some program.root :=
    required?_of_field (by simp [form, field?_cons]) (roundTrips_blockId program.root)
  change decode form = some program
  simp [decode, blocks, root]

/-! ### Scopes -/

theorem roundTrips_value (value : Value) : RoundTrips value := by
  cases value with
  | bool holds => rfl
  | int number =>
      -- An integer is tried as a truth value first, and is none.
      have read : decode (encode number) = some number := roundTrips_int64 number
      exact congrArg (Option.map Value.int) read

theorem mapM_bindingOfField? (bindings : List Binding) :
    (bindings.map fun binding => (binding.1, encode binding.2)).mapM bindingOfField? =
      some bindings := by
  induction bindings with
  | nil => rfl
  | cons binding rest inductionHypothesis =>
      have read : decode (encode binding.2) = some binding.2 := roundTrips_value binding.2
      simp [bindingOfField?, read, inductionHypothesis]

end JsonForm

/-- Setting ordered bindings one by one sets just these. -/
theorem Scope.lookup?_foldl_set {bindings : List Binding} (ordered : OrderedBindings bindings)
    (scope : Scope) (name : String) :
    (bindings.foldl (fun scope binding => scope.set binding.1 binding.2) scope).lookup? name =
      (findBinding? name bindings).or (scope.lookup? name) := by
  induction bindings generalizing scope with
  | nil => rfl
  | cons binding rest inductionHypothesis =>
      obtain ⟨first, restOrdered⟩ := List.pairwise_cons.mp ordered
      rw [List.foldl_cons, inductionHypothesis restOrdered, Scope.lookup?_set, findBinding?]
      by_cases asked : name = binding.1
      · subst asked
        rw [findBinding?_eq_none first, if_pos rfl, if_pos rfl]
        rfl
      · rw [if_neg asked, if_neg asked]

/-- A scope is made again from its bindings. -/
theorem Scope.ofList_bindings (scope : Scope) : Scope.ofList scope.bindings = scope := by
  apply Scope.eq_of_lookup?_eq
  intro name
  rw [Scope.ofList, Scope.lookup?_foldl_set scope.ordered, Scope.lookup?_empty, Option.or_none]
  rfl

namespace JsonForm

theorem roundTrips_scope (scope : Scope) : RoundTrips scope := by
  change ((scope.bindings.map fun binding => (binding.1, encode binding.2)).mapM
    bindingOfField?).map Scope.ofList = some scope
  rw [mapM_bindingOfField?, Option.map_some, Scope.ofList_bindings]

/-! ### Frames -/

theorem roundTrips_frameKind (kind : FrameKind) : RoundTrips kind := by
  cases kind with
  | block => simp only [RoundTrips, encode, decode]
  | repeated remaining =>
      have found : (Json.obj [("remaining", encode remaining)]).field? "remaining" =
          some (encode remaining) := by
        rw [field?_cons, if_pos rfl]
      have content := required?_of_field found (roundTrips_uInt32 remaining)
      have reads (json : Json) : (decode (.obj [("Repeat", json)]) : Option FrameKind) =
          (json.required? "remaining").map .repeated := by
        simp only [decode, Json.variant?]
      exact (reads _).trans (congrArg (Option.map FrameKind.repeated) content)
  | loop condition =>
      have found : (Json.obj [("condition", encode condition)]).field? "condition" =
          some (encode condition) := by
        rw [field?_cons, if_pos rfl]
      have content := required?_of_field found (roundTrips_string condition)
      have reads (json : Json) : (decode (.obj [("Loop", json)]) : Option FrameKind) =
          (json.required? "condition").map .loop := by
        simp only [decode, Json.variant?]
      exact (reads _).trans (congrArg (Option.map FrameKind.loop) content)

theorem roundTrips_frame {frame : Frame} (fits : frame.cursor < UInt64.size) :
    RoundTrips frame := by
  let form := Json.obj [("block", encode frame.block), ("cursor", encode frame.cursor),
    ("kind", encode frame.kind)]
  have block : form.required? "block" = some frame.block :=
    required?_of_field (by simp [form, field?_cons]) (roundTrips_blockId frame.block)
  have cursor : form.required? "cursor" = some frame.cursor :=
    required?_of_field (by simp [form, field?_cons]) (roundTrips_nat fits)
  have kind : form.required? "kind" = some frame.kind :=
    required?_of_field (by simp [form, field?_cons]) (roundTrips_frameKind frame.kind)
  change decode form = some frame
  simp [decode, block, cursor, kind]

end JsonForm

/-! ### Executions -/

/-- All numbers of the execution fit into 64 bits. -/
structure Execution.Storable (execution : Execution) : Prop where
  cursors : ∀ frame ∈ execution.frames, frame.cursor < UInt64.size
  gasUsed : execution.gasUsed < UInt64.size
  gasLimit : ∀ limit, execution.gasLimit = some limit → limit < UInt64.size

open JsonForm in
/-- An execution that can be stored is read back as it was. -/
theorem Execution.Storable.roundTrips {execution : Execution} (storable : execution.Storable) :
    RoundTrips execution := by
  let form := Json.obj [("frames", encode execution.frames.reverse),
    ("finished", encode execution.finished), ("gas_used", encode execution.gasUsed),
    ("gas_limit", .ofOption execution.gasLimit)]
  have each : ∀ frame ∈ execution.frames.reverse, RoundTrips frame := by
    intro frame member
    exact roundTrips_frame (storable.cursors frame (List.mem_reverse.mp member))
  have frames : form.required? "frames" = some execution.frames.reverse :=
    required?_of_field (by simp [form, field?_cons]) (roundTrips_list each)
  have finished : form.required? "finished" = some execution.finished :=
    required?_of_field (by simp [form, field?_cons]) (roundTrips_bool execution.finished)
  have gasUsed : form.required? "gas_used" = some execution.gasUsed :=
    required?_of_field (by simp [form, field?_cons]) (roundTrips_nat storable.gasUsed)
  have gasLimit : form.optional? "gas_limit" = some execution.gasLimit :=
    optional?_of_field (by simp [form, field?_cons]) fun limit limited =>
      ⟨nofun, roundTrips_nat (storable.gasLimit limit limited)⟩
  change decode form = some execution
  simp [decode, frames, finished, gasUsed, gasLimit]

end RobotScript
