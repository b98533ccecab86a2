import RustyClaw.Library.JsonDepth
import RustyClaw.Tools.Envelope

/-!
# Trace records

A record of the trace (`trace/model.rs`), with the two forms in which it is stored: a line of JSON
(`trace/bus.rs`) and a row of columns (`trace/sqlite.rs`).  Both readers are lenient about what they
do not know, and each loses something: a line that does not parse is no record at all, and a row
whose attributes do not parse has none.

* `fromJsonStr_line`: what is read from the line of a record.
* `rowToTraceRecord_row`: what is read from the row of a record.

In both only the attributes can get lost.  They can nest deeper than the parser goes, and `number`
(what the parser makes of a number) need not give back the number that has been written.
-/

namespace RustyClaw.Trace

open Glyph
open Json hiding str

/-! ## The data -/

inductive TraceActor where
  | user | mainAgent | subagent | skill | llm | tool | context | scheduler | system
  deriving DecidableEq, Repr

inductive TraceKind where
  | spanStart | spanEnd | event
  deriving DecidableEq, Repr

inductive TraceStatus where
  | ok | error | cancelled | timedOut | yielded | retrying | skipped | running
  deriving DecidableEq, Repr

inductive TraceLevel where
  | normal | debug
  deriving DecidableEq, Repr

structure TraceRecord where
  schemaVersion : UInt32
  recordId : List Char
  traceId : List Char
  runId : List Char
  spanId : Option (List Char)
  parentSpanId : Option (List Char)
  sessionId : List Char
  taskId : Option (List Char)
  turnId : Option (List Char)
  iteration : Option UInt32
  actor : TraceActor
  kind : TraceKind
  name : List Char
  status : TraceStatus
  tsUnixMs : UInt64
  durationMs : Option UInt64
  level : TraceLevel
  summary : Option (List Char)
  attrs : Value Char

structure TraceContext where
  traceId : List Char
  runId : List Char
  sessionId : List Char
  rootSessionId : List Char
  taskId : Option (List Char)
  turnId : Option (List Char)
  iteration : Option UInt32
  parentSpanId : Option (List Char)

/-! ### Their names -/

def TraceActor.asStr : TraceActor → String
  | .user => "user"
  | .mainAgent => "main_agent"
  | .subagent => "subagent"
  | .skill => "skill"
  | .llm => "llm"
  | .tool => "tool"
  | .context => "context"
  | .scheduler => "scheduler"
  | .system => "system"

def TraceActor.all : List TraceActor :=
  [.user, .mainAgent, .subagent, .skill, .llm, .tool, .context, .scheduler, .system]

def traceKindAsStr : TraceKind → String
  | .spanStart => "span_start"
  | .spanEnd => "span_end"
  | .event => "event"

def TraceKind.all : List TraceKind := [.spanStart, .spanEnd, .event]

def TraceStatus.asStr : TraceStatus → String
  | .ok => "ok"
  | .error => "error"
  | .cancelled => "cancelled"
  | .timedOut => "timed_out"
  | .yielded => "yielded"
  | .retrying => "retrying"
  | .skipped => "skipped"
  | .running => "running"

def TraceStatus.all : List TraceStatus :=
  [.ok, .error, .cancelled, .timedOut, .yielded, .retrying, .skipped, .running]

def traceLevelAsStr : TraceLevel → String
  | .normal => "normal"
  | .debug => "debug"

def TraceLevel.all : List TraceLevel := [.normal, .debug]

/-- The variant with a name. -/
def ofName {α : Type} (all : List α) (name : α → String) (text : List Char) : Option α :=
  all.find? fun a => (name a).toList == text

/-! ## A new record -/

def currentSchemaVersion : UInt32 := 1

def hasRootSession (fields : Fields Char) : Bool := fields.any (hasKey "root_session_id")

/-- Attributes that are not an object are dropped. -/
def injectRootSession (attrs : Value Char) (rootSessionId : List Char) : Value Char :=
  match attrs with
  | ⟨.obj fields, h⟩ =>
    if hasRootSession fields then ⟨.obj fields, h⟩
    else ⟨.obj (insertField (Glyph.str "root_session_id") (.str rootSessionId) fields),
      h.1.insertField, h.2.insertField trivial⟩
  | _ => .object [("root_session_id", .str rootSessionId)]

/-- `uuid` is the text of a fresh `Uuid::new_v4`. -/
def buildRecord (uuid : List Char) (ctx : TraceContext) (actor : TraceActor) (kind : TraceKind)
    (name : List Char) (status : TraceStatus) (spanId parentSpanId : Option (List Char))
    (tsUnixMs : UInt64) (durationMs : Option UInt64) (summary : Option (List Char))
    (attrs : Value Char) : TraceRecord where
  schemaVersion := currentSchemaVersion
  recordId := "trc_".toList ++ uuid
  traceId := ctx.traceId
  runId := ctx.runId
  spanId
  parentSpanId
  sessionId := ctx.sessionId
  taskId := ctx.taskId
  turnId := ctx.turnId
  iteration := ctx.iteration
  actor
  kind
  name
  status
  tsUnixMs
  durationMs
  level := .normal
  summary
  attrs := injectRootSession attrs ctx.rootSessionId

/-! ## As a line -/

def TraceRecord.fields (record : TraceRecord) : List (String × Json Char) :=
  [("schema_version", .num (.ofInt record.schemaVersion.toNat)),
    ("record_id", .str record.recordId),
    ("trace_id", .str record.traceId),
    ("run_id", .str record.runId),
    ("span_id", optionJson .str record.spanId),
    ("parent_span_id", optionJson .str record.parentSpanId),
    ("session_id", .str record.sessionId),
    ("task_id", optionJson .str record.taskId),
    ("turn_id", optionJson .str record.turnId),
    ("iteration", optionJson (fun n : UInt32 => .num (.ofInt n.toNat)) record.iteration),
    ("actor", .str record.actor.asStr.toList),
    ("kind", .str (traceKindAsStr record.kind).toList),
    ("name", .str record.name),
    ("status", .str record.status.asStr.toList),
    ("ts_unix_ms", .num (.ofInt record.tsUnixMs.toNat)),
    ("duration_ms", optionJson (fun ms : UInt64 => .num (.ofInt ms.toNat)) record.durationMs),
    ("level", .str (traceLevelAsStr record.level).toList),
    ("summary", optionJson .str record.summary),
    ("attrs", record.attrs.json)]

/-- `serde_json::to_string`. -/
def TraceRecord.line (record : TraceRecord) : List Char := render (objOf record.fields)

/-- A variant without data is its name, or an object with its name and `null`. -/
def readVariant {α : Type} (all : List α) (name : α → String) : Json Char → Option α
  | .str text => ofName all name text
  | .obj [(text, .null)] => ofName all name text
  | _ => none

def readUInt32 (value : Json Char) : Option UInt32 :=
  match asInt value with
  | some i => if 0 ≤ i ∧ i < 2 ^ 32 then some (.ofNat i.toNat) else none
  | none => none

section Reading

variable (number : NumLit Char → Option (NumLit Char))

def decodeTraceRecord (field : Lookup Char) : Option TraceRecord := do
  let schemaVersion ← requireField field "schema_version" readUInt32
  let recordId ← requireField field "record_id" asStr
  let traceId ← requireField field "trace_id" asStr
  let runId ← requireField field "run_id" asStr
  let spanId ← readField field "span_id" none (readOption asStr)
  let parentSpanId ← readField field "parent_span_id" none (readOption asStr)
  let sessionId ← requireField field "session_id" asStr
  let taskId ← readField field "task_id" none (readOption asStr)
  let turnId ← readField field "turn_id" none (readOption asStr)
  let iteration ← readField field "iteration" none (readOption readUInt32)
  let actor ← requireField field "actor" (readVariant TraceActor.all TraceActor.asStr)
  let kind ← requireField field "kind" (readVariant TraceKind.all traceKindAsStr)
  let name ← requireField field "name" asStr
  let status ← requireField field "status" (readVariant TraceStatus.all TraceStatus.asStr)
  let tsUnixMs ← requireField field "ts_unix_ms" readUInt64
  let durationMs ← readField field "duration_ms" none (readOption readUInt64)
  let level ← requireField field "level" (readVariant TraceLevel.all traceLevelAsStr)
  let summary ← readField field "summary" none (readOption asStr)
  let attrs ← requireField field "attrs" (readValue number)
  return { schemaVersion, recordId, traceId, runId, spanId, parentSpanId, sessionId, taskId,
           turnId, iteration, actor, kind, name, status, tsUnixMs, durationMs, level, summary,
           attrs }

def readTraceRecord : Json Char → Option TraceRecord :=
  readRecord ["schema_version", "record_id", "trace_id", "run_id", "span_id", "parent_span_id",
    "session_id", "task_id", "turn_id", "iteration", "actor", "kind", "name", "status",
    "ts_unix_ms", "duration_ms", "level", "summary", "attrs"] (decodeTraceRecord number)

/-- `serde_json::from_str`. -/
def fromJsonStr (line : List Char) : Option TraceRecord :=
  (parse line).bind (readTraceRecord number)

end Reading

/-! ## As a row -/

/-- The columns of `trace_records`. -/
structure TraceRow where
  recordId : List Char
  traceId : List Char
  runId : List Char
  spanId : Option (List Char)
  parentSpanId : Option (List Char)
  sessionId : List Char
  taskId : Option (List Char)
  turnId : Option (List Char)
  actor : List Char
  kind : List Char
  name : List Char
  status : List Char
  iteration : Option Int64
  tsUnixMs : Int64
  durationMs : Option Int64
  level : List Char
  summary : Option (List Char)
  attrsJson : List Char

def TraceRecord.row (record : TraceRecord) : TraceRow where
  recordId := record.recordId
  traceId := record.traceId
  runId := record.runId
  spanId := record.spanId
  parentSpanId := record.parentSpanId
  sessionId := record.sessionId
  taskId := record.taskId
  turnId := record.turnId
  actor := record.actor.asStr.toList
  kind := (traceKindAsStr record.kind).toList
  name := record.name
  status := record.status.asStr.toList
  iteration := record.iteration.map fun n => n.toUInt64.toInt64
  tsUnixMs := record.tsUnixMs.toInt64
  durationMs := record.durationMs.map UInt64.toInt64
  level := (traceLevelAsStr record.level).toList
  summary := record.summary
  attrsJson := render record.attrs.json

def actorFromStr (value : List Char) : TraceActor :=
  (ofName TraceActor.all TraceActor.asStr value).getD .system

def kindFromStr (value : List Char) : TraceKind :=
  (ofName TraceKind.all traceKindAsStr value).getD .event

def statusFromStr (value : List Char) : TraceStatus :=
  (ofName TraceStatus.all TraceStatus.asStr value).getD .running

def levelFromStr (value : List Char) : TraceLevel :=
  (ofName TraceLevel.all traceLevelAsStr value).getD .normal

/-- `json!({})`. -/
def noAttrs : Value Char := .object []

/-- `serde_json::from_str` of the attributes. -/
def readAttrs (number : NumLit Char → Option (NumLit Char)) (attrsJson : List Char) :
    Option (Value Char) :=
  (parse attrsJson).bind (readValue number)

def rowToTraceRecord (number : NumLit Char → Option (NumLit Char)) (row : TraceRow) :
    TraceRecord where
  schemaVersion := currentSchemaVersion
  recordId := row.recordId
  traceId := row.traceId
  runId := row.runId
  spanId := row.spanId
  parentSpanId := row.parentSpanId
  sessionId := row.sessionId
  taskId := row.taskId
  turnId := row.turnId
  actor := actorFromStr row.actor
  kind := kindFromStr row.kind
  name := row.name
  status := statusFromStr row.status
  iteration := row.iteration.map fun v => v.toUInt64.toUInt32
  tsUnixMs := row.tsUnixMs.toUInt64
  durationMs := row.durationMs.map Int64.toUInt64
  level := levelFromStr row.level
  summary := row.summary
  attrs := (readAttrs number row.attrsJson).getD noAttrs

/-! ## What is read back -/

section RoundTrip

variable {number : NumLit Char → Option (NumLit Char)} {record : TraceRecord}

lemma ofName_actor (actor : TraceActor) :
    ofName TraceActor.all TraceActor.asStr actor.asStr.toList = some actor := by
  cases actor <;> decide

lemma ofName_kind (kind : TraceKind) :
    ofName TraceKind.all traceKindAsStr (traceKindAsStr kind).toList = some kind := by
  cases kind <;> decide

lemma ofName_status (status : TraceStatus) :
    ofName TraceStatus.all TraceStatus.asStr status.asStr.toList = some status := by
  cases status <;> decide

lemma ofName_level (level : TraceLevel) :
    ofName TraceLevel.all traceLevelAsStr (traceLevelAsStr level).toList = some level := by
  cases level <;> decide

lemma readUInt32_num (n : UInt32) : readUInt32 (.num (.ofInt n.toNat)) = some n := by
  have hlt : (n.toNat : Int) < 2 ^ 32 := by exact_mod_cast n.toNat_lt
  simp only [readUInt32, asInt, NumLit.toInt_ofInt]
  rw [if_pos ⟨Int.natCast_nonneg _, hlt⟩, Int.toNat_natCast, UInt32.ofNat_toNat]

lemma depth_optionJson {α : Type} {write : α → Json Char} (h : ∀ a, depth (write a) = 0)
    (value : Option α) : depth (optionJson write value) = 0 := by
  cases value with
  | none => rfl
  | some a => exact h a

/-- A record has one level more than its attributes. -/
lemma depth_fields (record : TraceRecord) :
    depth (objOf record.fields) = depth record.attrs.json + 1 := by
  have htext : ∀ text, depth (optionJson (Json.str (χ := Char)) text) = 0 :=
    depth_optionJson fun _ => rfl
  have hiteration : ∀ n, depth (optionJson
      (fun n : UInt32 => Json.num (χ := Char) (.ofInt n.toNat)) n) = 0 :=
    depth_optionJson fun _ => rfl
  have hduration : ∀ ms, depth (optionJson
      (fun ms : UInt64 => Json.num (χ := Char) (.ofInt ms.toNat)) ms) = 0 :=
    depth_optionJson fun _ => rfl
  simp [objOf, TraceRecord.fields, depth, depthFields, htext, hiteration, hduration]

lemma nodup_fields (record : TraceRecord) : (record.fields.map Prod.fst).Nodup := by
  simp only [TraceRecord.fields, List.map_cons, List.map_nil]
  decide

lemma readTraceRecord_fields (record : TraceRecord) :
    readTraceRecord number (objOf record.fields) =
      (readValue number record.attrs.json).map fun attrs => { record with attrs } := by
  have htext : ∀ text, readOption asStr (optionJson (Json.str (χ := Char)) text) = some text :=
    readOption_optionJson (fun _ => rfl) (by simp)
  have hiteration := readOption_optionJson readUInt32_num (by simp) record.iteration
  have hduration := readOption_optionJson (readUInt64_num (χ := Char)) (by simp) record.durationMs
  have hversion := readUInt32_num record.schemaVersion
  have hts := readUInt64_num (χ := Char) record.tsUnixMs
  unfold readTraceRecord
  rw [readRecord_objOf (nodup_fields record)]
  cases hattrs : readValue number record.attrs.json with
  | none =>
    simp [decodeTraceRecord, TraceRecord.fields, requireField, readField, List.lookup_cons, asStr,
      readVariant, ofName_actor, ofName_kind, ofName_status, ofName_level, htext, hiteration,
      hduration, hversion, hts, hattrs]
  | some attrs =>
    simp [decodeTraceRecord, TraceRecord.fields, requireField, readField, List.lookup_cons, asStr,
      readVariant, ofName_actor, ofName_kind, ofName_status, ofName_level, htext, hiteration,
      hduration, hversion, hts, hattrs]

/-- A line is read back as the record, but for its attributes; there is none when they nest too
deep or a number in them is refused. -/
theorem fromJsonStr_line (record : TraceRecord) :
    fromJsonStr number record.line =
      if depth record.attrs.json < recursionLimit then
        (readValue number record.attrs.json).map fun attrs => { record with attrs }
      else none := by
  rw [fromJsonStr, TraceRecord.line, parse_render_eq, depth_fields]
  split_ifs
  · rw [Option.bind_some, readTraceRecord_fields]
  · omega
  · omega
  · rfl

/-- A row is read back as the record, but for its attributes. -/
theorem rowToTraceRecord_row (h : record.schemaVersion = currentSchemaVersion) :
    rowToTraceRecord number record.row =
      { record with attrs := (readAttrs number (render record.attrs.json)).getD noAttrs } := by
  have hiteration : (record.iteration.map fun n => n.toUInt64.toInt64).map
      (fun v => v.toUInt64.toUInt32) = record.iteration := by
    cases record.iteration with
    | none => rfl
    | some n => simp
  have hduration : (record.durationMs.map UInt64.toInt64).map Int64.toUInt64 =
      record.durationMs := by
    cases record.durationMs with
    | none => rfl
    | some ms => rfl
  simp only [rowToTraceRecord, TraceRecord.row, actorFromStr, kindFromStr, statusFromStr,
    levelFromStr, ofName_actor, ofName_kind, ofName_status, ofName_level, Option.getD_some,
    hiteration, hduration, UInt64.toUInt64_toInt64, ← h]

/-- The attributes nest at most `limit` levels, and their numbers are read as they are written. -/
def TraceRecord.ReadsBack (number : NumLit Char → Option (NumLit Char)) (limit : Nat)
    (record : TraceRecord) : Prop :=
  depth record.attrs.json ≤ limit ∧ readValue number record.attrs.json = some record.attrs

lemma attrs_eq_iff {attrs : Value Char} :
    { record with attrs } = record ↔ attrs = record.attrs := by
  constructor
  · exact fun h => congrArg TraceRecord.attrs h
  · rintro rfl
    rfl

/-- There is one more level in a line than in the attributes. -/
lemma fromJsonStr_line_eq_some_iff :
    fromJsonStr number record.line = some record ↔
      record.ReadsBack number (recursionLimit - 1) := by
  have hlimit : depth record.attrs.json < recursionLimit ↔
      depth record.attrs.json ≤ recursionLimit - 1 := by
    rw [recursionLimit]
    omega
  rw [fromJsonStr_line, TraceRecord.ReadsBack, ← hlimit]
  split_ifs with hdepth
  · rw [Option.map_eq_some_iff]
    constructor
    · rintro ⟨attrs, hattrs, heq⟩
      exact ⟨hdepth, attrs_eq_iff.mp heq ▸ hattrs⟩
    · rintro ⟨-, hattrs⟩
      exact ⟨record.attrs, hattrs, rfl⟩
  · exact ⟨False.elim, fun h => absurd h.1 hdepth⟩

lemma recordId_fromJsonStr_line {record' : TraceRecord}
    (h : fromJsonStr number record.line = some record') : record'.recordId = record.recordId := by
  rw [fromJsonStr_line] at h
  split_ifs at h
  obtain ⟨attrs, -, rfl⟩ := Option.map_eq_some_iff.mp h
  rfl

lemma rowToTraceRecord_row_eq_iff (hversion : record.schemaVersion = currentSchemaVersion)
    (hattrs : record.attrs ≠ noAttrs) :
    rowToTraceRecord number record.row = record ↔ record.ReadsBack number recursionLimit := by
  rw [rowToTraceRecord_row hversion, attrs_eq_iff, readAttrs, parse_render_eq,
    TraceRecord.ReadsBack]
  split_ifs with hdepth
  · rw [Option.bind_some, and_iff_right hdepth]
    cases readValue number record.attrs.json with
    | none => exact ⟨fun h => absurd h.symm hattrs, fun h => by cases h⟩
    | some attrs => rw [Option.getD_some, Option.some_inj]
  · exact ⟨fun h => absurd h.symm hattrs, fun h => absurd h.1 hdepth⟩

end RoundTrip

/-! ## What is built -/

/-- The attributes of a new record have at least the root session. -/
lemma injectRootSession_ne_noAttrs (attrs : Value Char) (rootSessionId : List Char) :
    injectRootSession attrs rootSessionId ≠ noAttrs := by
  intro h
  have hjson : (injectRootSession attrs rootSessionId).json = .obj [] := congrArg Value.json h
  unfold injectRootSession at hjson
  split at hjson
  · next fields _ =>
    split_ifs at hjson with hroot
    · rw [Json.obj.inj hjson] at hroot
      cases hroot
    · cases fields with
      | nil => cases hjson
      | cons field fields =>
        simp only [insertField, Json.obj.injEq] at hjson
        split_ifs at hjson
  · cases hjson

end RustyClaw.Trace
