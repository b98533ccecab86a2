import RustyClaw.Library.JsonCut
import RustyClaw.Library.Savepoint
import RustyClaw.Library.TextFile
import RustyClaw.Trace.Record

/-!
# The summaries of the runs

With every record the bus updates the summary of the record's run (`update_summary`).  The summary is
kept in memory, and it is saved twice: as a file of its run, and as a row of the index.  After a
restart it is loaded from the file again, and a file that cannot be read is as good as none.

`summarize` says what a summary should have, field by field, from all records at once.
`summarize_concat` says that the update keeps to it, and `getRun_replay` that every reader gets the
summary of the records in the ledger of the run (`Library/Savepoint.lean`), whatever was recorded of
other runs in between, wherever writes failed and however often the program was started again.

The counters wrap around as they do in a build without overflow checks.
-/

namespace RustyClaw.Trace

open Glyph Savepoint Utf8
open Json hiding str

/-! ## The summary -/

structure RunSummary where
  runId : List Char
  traceId : List Char
  sessionId : List Char
  rootSessionId : List Char
  taskId : Option (List Char) := none
  rootGoal : Option (List Char) := none
  status : List Char := "running".toList
  startedAtUnixMs : UInt64 := 0
  finishedAtUnixMs : Option UInt64 := none
  durationMs : Option UInt64 := none
  provider : Option (List Char) := none
  model : Option (List Char) := none
  totalEvents : UInt64 := 0
  totalSpans : UInt64 := 0
  totalToolCalls : UInt64 := 0
  totalLlmCalls : UInt64 := 0
  totalSubagents : UInt64 := 0
  peakPromptTokens : Option UInt64 := none
  peakHistoryTokens : Option UInt64 := none
  lastErrorSummary : Option (List Char) := none
  toolNames : List (List Char) := []
  artifactPaths : List (List Char) := []
  updatedAtUnixMs : UInt64 := 0
  deriving DecidableEq

def RunSummary.new (runId traceId sessionId rootSessionId : List Char) : RunSummary :=
  { runId, traceId, sessionId, rootSessionId }

/-! ### What a record says -/

namespace TraceRecord

variable (record : TraceRecord)

/-- `attrs.get(key).and_then(Value::as_str)`. -/
def attrStr (key : String) : Option (List Char) := (get key.toList record.attrs.json).bind asStr

/-- `attrs.get(key).and_then(Value::as_u64)`. -/
def attrU64 (key : String) : Option UInt64 := (get key.toList record.attrs.json).bind readUInt64

/-- `root_session_id_from_attrs`, and else the session of the record. -/
def rootSessionId : List Char := (record.attrStr "root_session_id").getD record.sessionId

def hasName (name : String) : Bool := record.name == name.toList

def startsRun : Bool := record.hasName "run_started"

/-- The status of a run at whose end there is such a record. -/
def endStatus : Option (List Char) :=
  if record.hasName "run_failed" then some "failed".toList
  else if record.hasName "run_cancelled" then some "cancelled".toList
  else if record.hasName "run_finished" then some "finished".toList
  else none

def endsRun : Bool := record.endStatus.isSome

def isSpan : Bool := record.kind == .spanStart

def isLlmCall : Bool := record.actor == .llm && record.hasName "llm_request_started"

def isToolCall : Bool := record.actor == .tool && record.hasName "tool_started"

def isSubagent : Bool := record.actor == .subagent && record.hasName "subagent_spawned"

/-- The name of the tool of a call. -/
def toolName : Option (List Char) := if record.isToolCall then record.attrStr "tool_name" else none

def isFailure : Bool :=
  record.status == .error || record.status == .timedOut || record.status == .cancelled

def errorText : Option (List Char) := record.summary.or (record.attrStr "error")

end TraceRecord

/-! ### The update -/

def pushUnique (values : List (List Char)) (candidate : List Char) : List (List Char) :=
  if values.any (· == candidate) then values else values ++ [candidate]

/-- `u64::saturating_sub`. -/
def saturatingSub (a b : UInt64) : UInt64 := if b ≤ a then a - b else 0

/-- The larger one of a peak and what a record has, if it has anything. -/
def raisePeak (peak : Option UInt64) : Option UInt64 → Option UInt64
  | some tokens => some (max (peak.getD 0) tokens)
  | none => peak

namespace RunSummary

def startRun (summary : RunSummary) (record : TraceRecord) : RunSummary :=
  { summary with
    sessionId := record.sessionId
    startedAtUnixMs := record.tsUnixMs
    status := "running".toList
    rootGoal := (record.attrStr "goal").or summary.rootGoal
    provider := (record.attrStr "provider").or summary.provider
    model := (record.attrStr "model").or summary.model }

def endRun (summary : RunSummary) (record : TraceRecord) (status : List Char) : RunSummary :=
  { summary with
    finishedAtUnixMs := some record.tsUnixMs
    durationMs :=
      record.durationMs.or (some (saturatingSub record.tsUnixMs summary.startedAtUnixMs))
    status }

/-- What `update_summary` does to the summary of the record's run. -/
def update (summary : RunSummary) (record : TraceRecord) : RunSummary :=
  let summary := { summary with
    updatedAtUnixMs := record.tsUnixMs
    traceId := record.traceId
    taskId := record.taskId.or summary.taskId
    rootSessionId := record.rootSessionId
    sessionId := if summary.sessionId.isEmpty then record.sessionId else summary.sessionId
    totalEvents := summary.totalEvents + 1
    totalSpans := if record.isSpan then summary.totalSpans + 1 else summary.totalSpans
    totalLlmCalls := if record.isLlmCall then summary.totalLlmCalls + 1 else summary.totalLlmCalls
    totalToolCalls :=
      if record.isToolCall then summary.totalToolCalls + 1 else summary.totalToolCalls
    toolNames := record.toolName.elim summary.toolNames (pushUnique summary.toolNames)
    totalSubagents :=
      if record.isSubagent then summary.totalSubagents + 1 else summary.totalSubagents }
  let summary := if record.startsRun then summary.startRun record else summary
  let summary := record.endStatus.elim summary (summary.endRun record)
  { summary with
    peakPromptTokens := raisePeak summary.peakPromptTokens (record.attrU64 "approx_prompt_tokens")
    peakHistoryTokens := raisePeak summary.peakHistoryTokens (record.attrU64 "history_tokens")
    artifactPaths :=
      (record.attrStr "file_path").elim summary.artifactPaths (pushUnique summary.artifactPaths)
    lastErrorSummary := if record.isFailure then record.errorText else summary.lastErrorSummary }

/-! ### As a text -/

def fields (summary : RunSummary) : List (String × Json Char) :=
  let number (n : UInt64) : Json Char := .num (.ofInt n.toNat)
  [("run_id", .str summary.runId),
    ("trace_id", .str summary.traceId),
    ("session_id", .str summary.sessionId),
    ("root_session_id", .str summary.rootSessionId),
    ("task_id", optionJson .str summary.taskId),
    ("root_goal", optionJson .str summary.rootGoal),
    ("status", .str summary.status),
    ("started_at_unix_ms", number summary.startedAtUnixMs),
    ("finished_at_unix_ms", optionJson number summary.finishedAtUnixMs),
    ("duration_ms", optionJson number summary.durationMs),
    ("provider", optionJson .str summary.provider),
    ("model", optionJson .str summary.model),
    ("total_events", number summary.totalEvents),
    ("total_spans", number summary.totalSpans),
    ("total_tool_calls", number summary.totalToolCalls),
    ("total_llm_calls", number summary.totalLlmCalls),
    ("total_subagents", number summary.totalSubagents),
    ("peak_prompt_tokens", optionJson number summary.peakPromptTokens),
    ("peak_history_tokens", optionJson number summary.peakHistoryTokens),
    ("last_error_summary", optionJson .str summary.lastErrorSummary),
    ("tool_names", .arr (summary.toolNames.map .str)),
    ("artifact_paths", .arr (summary.artifactPaths.map .str)),
    ("updated_at_unix_ms", number summary.updatedAtUnixMs)]

def decode (field : Lookup Char) : Option RunSummary := do
  let runId ← requireField field "run_id" asStr
  let traceId ← requireField field "trace_id" asStr
  let sessionId ← requireField field "session_id" asStr
  let rootSessionId ← requireField field "root_session_id" asStr
  let taskId ← readField field "task_id" none (readOption asStr)
  let rootGoal ← readField field "root_goal" none (readOption asStr)
  let status ← requireField field "status" asStr
  let startedAtUnixMs ← requireField field "started_at_unix_ms" readUInt64
  let finishedAtUnixMs ← readField field "finished_at_unix_ms" none (readOption readUInt64)
  let durationMs ← readField field "duration_ms" none (readOption readUInt64)
  let provider ← readField field "provider" none (readOption asStr)
  let model ← readField field "model" none (readOption asStr)
  let totalEvents ← requireField field "total_events" readUInt64
  let totalSpans ← requireField field "total_spans" readUInt64
  let totalToolCalls ← requireField field "total_tool_calls" readUInt64
  let totalLlmCalls ← requireField field "total_llm_calls" readUInt64
  let totalSubagents ← requireField field "total_subagents" readUInt64
  let peakPromptTokens ← readField field "peak_prompt_tokens" none (readOption readUInt64)
  let peakHistoryTokens ← readField field "peak_history_tokens" none (readOption readUInt64)
  let lastErrorSummary ← readField field "last_error_summary" none (readOption asStr)
  let toolNames ← requireField field "tool_names" (readList asStr)
  let artifactPaths ← requireField field "artifact_paths" (readList asStr)
  let updatedAtUnixMs ← requireField field "updated_at_unix_ms" readUInt64
  return { runId, traceId, sessionId, rootSessionId, taskId, rootGoal, status, startedAtUnixMs,
           finishedAtUnixMs, durationMs, provider, model, totalEvents, totalSpans, totalToolCalls,
           totalLlmCalls, totalSubagents, peakPromptTokens, peakHistoryTokens, lastErrorSummary,
           toolNames, artifactPaths, updatedAtUnixMs }

/-- `serde_json::to_string_pretty`. -/
def toStringPretty (summary : RunSummary) : List Char := pretty 0 (objOf summary.fields)

/-- `serde_json::from_str`. -/
def fromStr (content : List Char) : Option RunSummary :=
  (parse content).bind (readRecord ["run_id", "trace_id", "session_id", "root_session_id",
    "task_id", "root_goal", "status", "started_at_unix_ms", "finished_at_unix_ms", "duration_ms",
    "provider", "model", "total_events", "total_spans", "total_tool_calls", "total_llm_calls",
    "total_subagents", "peak_prompt_tokens", "peak_history_tokens", "last_error_summary",
    "tool_names", "artifact_paths", "updated_at_unix_ms"] decode)

end RunSummary

/-! ### As a row -/

/-- The columns of `runs`. -/
structure RunRow where
  runId : List Char
  traceId : List Char
  sessionId : List Char
  rootSessionId : List Char
  taskId : Option (List Char)
  rootGoal : Option (List Char)
  status : List Char
  startedAtUnixMs : Int64
  finishedAtUnixMs : Option Int64
  durationMs : Option Int64
  provider : Option (List Char)
  model : Option (List Char)
  totalEvents : Int64
  totalSpans : Int64
  totalToolCalls : Int64
  totalLlmCalls : Int64
  totalSubagents : Int64
  peakPromptTokens : Option Int64
  peakHistoryTokens : Option Int64
  lastErrorSummary : Option (List Char)
  toolNamesJson : List Char
  artifactPathsJson : List Char
  updatedAtUnixMs : Int64

def RunSummary.row (summary : RunSummary) : RunRow where
  runId := summary.runId
  traceId := summary.traceId
  sessionId := summary.sessionId
  rootSessionId := summary.rootSessionId
  taskId := summary.taskId
  rootGoal := summary.rootGoal
  status := summary.status
  startedAtUnixMs := summary.startedAtUnixMs.toInt64
  finishedAtUnixMs := summary.finishedAtUnixMs.map UInt64.toInt64
  durationMs := summary.durationMs.map UInt64.toInt64
  provider := summary.provider
  model := summary.model
  totalEvents := summary.totalEvents.toInt64
  totalSpans := summary.totalSpans.toInt64
  totalToolCalls := summary.totalToolCalls.toInt64
  totalLlmCalls := summary.totalLlmCalls.toInt64
  totalSubagents := summary.totalSubagents.toInt64
  peakPromptTokens := summary.peakPromptTokens.map UInt64.toInt64
  peakHistoryTokens := summary.peakHistoryTokens.map UInt64.toInt64
  lastErrorSummary := summary.lastErrorSummary
  toolNamesJson := render (.arr (summary.toolNames.map .str))
  artifactPathsJson := render (.arr (summary.artifactPaths.map .str))
  updatedAtUnixMs := summary.updatedAtUnixMs.toInt64

/-- `serde_json::from_str` of a list of texts, or else no text. -/
def readTexts (json : List Char) : List (List Char) :=
  ((Json.parse json).bind (readList asStr)).getD []

def rowToRunSummary (row : RunRow) : RunSummary where
  runId := row.runId
  traceId := row.traceId
  sessionId := row.sessionId
  rootSessionId := row.rootSessionId
  taskId := row.taskId
  rootGoal := row.rootGoal
  status := row.status
  startedAtUnixMs := row.startedAtUnixMs.toUInt64
  finishedAtUnixMs := row.finishedAtUnixMs.map Int64.toUInt64
  durationMs := row.durationMs.map Int64.toUInt64
  provider := row.provider
  model := row.model
  totalEvents := row.totalEvents.toUInt64
  totalSpans := row.totalSpans.toUInt64
  totalToolCalls := row.totalToolCalls.toUInt64
  totalLlmCalls := row.totalLlmCalls.toUInt64
  totalSubagents := row.totalSubagents.toUInt64
  peakPromptTokens := row.peakPromptTokens.map Int64.toUInt64
  peakHistoryTokens := row.peakHistoryTokens.map Int64.toUInt64
  lastErrorSummary := row.lastErrorSummary
  toolNames := readTexts row.toolNamesJson
  artifactPaths := readTexts row.artifactPathsJson
  updatedAtUnixMs := row.updatedAtUnixMs.toUInt64

/-! ## The stores -/

structure SummaryStore where
  /-- `summary_cache` -/
  cache : List Char → Option RunSummary
  /-- the file `<run_id>.json` of each run -/
  files : List Char → Option (List UInt8)
  /-- the table `runs` -/
  rows : List Char → Option RunRow

def SummaryStore.empty : SummaryStore := ⟨fun _ => none, fun _ => none, fun _ => none⟩

inductive BusEvent where
  /-- `update_summary`, with what becomes of the file and of the row -/
  | update (record : TraceRecord) (write : Write) (indexed : Bool)
  /-- the program is started again -/
  | restart

namespace SummaryStore

def loadSummary (s : SummaryStore) (runId : List Char) : Option RunSummary :=
  ((s.files runId).bind Utf8.decode).bind RunSummary.fromStr

/-- `fs::write`, which makes the file empty first. -/
def writeFile (file : Option (List UInt8)) (content : List Char) : Write → Option (List UInt8)
  | .unopened => file
  | .written n => some ((encode content).take n)

def updateSummary (s : SummaryStore) (record : TraceRecord) (write : Write) (indexed : Bool) :
    SummaryStore :=
  let summary := (s.cache record.runId).getD <| (s.loadSummary record.runId).getD <|
    .new record.runId record.traceId record.sessionId record.rootSessionId
  let summary := summary.update record
  { cache := Function.update s.cache record.runId (some summary)
    files := Function.update s.files summary.runId
      (writeFile (s.files summary.runId) summary.toStringPretty write)
    rows := if indexed then Function.update s.rows summary.runId (some summary.row) else s.rows }

def step (s : SummaryStore) : BusEvent → SummaryStore
  | .update record write indexed => s.updateSummary record write indexed
  | .restart => { s with cache := fun _ => none }

def replay (events : List BusEvent) : SummaryStore := events.foldl step .empty

/-- `get_run`; `readable` says whether the index can be read. -/
def getRun (s : SummaryStore) (readable : Bool) (runId : List Char) : Option RunSummary :=
  (if readable then (s.rows runId).map rowToRunSummary else none).or (s.loadSummary runId)

end SummaryStore

/-! ## What a summary should have -/

/-- The last thing that a view shows of the records. -/
def lastSome {α : Type} (view : TraceRecord → Option α) (records : List TraceRecord) : Option α :=
  records.reverse.findSome? view

/-- The same, of records that start the run. -/
def lastStart {α : Type} (view : TraceRecord → Option α) : List TraceRecord → Option α :=
  lastSome fun record => if record.startsRun then view record else none

/-- The records from the last one on that starts the run, and all of them when there is none. -/
def sinceStart : List TraceRecord → List TraceRecord
  | [] => []
  | record :: records =>
    if records.any TraceRecord.startsRun then sinceStart records else record :: records

/-- The first session with a name since the run was started. -/
def sessionOf (records : List TraceRecord) : List Char :=
  (((sinceStart records).map TraceRecord.sessionId).find? fun session => !session.isEmpty).getD []

def startOf (records : List TraceRecord) : UInt64 :=
  (lastStart (fun record => some record.tsUnixMs) records).getD 0

/-- What the last record of an end says, or else the time since the run was started. -/
def durationOf (records : List TraceRecord) : Option UInt64 :=
  match records.reverse.dropWhile fun record => !record.endsRun with
  | [] => none
  | last :: before => some (last.durationMs.getD
      (saturatingSub last.tsUnixMs (startOf (last :: before).reverse)))

/-- The last record that starts the run or ends it. -/
def statusOf (records : List TraceRecord) : List Char :=
  (lastSome (fun record =>
    record.endStatus.or (if record.startsRun then some "running".toList else none))
      records).getD "running".toList

def countOf (counts : TraceRecord → Bool) (records : List TraceRecord) : UInt64 :=
  .ofNat (records.countP counts)

def peakOf (key : String) (records : List TraceRecord) : Option UInt64 :=
  (records.filterMap (·.attrU64 key)).max?

/-- All values, each where it comes first. -/
def uniqueOf (view : TraceRecord → Option (List Char)) (records : List TraceRecord) :
    List (List Char) := (records.filterMap view).eraseDups

/-- The text of the last failure, if it has one. -/
def lastError (records : List TraceRecord) : Option (List Char) :=
  (records.filter TraceRecord.isFailure).getLast?.bind TraceRecord.errorText

/-- The summary of records of which the last one is given. -/
def summaryOf (records : List TraceRecord) (last : TraceRecord) : RunSummary where
  runId := (records.head?.map TraceRecord.runId).getD []
  traceId := last.traceId
  sessionId := sessionOf records
  rootSessionId := last.rootSessionId
  taskId := lastSome TraceRecord.taskId records
  rootGoal := lastStart (·.attrStr "goal") records
  status := statusOf records
  startedAtUnixMs := startOf records
  finishedAtUnixMs :=
    lastSome (fun record => if record.endsRun then some record.tsUnixMs else none) records
  durationMs := durationOf records
  provider := lastStart (·.attrStr "provider") records
  model := lastStart (·.attrStr "model") records
  totalEvents := countOf (fun _ => true) records
  totalSpans := countOf TraceRecord.isSpan records
  totalToolCalls := countOf TraceRecord.isToolCall records
  totalLlmCalls := countOf TraceRecord.isLlmCall records
  totalSubagents := countOf TraceRecord.isSubagent records
  peakPromptTokens := peakOf "approx_prompt_tokens" records
  peakHistoryTokens := peakOf "history_tokens" records
  lastErrorSummary := lastError records
  toolNames := uniqueOf TraceRecord.toolName records
  artifactPaths := uniqueOf (·.attrStr "file_path") records
  updatedAtUnixMs := last.tsUnixMs

/-- The summary of records, if there are any. -/
def summarize (records : List TraceRecord) : Option RunSummary :=
  records.getLast?.map (summaryOf records)

/-! ### One more record -/

section Concat

variable {α : Type} {view : TraceRecord → Option α} {records : List TraceRecord}
  {record : TraceRecord}

@[simp] lemma lastSome_nil : lastSome view [] = none := rfl

@[simp] lemma lastSome_concat :
    lastSome view (records ++ [record]) = (view record).or (lastSome view records) := by
  rw [lastSome, List.reverse_append, List.reverse_singleton, List.singleton_append,
    List.findSome?_cons]
  cases view record <;> rfl

@[simp] lemma lastStart_concat : lastStart view (records ++ [record]) =
    if record.startsRun then (view record).or (lastStart view records)
    else lastStart view records := by
  rw [lastStart, lastSome_concat]
  split <;> rfl

lemma sinceStart_concat : sinceStart (records ++ [record]) =
    if record.startsRun then [record] else sinceStart records ++ [record] := by
  induction records with
  | nil => simp [sinceStart]
  | cons other records ih =>
    rw [List.cons_append, sinceStart, sinceStart, List.any_append, ih]
    by_cases hstart : record.startsRun
    · simp [hstart]
    · by_cases hany : records.any TraceRecord.startsRun
      · simp [hstart, hany]
      · simp [hstart, hany]

/-- The session of the summary is filled in where there is none. -/
lemma sessionOf_concat : sessionOf (records ++ [record]) =
    if record.startsRun then record.sessionId
    else if (sessionOf records).isEmpty then record.sessionId else sessionOf records := by
  have hsingle : (if record.sessionId.isEmpty then [] else record.sessionId) = record.sessionId := by
    cases record.sessionId <;> rfl
  rw [sessionOf, sinceStart_concat]
  by_cases hstart : record.startsRun
  · rw [if_pos hstart, if_pos hstart, List.map_singleton, List.find?_singleton]
    cases hempty : record.sessionId with
    | nil => rfl
    | cons c rest => rfl
  · rw [if_neg hstart, if_neg hstart, List.map_append, List.find?_append, sessionOf]
    cases hfind : ((sinceStart records).map TraceRecord.sessionId).find?
        fun session => !session.isEmpty with
    | none =>
      rw [List.map_singleton, List.find?_singleton]
      cases hempty : record.sessionId with
      | nil => rfl
      | cons c rest => rfl
    | some session =>
      have hsession := List.find?_some (p := fun session : List Char => !session.isEmpty) hfind
      rw [Option.some_or, Option.getD_some, if_neg (by simpa using hsession)]

lemma startOf_concat : startOf (records ++ [record]) =
    if record.startsRun then record.tsUnixMs else startOf records := by
  rw [startOf, lastStart_concat]
  split <;> rfl

lemma durationOf_concat : durationOf (records ++ [record]) =
    if record.endsRun then
      some (record.durationMs.getD
        (saturatingSub record.tsUnixMs (startOf (records ++ [record]))))
    else durationOf records := by
  rw [durationOf, List.reverse_append, List.reverse_singleton, List.singleton_append]
  by_cases hend : record.endsRun
  · rw [List.dropWhile_cons_of_neg (by simp [hend]), if_pos hend]
    dsimp only
    rw [List.reverse_cons, List.reverse_reverse]
  · rw [List.dropWhile_cons_of_pos (by simp [hend]), if_neg hend, durationOf]

lemma statusOf_concat : statusOf (records ++ [record]) =
    record.endStatus.getD (if record.startsRun then "running".toList else statusOf records) := by
  rw [statusOf, lastSome_concat]
  cases record.endStatus with
  | some status => rfl
  | none =>
    rw [Option.none_or, Option.getD_none, statusOf]
    by_cases hstart : record.startsRun
    · rw [if_pos hstart, if_pos hstart, Option.some_or, Option.getD_some]
    · rw [if_neg hstart, if_neg hstart, Option.none_or]

lemma countOf_concat (counts : TraceRecord → Bool) : countOf counts (records ++ [record]) =
    if counts record then countOf counts records + 1 else countOf counts records := by
  rw [countOf, List.countP_append, List.countP_singleton]
  split
  · rw [UInt64.ofNat_add]
    rfl
  · rfl

lemma peakOf_concat (key : String) : peakOf key (records ++ [record]) =
    raisePeak (peakOf key records) (record.attrU64 key) := by
  rw [peakOf, List.filterMap_append, List.filterMap_cons, List.filterMap_nil]
  cases record.attrU64 key with
  | none => simp [raisePeak, peakOf]
  | some tokens =>
    rw [peakOf]
    cases records.filterMap (·.attrU64 key) with
    | nil =>
      have hzero : max 0 tokens = tokens := if_pos UInt64.zero_le
      exact congrArg some hzero.symm
    | cons first rest =>
      have hall : (first :: rest ++ [tokens]).max? = some ((rest ++ [tokens]).foldl max first) := rfl
      rw [hall, List.foldl_append]
      rfl

lemma uniqueOf_concat (view : TraceRecord → Option (List Char)) :
    uniqueOf view (records ++ [record]) =
      (view record).elim (uniqueOf view records) (pushUnique (uniqueOf view records)) := by
  rw [uniqueOf, List.filterMap_append, List.filterMap_cons, List.filterMap_nil]
  cases view record with
  | none => simp [uniqueOf]
  | some text =>
    have hany : (uniqueOf view records).any (· == text) =
        (records.filterMap view).contains text := by
      rw [Bool.eq_iff_iff, List.any_beq', List.contains_iff_mem, List.contains_iff_mem, uniqueOf,
        List.mem_eraseDups]
    rw [List.eraseDups_append, List.cons_removeAll, List.nil_removeAll]
    show _ = pushUnique (uniqueOf view records) text
    rw [pushUnique, hany, uniqueOf]
    rcases Bool.eq_false_or_eq_true ((records.filterMap view).contains text) with htext | htext
    · rw [htext]
      exact List.append_nil _
    · rw [htext]
      rfl

lemma lastError_concat : lastError (records ++ [record]) =
    if record.isFailure then record.errorText else lastError records := by
  rw [lastError, List.filter_append, List.filter_singleton]
  rcases Bool.eq_false_or_eq_true record.isFailure with hfailure | hfailure
  · rw [hfailure, cond_true, List.getLast?_concat, if_pos rfl, Option.bind_some]
  · rw [hfailure, cond_false, List.append_nil]
    rfl

/-- What an update leaves, field by field. -/
lemma update_eq (summary : RunSummary) (record : TraceRecord) : summary.update record =
    { runId := summary.runId
      traceId := record.traceId
      sessionId :=
        if record.startsRun then record.sessionId
        else if summary.sessionId.isEmpty then record.sessionId else summary.sessionId
      rootSessionId := record.rootSessionId
      taskId := record.taskId.or summary.taskId
      rootGoal :=
        if record.startsRun then (record.attrStr "goal").or summary.rootGoal
        else summary.rootGoal
      status := record.endStatus.getD
        (if record.startsRun then "running".toList else summary.status)
      startedAtUnixMs := if record.startsRun then record.tsUnixMs else summary.startedAtUnixMs
      finishedAtUnixMs :=
        (if record.endsRun then some record.tsUnixMs else none).or summary.finishedAtUnixMs
      durationMs :=
        if record.endsRun then
          some (record.durationMs.getD (saturatingSub record.tsUnixMs
            (if record.startsRun then record.tsUnixMs else summary.startedAtUnixMs)))
        else summary.durationMs
      provider :=
        if record.startsRun then (record.attrStr "provider").or summary.provider
        else summary.provider
      model :=
        if record.startsRun then (record.attrStr "model").or summary.model else summary.model
      totalEvents := summary.totalEvents + 1
      totalSpans := if record.isSpan then summary.totalSpans + 1 else summary.totalSpans
      totalToolCalls :=
        if record.isToolCall then summary.totalToolCalls + 1 else summary.totalToolCalls
      totalLlmCalls :=
        if record.isLlmCall then summary.totalLlmCalls + 1 else summary.totalLlmCalls
      totalSubagents :=
        if record.isSubagent then summary.totalSubagents + 1 else summary.totalSubagents
      peakPromptTokens :=
        raisePeak summary.peakPromptTokens (record.attrU64 "approx_prompt_tokens")
      peakHistoryTokens := raisePeak summary.peakHistoryTokens (record.attrU64 "history_tokens")
      lastErrorSummary :=
        if record.isFailure then record.errorText else summary.lastErrorSummary
      toolNames := record.toolName.elim summary.toolNames (pushUnique summary.toolNames)
      artifactPaths :=
        (record.attrStr "file_path").elim summary.artifactPaths (pushUnique summary.artifactPaths)
      updatedAtUnixMs := record.tsUnixMs } := by
  have hor (duration : UInt64) : record.durationMs.or (some duration) =
      some (record.durationMs.getD duration) := by
    cases record.durationMs <;> rfl
  unfold RunSummary.update TraceRecord.endsRun
  rcases Bool.eq_false_or_eq_true record.startsRun with hstart | hstart
  · rcases hend : record.endStatus with - | status
    · simp only [hstart]
      rfl
    · simp only [hstart, RunSummary.endRun, Option.elim_some, hor]
      rfl
  · rcases hend : record.endStatus with - | status
    · simp only [hstart]
      rfl
    · simp only [hstart, RunSummary.endRun, Option.elim_some, hor]
      rfl

/-- A summary that has what it should have, but for its name and its session, is updated to one that
has what it should have. -/
lemma update_summaryOf (records : List TraceRecord) (last record : TraceRecord)
    (runId sessionId : List Char)
    (hsession : (if sessionId.isEmpty then record.sessionId else sessionId) =
      if (sessionOf records).isEmpty then record.sessionId else sessionOf records) :
    ({ summaryOf records last with runId, sessionId }).update record =
      { summaryOf (records ++ [record]) record with runId } := by
  rw [update_eq]
  simp only [summaryOf, sessionOf_concat, startOf_concat, durationOf_concat, statusOf_concat,
    countOf_concat, peakOf_concat, uniqueOf_concat, lastSome_concat, lastStart_concat, if_true,
    lastError_concat, hsession]

/-- **The update keeps to what a summary should have.** -/
theorem summarize_concat (records : List TraceRecord) (record : TraceRecord) :
    summarize (records ++ [record]) = some (RunSummary.update ((summarize records).getD
      (.new record.runId record.traceId record.sessionId record.rootSessionId)) record) := by
  rw [summarize, List.getLast?_concat, Option.map_some, Option.some_inj]
  rcases List.eq_nil_or_concat records with rfl | ⟨front, last, rfl⟩
  · have hsession : (if record.sessionId.isEmpty then record.sessionId else record.sessionId) =
        record.sessionId := ite_self _
    exact (update_summaryOf [] record record record.runId record.sessionId hsession).symm
  · have hhead : ((front ++ [last]) ++ [record]).head? = (front ++ [last]).head? := by
      rw [List.head?_append_of_ne_nil _ (by simp)]
    rw [List.concat_eq_append, summarize, List.getLast?_concat, Option.map_some, Option.getD_some]
    have hupdate := update_summaryOf (front ++ [last]) last record
      (summaryOf (front ++ [last]) last).runId (sessionOf (front ++ [last])) rfl
    refine Eq.trans ?_ hupdate.symm
    simp only [summaryOf, hhead]

end Concat

/-! ## What is read back -/

namespace RunSummary

variable (summary : RunSummary)

lemma depthItems_texts (texts : List (List Char)) :
    depthItems (texts.map (Json.str (χ := Char))) = 0 := by
  induction texts with
  | nil => rfl
  | cons text texts ih =>
    rw [List.map_cons, depthItems, ih]
    rfl

lemma readList_texts (texts : List (List Char)) :
    readList asStr (.arr (texts.map (Json.str (χ := Char)))) = some texts :=
  mapM_map fun _ _ => rfl

lemma depth_fields : depth (objOf summary.fields) ≤ recursionLimit := by
  have htext (text : Option (List Char)) : depth (optionJson (Json.str (χ := Char)) text) = 0 :=
    depth_optionJson (fun _ => rfl) text
  have hnumber (n : Option UInt64) : depth (optionJson
      (fun n : UInt64 => Json.num (χ := Char) (.ofInt n.toNat)) n) = 0 :=
    depth_optionJson (fun _ => rfl) n
  simp only [objOf, fields, List.map_cons, List.map_nil, depth, depthFields, htext, hnumber,
    depthItems_texts, recursionLimit]
  omega

lemma decode_fields : decode (fun key => some (summary.fields.lookup key)) = some summary := by
  have hread : ∀ value : List Char, asStr (Json.str value) = some value := fun _ => rfl
  have htext (text : Option (List Char)) :
      readOption asStr (optionJson (Json.str (χ := Char)) text) = some text :=
    readOption_optionJson hread (by simp) text
  have hnumber (n : Option UInt64) : readOption readUInt64 (optionJson
      (fun n : UInt64 => Json.num (χ := Char) (.ofInt n.toNat)) n) = some n :=
    readOption_optionJson readUInt64_num (by simp) n
  simp only [decode, fields, requireField, readField, List.lookup_cons, String.reduceBEq, asStr,
    htext, hnumber, readUInt64_num, readList_texts, Option.bind_eq_bind, Option.bind_some]
  rfl

/-- A summary reads back from its text. -/
theorem fromStr_toStringPretty : fromStr summary.toStringPretty = some summary := by
  have hnodup : (summary.fields.map Prod.fst).Nodup := by
    simp only [fields, List.map_cons, List.map_nil]
    decide
  rw [fromStr, toStringPretty, parse_pretty _ summary.depth_fields, Option.bind_some,
    readRecord_objOf hnodup, decode_fields]

/-- A part of the text of a summary is no summary. -/
lemma fromStr_take {n : Nat} (hn : n < summary.toStringPretty.length) :
    fromStr (summary.toStringPretty.take n) = none := by
  have hcut : parse (summary.toStringPretty.take n) = none :=
    parse_eq_none_of_cut summary.depth_fields hn
  rw [fromStr, hcut, Option.bind_none]

end RunSummary

lemma readTexts_render (texts : List (List Char)) :
    readTexts (render (.arr (texts.map .str))) = texts := by
  have hdepth : depth (Json.arr (texts.map (Json.str (χ := Char)))) ≤ recursionLimit := by
    rw [depth, RunSummary.depthItems_texts, recursionLimit]
    omega
  rw [readTexts, parse_render _ hdepth, Option.bind_some, RunSummary.readList_texts,
    Option.getD_some]

/-- A summary reads back from its row. -/
theorem rowToRunSummary_row (summary : RunSummary) : rowToRunSummary summary.row = summary := by
  have hnumber (n : Option UInt64) : (n.map UInt64.toInt64).map Int64.toUInt64 = n := by
    rcases n with - | n <;> rfl
  simp only [rowToRunSummary, RunSummary.row, hnumber, readTexts_render, UInt64.toUInt64_toInt64]

/-! ## The stores as ledgers -/

/-- What can be read of a file. -/
def readSummary (content : List UInt8) : Option RunSummary :=
  (Utf8.decode content).bind RunSummary.fromStr

lemma readSummary_take (summary : RunSummary) (n : ℕ) :
    readSummary ((encode summary.toStringPretty).take n) =
      if (encode summary.toStringPretty).length ≤ n then some summary else none := by
  rw [readSummary]
  split
  · next hwhole =>
    rw [List.take_of_length_le hwhole, decode_encode, Option.bind_some,
      RunSummary.fromStr_toStringPretty]
  · next hcut =>
    cases hread : Utf8.decode ((encode summary.toStringPretty).take n) with
    | none => rfl
    | some text =>
      obtain ⟨m, hm, rfl⟩ := decode_take (Nat.lt_of_not_le hcut) hread
      rw [Option.bind_some, RunSummary.fromStr_take summary hm]

/-- The summaries of the runs, as values with a saved copy. -/
def summaries : Folding (List Char) TraceRecord RunSummary (List UInt8) where
  key := TraceRecord.runId
  first record := .new record.runId record.traceId record.sessionId record.rootSessionId
  next := RunSummary.update
  save summary := encode summary.toStringPretty
  load := readSummary
  cut content n := content.take n
  whole content n := content.length ≤ n
  load_cut summary n := by simp [readSummary_take]

/-- The value of some records is their summary. -/
lemma fold_summaries (records : List TraceRecord) : summaries.fold records = summarize records := by
  induction records using List.reverseRecOn with
  | nil => rfl
  | append_singleton records record ih =>
    rw [Folding.fold_concat, summarize_concat, ih]
    rfl

/-- The records that the summaries of a run come from: the one in memory, the one in the file and
the one in the index. -/
structure RunLedger extends Ledger TraceRecord where
  indexed : List TraceRecord := []

def BusEvent.label : BusEvent → Label TraceRecord
  | .update record write _ => .item record write
  | .restart => .restart

def RunLedger.step (runId : List Char) (l : RunLedger) (event : BusEvent) : RunLedger :=
  let next := summaries.record runId l.toLedger event.label
  match event with
  | .update record _ true => ⟨next, if record.runId = runId then next.kept else l.indexed⟩
  | _ => ⟨next, l.indexed⟩

/-- The ledger of a run after some events. -/
def runLedger (runId : List Char) (events : List BusEvent) : RunLedger :=
  events.foldl (RunLedger.step runId) {}

/-- The records of a run, as they came. -/
def recorded (runId : List Char) (events : List BusEvent) : List TraceRecord :=
  summaries.items runId (events.map BusEvent.label)

namespace SummaryStore

def store (s : SummaryStore) : Savepoint.Store (List Char) RunSummary (List UInt8) :=
  ⟨s.cache, s.files⟩

/-- The summary in memory, the one in the file and the one in the index are those of the records in
the ledger. -/
structure Keeps (s : SummaryStore) (runId : List Char) (l : RunLedger) : Prop where
  agrees : summaries.Agrees s.store runId l.toLedger
  row : (s.rows runId).map rowToRunSummary = summarize l.indexed
  named : ∀ record ∈ l.kept, record.runId = runId

variable {s : SummaryStore} {runId : List Char} {l : RunLedger} {record : TraceRecord}

lemma loadSummary_eq : s.loadSummary runId = summaries.loaded s.store runId :=
  Option.bind_assoc _ _ _

/-- The summary with a record is the value of the records with one more. -/
lemma update_eq_add : RunSummary.update ((s.cache record.runId).getD <|
      (s.loadSummary record.runId).getD <|
      .new record.runId record.traceId record.sessionId record.rootSessionId) record =
    summaries.add (summaries.value s.store record.runId) record := by
  rw [Folding.add, Folding.value, loadSummary_eq]
  show _ = RunSummary.update (((s.cache record.runId).or _).getD _) record
  cases s.cache record.runId <;> rfl

/-- It keeps the name of the run. -/
lemma runId_add (h : s.Keeps record.runId l) :
    (summaries.add (summaries.value s.store record.runId) record).runId = record.runId := by
  have hadd : summarize (l.kept ++ [record]) =
      some (summaries.add (summaries.value s.store record.runId) record) := by
    rw [← fold_summaries, Folding.fold_concat, h.agrees.value]
  rw [summarize, List.getLast?_concat, Option.map_some, Option.some_inj] at hadd
  rw [← hadd, summaryOf]
  cases hkept : l.kept with
  | nil => rfl
  | cons first rest => exact h.named first (hkept ▸ List.mem_cons_self)

/-- The bus does what is to be done with a value that has a saved copy. -/
lemma store_step (h : ∀ runId, ∃ l, s.Keeps runId l) (event : BusEvent) :
    (s.step event).store = summaries.step s.store event.label := by
  cases event with
  | restart => rfl
  | update record write indexed =>
    obtain ⟨l, hl⟩ := h record.runId
    have hrunId := runId_add hl
    simp only [step, updateSummary, update_eq_add, hrunId]
    cases write <;> rfl

lemma toLedger_step (event : BusEvent) :
    (l.step runId event).toLedger = summaries.record runId l.toLedger event.label := by
  unfold RunLedger.step
  split <;> rfl

lemma toLedger_runLedger (events : List BusEvent) :
    (runLedger runId events).toLedger = summaries.ledger runId (events.map BusEvent.label) := by
  induction events using List.reverseRecOn with
  | nil => rfl
  | append_singleton events event ih =>
    rw [List.map_append, List.map_singleton, Folding.ledger_concat, ← ih, ← toLedger_step]
    rw [runLedger, List.foldl_append]
    rfl

/-- The ledger has only records of its run. -/
lemma runId_of_mem_kept {events : List BusEvent} (h : record ∈ (runLedger runId events).kept) :
    record.runId = runId := by
  rw [toLedger_runLedger] at h
  exact Folding.key_of_mem_items
    ((Folding.saved_prefix_and_sublist (events.map BusEvent.label)).2.subset h)

lemma Keeps.step (h : s.Keeps runId l) (hall : ∀ runId, ∃ l, s.Keeps runId l) (event : BusEvent)
    (hnamed : ∀ record ∈ (l.step runId event).kept, record.runId = runId) :
    (s.step event).Keeps runId (l.step runId event) := by
  refine ⟨?_, ?_, hnamed⟩
  · rw [store_step hall, toLedger_step]
    exact h.agrees.step event.label
  · cases event with
    | restart => exact h.row
    | update record write indexed =>
      cases indexed with
      | false => exact h.row
      | true =>
        obtain ⟨l', hl'⟩ := hall record.runId
        have hrunId := runId_add hl'
        simp only [SummaryStore.step, updateSummary, update_eq_add, hrunId, if_true,
          RunLedger.step]
        by_cases hrun : record.runId = runId
        · subst hrun
          have hrecord : summaries.record record.runId l.toLedger (.item record write) =
              summaries.entry l.toLedger record write := if_pos rfl
          rw [Function.update_self, Option.map_some, rowToRunSummary_row, if_pos rfl,
            BusEvent.label, hrecord, Folding.kept_entry, ← fold_summaries, Folding.fold_concat,
            h.agrees.value]
        · rw [Function.update_of_ne (Ne.symm hrun), if_neg hrun]
          exact h.row

/-- **The stores keep to the ledgers.** -/
theorem keeps_replay (events : List BusEvent) (runId : List Char) :
    (replay events).Keeps runId (runLedger runId events) := by
  induction events using List.reverseRecOn generalizing runId with
  | nil => exact ⟨Folding.agrees_empty, rfl, fun record hrecord => by cases hrecord⟩
  | append_singleton events event ih =>
    have hnamed : ∀ record ∈ (runLedger runId (events ++ [event])).kept, record.runId = runId :=
      fun record hrecord => runId_of_mem_kept hrecord
    rw [runLedger, List.foldl_append] at hnamed
    rw [replay, runLedger, List.foldl_append, List.foldl_append]
    exact (ih runId).step (fun other => ⟨_, ih other⟩) event hnamed

/-! ### What is read -/

/-- Whoever asks for a run gets the summary of the records that the row comes from, and when there is
no row that of the records that the file comes from. -/
theorem getRun_replay (events : List BusEvent) (readable : Bool) (runId : List Char) :
    (replay events).getRun readable runId =
      if readable ∧ (runLedger runId events).indexed ≠ [] then
        summarize (runLedger runId events).indexed
      else summarize (runLedger runId events).saved := by
  have hkeeps := keeps_replay events runId
  have hsaved : (replay events).loadSummary runId =
      summarize (runLedger runId events).saved := by
    rw [loadSummary_eq, hkeeps.agrees.loaded, fold_summaries]
  have hsome (records : List TraceRecord) (hrecords : records ≠ []) :
      (summarize records).isSome := by
    rw [summarize, Option.isSome_map, List.getLast?_isSome]
    exact hrecords
  rw [getRun, hsaved]
  cases readable with
  | false => rfl
  | true =>
    rw [if_pos rfl, hkeeps.row]
    by_cases hindexed : (runLedger runId events).indexed = []
    · rw [hindexed, if_neg fun h => h.2 rfl]
      rfl
    · obtain ⟨summary, hsummary⟩ := Option.isSome_iff_exists.mp (hsome _ hindexed)
      rw [if_pos ⟨rfl, hindexed⟩, hsummary, Option.some_or]

/-- The summary that the next record of a run is added to. -/
def current (s : SummaryStore) (runId : List Char) : Option RunSummary :=
  (s.cache runId).or (s.loadSummary runId)

lemma current_replay (events : List BusEvent) (runId : List Char) :
    (replay events).current runId = summarize (runLedger runId events).kept := by
  have hvalue := (keeps_replay events runId).agrees.value
  rwa [fold_summaries, Folding.value, ← loadSummary_eq] at hvalue

/-- The bus is not started again when it has failed to write the last summary of the run. -/
def Lossless (runId : List Char) (events : List BusEvent) : Prop :=
  summaries.Lossless runId (events.map BusEvent.label)

lemma totalEvents_of_summarize {records : List TraceRecord} {summary : RunSummary}
    (h : summarize records = some summary) : summary.totalEvents = .ofNat records.length := by
  obtain ⟨last, -, rfl⟩ := Option.map_eq_some_iff.mp h
  rw [summaryOf, countOf, List.countP_true]

/-- Summaries of as many records as can be counted differ when one of them has fewer. -/
lemma length_eq_of_summarize {records others : List TraceRecord}
    (h : summarize records = summarize others) (hrecords : records.length < 2 ^ 64)
    (hothers : others.length < 2 ^ 64) : records.length = others.length := by
  cases hsummary : summarize others with
  | none =>
    rw [hsummary, ← fold_summaries, Folding.fold_eq_none_iff] at h
    rw [← fold_summaries, Folding.fold_eq_none_iff] at hsummary
    rw [h, hsummary]
  | some summary =>
    have htotal := totalEvents_of_summarize (h.trans hsummary)
    rw [totalEvents_of_summarize hsummary] at htotal
    have hnumber := congrArg UInt64.toNat htotal
    rw [UInt64.toNat_ofNat_of_lt' hothers, UInt64.toNat_ofNat_of_lt' hrecords] at hnumber
    exact hnumber.symm

/-- The summary of a run is that of all its records exactly when the bus was never started again
behind a write that had failed. -/
theorem current_eq_summarize_iff (events : List BusEvent) (runId : List Char)
    (hcount : (recorded runId events).length < 2 ^ 64) :
    (replay events).current runId = summarize (recorded runId events) ↔
      Lossless runId events := by
  rw [current_replay, Lossless, ← Folding.kept_eq_items_iff, toLedger_runLedger]
  have hsublist := (Folding.saved_prefix_and_sublist (F := summaries) (k := runId)
    (events.map BusEvent.label)).2
  constructor
  · intro h
    apply hsublist.eq_of_length
    exact length_eq_of_summarize h (hsublist.length_le.trans_lt hcount) hcount
  · exact fun h => congrArg summarize h

/-! A restart behind a file that was not opened. -/

def firstRecord : TraceRecord where
  schemaVersion := currentSchemaVersion
  recordId := "trc_1".toList
  traceId := "trace".toList
  runId := "run".toList
  spanId := none
  parentSpanId := none
  sessionId := "session".toList
  taskId := none
  turnId := none
  iteration := none
  actor := .mainAgent
  kind := .event
  name := "run_started".toList
  status := .running
  tsUnixMs := 1
  durationMs := none
  level := .normal
  summary := none
  attrs := noAttrs

def forgottenStart : List BusEvent :=
  [.update firstRecord .unopened true, .restart,
    .update { firstRecord with name := "run_finished".toList, status := .ok } (.written 0) true]

theorem current_eq_summarize_iff_forgotten :
    (replay forgottenStart).current "run".toList ≠
      summarize (recorded "run".toList forgottenStart) := by
  have hcount : (recorded "run".toList forgottenStart).length < 2 ^ 64 := by decide
  rw [Ne, current_eq_summarize_iff forgottenStart "run".toList hcount]
  intro h
  have hkept := h [.item firstRecord .unopened] _ rfl
  cases hkept

end SummaryStore

end RustyClaw.Trace
