import RustyClaw.Library.JsonNesting
import RustyClaw.Library.LineLog
import RustyClaw.Trace.Record

/-!
# The event log of a session

`event_log.rs` writes every event of a session as a line of JSON to the end of `events.jsonl`.  The
appends of one log take turns, but an append can end early: a write fails, or the task that appends
is dropped while it waits for one.  What has reached the file of its line stays there, and the next
event goes on behind it.

`readAll_run` says what `read_all` finds after any appends, each of which may have ended anywhere.
It finds the events whose text is complete and alone on its line, as they were appended but for the
numbers in their payload.  So an event that was cut takes the next one with it, and no more.  It
finds nothing at all when an append has ended inside of a character, whatever else is in the file.
-/

namespace RustyClaw.Events

open Glyph Json LineLog
open RustyClaw.Trace (depth_optionJson currentSchemaVersion)

/-! ## Events -/

structure AgentEvent where
  schemaVersion : UInt32
  eventId : List Char
  eventType : List Char
  sessionId : List Char
  taskId : Option (List Char)
  turnId : Option (List Char)
  timestamp : UInt64
  payload : Value Char

/-- `AgentEvent::new`, for a fresh id and the time on the clock. -/
def AgentEvent.new (uuid : List Char) (timestamp : UInt64) (eventType sessionId : List Char)
    (taskId turnId : Option (List Char)) (payload : Value Char) : AgentEvent where
  schemaVersion := currentSchemaVersion
  eventId := "evt_".toList ++ uuid
  eventType
  sessionId
  taskId
  turnId
  timestamp
  payload

namespace AgentEvent

def fields (event : AgentEvent) : List (String × Json Char) :=
  [("schema_version", .num (.ofInt event.schemaVersion.toNat)),
    ("event_id", .str event.eventId),
    ("event_type", .str event.eventType),
    ("session_id", .str event.sessionId),
    ("task_id", optionJson .str event.taskId),
    ("turn_id", optionJson .str event.turnId),
    ("timestamp", .num (.ofInt event.timestamp.toNat)),
    ("payload", event.payload.json)]

/-- `serde_json::to_string`. -/
def jsonLine (event : AgentEvent) : List Char := render (objOf event.fields)

section Reading

variable (number : NumLit Char → Option (NumLit Char))

def decode (field : Lookup Char) : Option AgentEvent := do
  let schemaVersion ← requireField field "schema_version" Trace.readUInt32
  let eventId ← requireField field "event_id" asStr
  let eventType ← requireField field "event_type" asStr
  let sessionId ← requireField field "session_id" asStr
  let taskId ← readField field "task_id" none (readOption asStr)
  let turnId ← readField field "turn_id" none (readOption asStr)
  let timestamp ← requireField field "timestamp" readUInt64
  let payload ← requireField field "payload" (readValue number)
  return { schemaVersion, eventId, eventType, sessionId, taskId, turnId, timestamp, payload }

/-- `serde_json::from_str`. -/
def fromStr (line : List Char) : Option AgentEvent :=
  (parse line).bind <| readRecord ["schema_version", "event_id", "event_type", "session_id",
    "task_id", "turn_id", "timestamp", "payload"] (decode number)

/-- A line of the log: what is blank or does not parse is passed over. -/
def readLine (line : List Char) : Option AgentEvent :=
  let line := trim line
  if line.isEmpty then none else fromStr number line

/-- An event as it is read back: its payload has the numbers that the parser makes of those that
were written, and it must not nest too deep. -/
def reread (event : AgentEvent) : Option AgentEvent :=
  if depth event.payload.json < recursionLimit then
    (readValue number event.payload.json).map fun payload => { event with payload }
  else none

end Reading

/-! ### What is read back -/

variable {number : NumLit Char → Option (NumLit Char)} {event : AgentEvent}

lemma depth_fields (event : AgentEvent) :
    depth (objOf event.fields) = depth event.payload.json + 1 := by
  have htext : ∀ text, depth (optionJson (Json.str (χ := Char)) text) = 0 :=
    depth_optionJson fun _ => rfl
  simp [objOf, fields, depth, depthFields, htext]

lemma nodup_fields (event : AgentEvent) : (event.fields.map Prod.fst).Nodup := by
  simp only [fields, List.map_cons, List.map_nil]
  decide

lemma decode_fields (event : AgentEvent) :
    decode number (fun key => some (event.fields.lookup key)) =
      (readValue number event.payload.json).map fun payload => { event with payload } := by
  have htext : ∀ text, readOption asStr (optionJson (Json.str (χ := Char)) text) = some text :=
    readOption_optionJson (fun _ => rfl) (by simp)
  have hversion := Trace.readUInt32_num event.schemaVersion
  have htimestamp := readUInt64_num (χ := Char) event.timestamp
  cases hpayload : readValue number event.payload.json with
  | none =>
    simp [decode, fields, requireField, readField, List.lookup_cons, asStr, htext, hversion,
      htimestamp, hpayload]
  | some payload =>
    simp [decode, fields, requireField, readField, List.lookup_cons, asStr, htext, hversion,
      htimestamp, hpayload]

lemma fromStr_jsonLine (event : AgentEvent) : fromStr number event.jsonLine = event.reread number := by
  rw [fromStr, jsonLine, parse_render_eq, depth_fields, reread]
  split_ifs
  · rw [Option.bind_some, readRecord_objOf (nodup_fields event), decode_fields]
  · omega
  · omega
  · rfl

lemma framed_jsonLine (event : AgentEvent) : Framed event.jsonLine := by
  have hkey : (Glyph.str "schema_version" : List Char) = 's' :: "chema_version".toList := by decide
  show Framed (render (.obj ((Glyph.str "schema_version", _) :: _)))
  rw [hkey]
  exact framed_render (by decide) _ _

lemma onOneLine_jsonLine (event : AgentEvent) : OnOneLine event.jsonLine := by
  intro c hc hnewline
  have hprintable : 0x20 ≤ (chr c).toNat := printable_render _ c hc
  rw [hnewline] at hprintable
  exact absurd hprintable (by decide)

lemma readLine_jsonLine (event : AgentEvent) :
    readLine number event.jsonLine = event.reread number := by
  obtain ⟨inner, hline, -⟩ := (framed_jsonLine event).object
  have htrim : trim event.jsonLine = event.jsonLine := by
    rw [hline, trim, Text.trim, List.cons_append, List.dropWhile_cons_of_neg (by decide),
      ← List.cons_append, List.rdropWhile_concat_neg _ _ _ (by decide)]
  have hne : event.jsonLine.isEmpty = false := by
    rw [hline]
    rfl
  rw [readLine, htrim, hne, if_neg Bool.false_ne_true, fromStr_jsonLine]

/-- The lines of the log, and what `read_all` makes of a line. -/
def format (number : NumLit Char → Option (NumLit Char)) : Format AgentEvent AgentEvent where
  text := jsonLine
  read := readLine number
  text_ne_nil event := by
    obtain ⟨inner, hline, -⟩ := (framed_jsonLine event).object
    rw [hline]
    exact List.cons_ne_nil _ _
  onOneLine := onOneLine_jsonLine
  getLast?_ne event := by
    obtain ⟨inner, hline, -⟩ := (framed_jsonLine event).object
    rw [hline, List.getLast?_concat]
    decide
  eq_of_isPrefix event event' h := (framed_jsonLine event).eq_of_isPrefix (framed_jsonLine event') h
  read_nil := rfl
  read_torn pieces hne hpieces hsingle := by
    have hall : ∀ piece ∈ pieces, Piece piece := fun piece hmem => by
      obtain ⟨hpiece, event, hprefix⟩ := hpieces piece hmem
      exact ⟨hpiece, event.jsonLine, framed_jsonLine event, hprefix⟩
    obtain ⟨pieces', htrim, hne', hall', hsingle'⟩ := exists_pieces_trim hall hne
    have htorn : parse pieces'.flatten = none := by
      refine parse_torn hall' hne' fun text htext heq => ?_
      have hpieces' := hsingle' text htext heq
      obtain ⟨-, event, hprefix⟩ := hpieces text (by simp [hpieces'])
      exact hsingle event (htext.eq_of_isPrefix (framed_jsonLine event) hprefix ▸ hpieces')
    rw [readLine, htrim, fromStr, htorn]
    split_ifs <;> rfl

@[simp] lemma text_format (event : AgentEvent) : (format number).text event = event.jsonLine := rfl

@[simp] lemma read_format (line : List Char) : (format number).read line = readLine number line := rfl

end AgentEvent

/-! ## The log -/

/-- The file, and whether this log has opened it. -/
structure EventLog where
  writer : Bool := false
  file : Option (List UInt8) := none

/-- A call of `append`: the event, whether the file can be opened if it has to be, and how many
bytes of the line get into the file before the append ends. -/
structure Attempt where
  event : AgentEvent
  opens : Bool
  written : ℕ

inductive Move where
  | append (attempt : Attempt)
  /-- The next process goes on with the file. -/
  | new

namespace EventLog

def new (log : EventLog) : EventLog := { log with writer := false }

/-- The file is created when it is not there, and it is opened for appending. -/
def ensureWriter (log : EventLog) (opens : Bool) : Option EventLog :=
  if log.writer then some log
  else if opens then some { writer := true, file := some (log.file.getD []) }
  else none

def append (log : EventLog) (attempt : Attempt) : EventLog :=
  match log.ensureWriter attempt.opens with
  | none => log
  | some log =>
    let line := Utf8.encode (attempt.event.jsonLine ++ ['\n'])
    { log with file := some (log.file.getD [] ++ line.take attempt.written) }

/-- There are no events when there is no file.  A line that is not UTF-8 ends the reading with an
error. -/
def readAll (number : NumLit Char → Option (NumLit Char)) (log : EventLog) :
    Option (List AgentEvent) :=
  match log.file with
  | none => some []
  | some content =>
    (Utf8.decode content).map fun text => (lines text).filterMap (AgentEvent.readLine number)

def step (log : EventLog) : Move → EventLog
  | .append attempt => log.append attempt
  | .new => log.new

def run (moves : List Move) : EventLog := moves.foldl step {}

end EventLog

/-! ## What is read of a run -/

/-- The appends that get as far as the file. -/
def reached (writer : Bool) : List Move → List (Entry AgentEvent)
  | [] => []
  | .append attempt :: moves =>
    if writer || attempt.opens then ⟨attempt.event, attempt.written⟩ :: reached true moves
    else reached writer moves
  | .new :: moves => reached false moves

variable (number : NumLit Char → Option (NumLit Char))

lemma readAll_eq (log : EventLog) :
    log.readAll number = (AgentEvent.format number).readAll (log.file.getD []) := by
  rw [EventLog.readAll]
  cases log.file with
  | none => rfl
  | some content => rfl

lemma file_foldl (moves : List Move) (log : EventLog) :
    (moves.foldl EventLog.step log).file.getD [] =
      log.file.getD [] ++ (AgentEvent.format number).content (reached log.writer moves) := by
  induction moves generalizing log with
  | nil => exact (List.append_nil _).symm
  | cons move moves ih =>
    rw [List.foldl_cons, ih]
    cases move with
    | new => rfl
    | append attempt =>
      rw [EventLog.step, EventLog.append, EventLog.ensureWriter, reached]
      by_cases hwriter : log.writer = true
      · simp [hwriter, Format.content, Format.bytes, Format.line, AgentEvent.format]
      · by_cases hopens : attempt.opens = true
        · simp [hwriter, hopens, Format.content, Format.bytes, Format.line, AgentEvent.format]
        · simp [hwriter, hopens]

/-- The events whose text is complete and alone on its line. -/
def found (moves : List Move) : List AgentEvent :=
  (AgentEvent.format number).survivors true (reached false moves)

/-- **What `read_all` finds after any appends.**  It fails when one of them ended inside of a
character.  Otherwise it finds, in their order, the events that are alone on their lines, and an
append that does not end its line costs at most its own event and the next one. -/
theorem readAll_run (moves : List Move) :
    ((EventLog.run moves).readAll number =
      if (reached false moves).any (AgentEvent.format number).splits then none
      else some ((found number moves).filterMap (AgentEvent.reread number))) ∧
    (found number moves).Sublist ((reached false moves).map Entry.item) ∧
    (reached false moves).length ≤ (found number moves).length +
      2 * (reached false moves).countP fun entry => !(AgentEvent.format number).whole entry := by
  refine ⟨?_, Format.survivors_sublist _ true, Format.length_le_survivors _ true⟩
  have hread : ∀ event, (AgentEvent.format number).read ((AgentEvent.format number).text event) =
      event.reread number := fun event => by
    rw [AgentEvent.text_format, AgentEvent.read_format, AgentEvent.readLine_jsonLine]
  have hcontent := Format.readAll_content (f := AgentEvent.format number) (reached false moves)
  rw [List.filterMap_congr fun event _ => hread event] at hcontent
  rw [readAll_eq, EventLog.run, file_foldl number]
  exact hcontent

end RustyClaw.Events
