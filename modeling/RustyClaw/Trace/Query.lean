import RustyClaw.Library.Arrangement
import RustyClaw.Library.Glyph
import RustyClaw.Trace.Record

/-!
# The journal and the index of the trace

The bus writes every record twice (`trace/bus.rs`, `trace/sqlite.rs`): as a line of the journal of
its run, and as a row of an index.  A write to the index can fail, and nobody is told.  The reader
(`trace/query.rs`) takes the rows of the index, and the journal only when there are no rows.

What a query without a filter should return are the records of the run, in the order in which they
were published and then, by a stable sort, in the order of their time (`Arranged`).  The reader's
test is too coarse for that: one row of a run in the index hides every record of the run that is
only in the journal.  `getRecords_arranged_iff` says when the answer is right.
-/

namespace RustyClaw.Trace

open Glyph Arrangement
open Json hiding str

/-! ## The two stores -/

structure Store where
  /-- The file `<run_id>.jsonl` of each run. -/
  journal : List Char → Option (List Char)
  /-- The table `trace_records`, in the order of the row ids. -/
  rows : List TraceRow

def Store.empty : Store := ⟨fun _ => none, []⟩

/-- `INSERT OR REPLACE INTO trace_records`. -/
def insertRow (rows : List TraceRow) (row : TraceRow) : List TraceRow :=
  rows.filter (fun row' => row'.recordId != row.recordId) ++ [row]

/-- The line is appended; `indexed` says whether the write to the index succeeds. -/
def persistRecord (s : Store) (record : TraceRecord) (indexed : Bool) : Store where
  journal runId :=
    if runId = record.runId then some ((s.journal runId).getD [] ++ (record.line ++ ['\n']))
    else s.journal runId
  rows := if indexed then insertRow s.rows record.row else s.rows

/-- A record that the bus is asked to publish, and what becomes of its row. -/
structure Emission where
  uuid : List Char
  ctx : TraceContext
  actor : TraceActor
  kind : TraceKind
  name : List Char
  status : TraceStatus
  spanId : Option (List Char)
  parentSpanId : Option (List Char)
  tsUnixMs : UInt64
  durationMs : Option UInt64
  summary : Option (List Char)
  attrs : Value Char
  indexed : Bool

def Emission.record (e : Emission) : TraceRecord :=
  buildRecord e.uuid e.ctx e.actor e.kind e.name e.status e.spanId e.parentSpanId e.tsUnixMs
    e.durationMs e.summary e.attrs

def publish (s : Store) (e : Emission) : Store := persistRecord s e.record e.indexed

/-- The stores after a sequence of publications. -/
def replay (emissions : List Emission) : Store := emissions.foldl publish .empty

/-! ## The queries -/

structure RecordQuery where
  actor : Option (List Char) := none
  name : Option (List Char) := none
  status : Option (List Char) := none
  turnId : Option (List Char) := none
  iteration : Option UInt32 := none

/-- A condition of the query that may be left out. -/
def meets {α : Type} (condition : Option α) (holds : α → Bool) : Bool :=
  match condition with
  | none => true
  | some value => holds value

def recordMatches (record : TraceRecord) (query : RecordQuery) : Bool :=
  meets query.actor (fun actor => record.actor.asStr.toList == actor) &&
  meets query.name (fun name => record.name == name) &&
  meets query.status (fun status => record.status.asStr.toList == status) &&
  meets query.turnId (fun turnId => record.turnId == some turnId) &&
  meets query.iteration (fun iteration => record.iteration == some iteration)

def TraceRecord.time (record : TraceRecord) : Nat := record.tsUnixMs.toNat

def TraceRow.time (row : TraceRow) : Int := row.tsUnixMs.toInt

section Reading

variable (number : NumLit Char → Option (NumLit Char))

/-- `SELECT … WHERE run_id = ? ORDER BY ts_unix_ms ASC, rowid ASC`; `readable` says whether the
index can be read. -/
def sqliteRecords (s : Store) (readable : Bool) (runId : List Char) : Option (List TraceRecord) :=
  if readable then
    some ((sortByKey TraceRow.time (s.rows.filter fun row => row.runId == runId)).map
      (rowToTraceRecord number))
  else none

def jsonRecords (s : Store) (runId : List Char) : List TraceRecord :=
  match s.journal runId with
  | none => []
  | some content => (lines content).filterMap (fromJsonStr number)

def getRecords (s : Store) (readable : Bool) (runId : List Char) (query : RecordQuery) :
    List TraceRecord :=
  let indexed := (sqliteRecords number s readable runId).getD []
  let records := if indexed.isEmpty then jsonRecords number s runId else indexed
  sortByKey TraceRecord.time (records.filter fun record => recordMatches record query)

end Reading

/-! ## What is promised -/

def ofRun (runId : List Char) (emissions : List Emission) : List Emission :=
  emissions.filter fun e => e.ctx.runId == runId

/-- The records of a run, in the order in which they were published. -/
def published (runId : List Char) (emissions : List Emission) : List TraceRecord :=
  (ofRun runId emissions).map Emission.record

/-- The reader does not turn to the journal. -/
def useIndex (readable : Bool) (runId : List Char) (emissions : List Emission) : Bool :=
  readable && (ofRun runId emissions).any Emission.indexed

/-- The store that is read has every record of the run, and each is read as it was published. -/
def Complete (number : NumLit Char → Option (NumLit Char)) (readable : Bool) (runId : List Char)
    (emissions : List Emission) : Prop :=
  if useIndex readable runId emissions then
    ∀ e ∈ ofRun runId emissions,
      e.indexed = true ∧ e.record.ReadsBack number recursionLimit
  else ∀ e ∈ ofRun runId emissions, e.record.ReadsBack number (recursionLimit - 1)

/-! ## What the stores hold -/

section Stores

variable {emissions : List Emission} {runId : List Char}

lemma replay_concat (emissions : List Emission) (e : Emission) :
    replay (emissions ++ [e]) = publish (replay emissions) e := by
  rw [replay, List.foldl_append]
  rfl

/-- Every row that has been written is there, since no id comes twice. -/
lemma rows_replay (h : (emissions.map Emission.uuid).Nodup) :
    (replay emissions).rows = (emissions.filter Emission.indexed).map fun e => e.record.row := by
  induction emissions using List.reverseRecOn with
  | nil => rfl
  | append_singleton emissions e ih =>
    rw [List.map_append, List.nodup_append] at h
    obtain ⟨hbefore, -, hfresh⟩ := h
    rw [replay_concat, List.filter_append, List.map_append, ← ih hbefore]
    by_cases hindexed : e.indexed = true
    · have hkeep : (replay emissions).rows.filter
          (fun row => row.recordId != e.record.row.recordId) = (replay emissions).rows := by
        rw [List.filter_eq_self, ih hbefore]
        intro row hrow
        obtain ⟨e', he', rfl⟩ := List.mem_map.mp hrow
        rw [bne_iff_ne]
        intro hsame
        have huuid : e'.uuid = e.uuid := List.append_cancel_left hsame
        exact hfresh _ (List.mem_map_of_mem (List.mem_filter.mp he').1) _
          (List.mem_singleton_self _) huuid
      rw [publish, persistRecord, if_pos hindexed, insertRow, hkeep,
        List.filter_cons_of_pos hindexed]
      rfl
    · rw [publish, persistRecord, if_neg hindexed, List.filter_cons_of_neg hindexed]
      exact (List.append_nil _).symm

/-- The journal of a run has a line for each of its records. -/
lemma journal_replay (emissions : List Emission) (runId : List Char) :
    ((replay emissions).journal runId).getD [] =
      (published runId emissions).flatMap fun record => record.line ++ ['\n'] := by
  induction emissions using List.reverseRecOn with
  | nil => rfl
  | append_singleton emissions e ih =>
    rw [replay_concat, publish, persistRecord, published, ofRun, List.filter_append,
      List.map_append, List.flatMap_append]
    dsimp only
    by_cases hrun : runId = e.record.runId
    · have hown : [e].filter (fun e => e.ctx.runId == runId) = [e] :=
        List.filter_cons_of_pos (beq_iff_eq.mpr hrun.symm)
      rw [if_pos hrun, Option.getD_some, ih, hown, List.map_singleton, List.flatMap_singleton]
      rfl
    · have hother : [e].filter (fun e => e.ctx.runId == runId) = [] :=
        List.filter_cons_of_neg fun h => hrun (beq_iff_eq.mp h).symm
      rw [if_neg hrun, ih, hother]
      exact (List.append_nil _).symm

lemma recordMatches_default (record : TraceRecord) : recordMatches record {} = true := rfl

variable {number : NumLit Char → Option (NumLit Char)}

lemma newline_not_mem_line (record : TraceRecord) : ∀ c ∈ record.line, chr c ≠ '\n' := by
  intro c hc hnewline
  have hprintable : 0x20 ≤ (chr c).toNat := printable_render _ c hc
  rw [hnewline] at hprintable
  exact absurd hprintable (by decide)

lemma dropReturn_line (record : TraceRecord) : dropReturn record.line = record.line := by
  have hline : record.line = '\x7b' :: renderFields (record.fields.map fun field =>
      (Glyph.str field.1, field.2)) ++ ['\x7d'] := rfl
  rw [hline, dropReturn, List.getLast?_append, List.getLast?_singleton]
  exact if_neg (by decide)

/-- The journal gives what is read from the line of each record. -/
lemma jsonRecords_replay (emissions : List Emission) (runId : List Char) :
    jsonRecords number (replay emissions) runId =
      (ofRun runId emissions).filterMap fun e => fromJsonStr number e.record.line := by
  have hnewline : ∀ text ∈ (published runId emissions).map TraceRecord.line, ∀ c ∈ text,
      chr c ≠ '\n' := by
    intro text htext
    obtain ⟨record, -, rfl⟩ := List.mem_map.mp htext
    exact newline_not_mem_line record
  have hlines := lines_flatMap hnewline
  rw [List.flatMap_map, List.map_map] at hlines
  have hread : (lines (((replay emissions).journal runId).getD [])).filterMap (fromJsonStr number) =
      (ofRun runId emissions).filterMap fun e => fromJsonStr number e.record.line := by
    rw [journal_replay]
    refine (congrArg (List.filterMap (fromJsonStr number)) hlines).trans ?_
    rw [published, List.map_map, List.filterMap_map]
    refine List.filterMap_congr fun e _ => ?_
    simp only [Function.comp_apply, dropReturn_line]
  rw [← hread]
  unfold jsonRecords
  cases (replay emissions).journal runId with
  | none => rfl
  | some content => rfl

/-- The index gives what is read from the row of each record that has one. -/
lemma sqliteRecords_replay (h : (emissions.map Emission.uuid).Nodup) (runId : List Char) :
    sqliteRecords number (replay emissions) true runId =
      some ((sortByKey TraceRow.time (((ofRun runId emissions).filter Emission.indexed).map
        fun e => e.record.row)).map (rowToTraceRecord number)) := by
  have hrows : (replay emissions).rows.filter (fun row => row.runId == runId) =
      ((ofRun runId emissions).filter Emission.indexed).map fun e => e.record.row := by
    rw [rows_replay h, List.filter_map, ofRun, List.filter_filter, List.filter_filter]
    refine congrArg _ (List.filter_congr fun e _ => ?_)
    exact Bool.and_comm _ _
  rw [sqliteRecords, if_pos rfl, hrows]

/-- What the reader makes of a record. -/
def copy (number : NumLit Char → Option (NumLit Char)) (index : Bool) (e : Emission) :
    Option TraceRecord :=
  if index then
    if e.indexed then some (rowToTraceRecord number e.record.row) else none
  else fromJsonStr number e.record.line

lemma time_rowToTraceRecord (row row' : TraceRow) :
    (rowToTraceRecord number row).time = (rowToTraceRecord number row').time ↔
      row.time = row'.time := by
  rw [TraceRecord.time, TraceRecord.time, TraceRow.time, TraceRow.time, UInt64.toNat_inj,
    Int64.toInt_inj]
  constructor
  · intro h
    have hback := congrArg UInt64.toInt64 h
    exact hback
  · intro h
    exact congrArg Int64.toUInt64 h

/-- The rows of a run are there exactly when one of its records has been indexed. -/
lemma isEmpty_sqliteRecords (h : (emissions.map Emission.uuid).Nodup) (readable : Bool)
    (runId : List Char) :
    ((sqliteRecords number (replay emissions) readable runId).getD []).isEmpty =
      !useIndex readable runId emissions := by
  cases readable with
  | false => rfl
  | true =>
    rw [sqliteRecords_replay h, Option.getD_some, List.isEmpty_map, useIndex, Bool.true_and,
      Bool.eq_iff_iff, List.isEmpty_iff, Bool.not_eq_true', List.any_eq_false]
    rw [← List.length_eq_zero_iff, (sortByKey_perm _ _).length_eq, List.length_map,
      List.length_eq_zero_iff, List.filter_eq_nil_iff]

lemma filterMap_copy_index (es : List Emission) :
    es.filterMap (copy number true) =
      ((es.filter Emission.indexed).map fun e => e.record.row).map (rowToTraceRecord number) := by
  rw [List.map_map, ← List.filterMap_eq_filter, List.map_filterMap]
  refine List.filterMap_congr fun e _ => ?_
  by_cases hindexed : e.indexed = true
  · simp [copy, hindexed, Option.guard]
  · simp [copy, hindexed, Option.guard]

/-- The answer is an arrangement of what is read of each record of the run. -/
lemma arranged_getRecords (h : (emissions.map Emission.uuid).Nodup) (readable : Bool)
    (runId : List Char) :
    Arranged TraceRecord.time
      ((ofRun runId emissions).filterMap (copy number (useIndex readable runId emissions)))
      (getRecords number (replay emissions) readable runId {}) := by
  have hfilter : ∀ records : List TraceRecord,
      records.filter (fun record => recordMatches record {}) = records := fun records =>
    List.filter_eq_self.mpr fun record _ => recordMatches_default record
  unfold getRecords
  simp only [hfilter, isEmpty_sqliteRecords h]
  cases hindex : useIndex readable runId emissions with
  | true =>
    obtain rfl : readable = true := Bool.and_elim_left hindex
    rw [if_neg (by decide), sqliteRecords_replay h, Option.getD_some, filterMap_copy_index]
    exact (arranged_sortByKey TraceRow.time _).map time_rowToTraceRecord
  | false =>
    rw [if_pos (by decide), jsonRecords_replay]
    exact arranged_sortByKey TraceRecord.time _

/-! ## When the answer is right -/

lemma recordId_copy {index : Bool} {e : Emission} {record : TraceRecord}
    (h : copy number index e = some record) : record.recordId = e.record.recordId := by
  unfold copy at h
  split_ifs at h
  · obtain rfl := Option.some_inj.mp h
    rfl
  · exact recordId_fromJsonStr_line h

/-- A record is read as it was published when it is in the store and its attributes survive. -/
lemma copy_eq_some_iff (index : Bool) (e : Emission) :
    copy number index e = some e.record ↔
      if index then e.indexed = true ∧ e.record.ReadsBack number recursionLimit
      else e.record.ReadsBack number (recursionLimit - 1) := by
  have hrow : rowToTraceRecord number e.record.row = e.record ↔
      e.record.ReadsBack number recursionLimit :=
    rowToTraceRecord_row_eq_iff rfl (injectRootSession_ne_noAttrs _ _)
  unfold copy
  split_ifs with hindex hindexed
  · rw [Option.some_inj, hrow, and_iff_right hindexed]
  · exact ⟨False.elim, fun h => absurd h.1 hindexed⟩
  · exact fromJsonStr_line_eq_some_iff

/-- A query without a filter returns the records of the run, in the order of their time and of
their publication, exactly when the store that is read is complete.  The ids of the records are
fresh. -/
theorem getRecords_arranged_iff (number : NumLit Char → Option (NumLit Char))
    (emissions : List Emission) (h : (emissions.map Emission.uuid).Nodup) (readable : Bool)
    (runId : List Char) :
    Arranged TraceRecord.time (published runId emissions)
        (getRecords number (replay emissions) readable runId {}) ↔
      Complete number readable runId emissions := by
  have hids : ((ofRun runId emissions).map fun e => e.record.recordId).Nodup := by
    have hown : ((ofRun runId emissions).map Emission.uuid).Nodup :=
      h.sublist (List.filter_sublist.map _)
    have hmap := hown.map (f := fun uuid => "trc_".toList ++ uuid) fun _ _ heq =>
      List.append_cancel_left heq
    rwa [List.map_map] at hmap
  have hcopy : ∀ e ∈ ofRun runId emissions, ∀ record,
      copy number (useIndex readable runId emissions) e = some record →
        record.recordId = e.record.recordId := fun e _ record => recordId_copy
  refine (arranged_filterMap_iff hids hcopy (arranged_getRecords h readable runId)).trans ?_
  unfold Complete
  simp only [copy_eq_some_iff]
  cases useIndex readable runId emissions with
  | true => rfl
  | false => rfl

end Stores

/-! ## A row that is missing -/

section Examples

def someCtx : TraceContext :=
  ⟨"t".toList, "run".toList, "s".toList, "s".toList, none, none, none, none⟩

/-- An event of the one run. -/
def someEvent (uuid : List Char) (ts : UInt64) (indexed : Bool) : Emission :=
  ⟨uuid, someCtx, .mainAgent, .event, "plan_updated".toList, .ok, none, none, ts, none, none,
    noAttrs, indexed⟩

/-- The second write to the index fails. -/
def secondMissing : List Emission :=
  [someEvent "0".toList 1 true, someEvent "1".toList 2 false]

def bothIndexed : List Emission :=
  [someEvent "0".toList 2 true, someEvent "1".toList 1 true]

/-- The second record is in the journal, and the reader does not find it. -/
theorem not_getRecords_arranged :
    ¬ ∀ (number : NumLit Char → Option (NumLit Char)) (emissions : List Emission)
        (readable : Bool) (runId : List Char), (emissions.map Emission.uuid).Nodup →
      Arranged TraceRecord.time (published runId emissions)
        (getRecords number (replay emissions) readable runId {}) := by
  intro h
  have hids : (secondMissing.map Emission.uuid).Nodup := by decide
  have hall := (h some secondMissing true "run".toList hids).perm
  have hread : (getRecords some (replay secondMissing) true "run".toList {}).Perm _ :=
    (arranged_getRecords hids true "run".toList).perm
  have hlength := (hread.symm.trans hall).length_eq
  revert hlength
  decide +kernel

lemma readsBack_someEvent (uuid : List Char) (ts : UInt64) (indexed : Bool) :
    (someEvent uuid ts indexed).record.ReadsBack some recursionLimit := by
  have hdepth : depth (someEvent uuid ts indexed).record.attrs.json = 1 := rfl
  refine ⟨hdepth.le.trans (by decide), readValue_json _ ?_⟩
  exact ⟨trivial, trivial⟩

theorem getRecords_arranged_bothIndexed :
    Arranged TraceRecord.time (published "run".toList bothIndexed)
      (getRecords some (replay bothIndexed) true "run".toList {}) := by
  apply (getRecords_arranged_iff some bothIndexed (by decide) true "run".toList).mpr
  have hown : ofRun "run".toList bothIndexed = bothIndexed :=
    List.filter_eq_self.mpr (by simp [bothIndexed, someEvent, someCtx])
  rw [Complete, if_pos (by decide +kernel), hown, bothIndexed]
  simp only [List.forall_mem_cons, List.not_mem_nil, false_implies, implies_true, and_true]
  exact ⟨⟨rfl, readsBack_someEvent _ _ _⟩, ⟨rfl, readsBack_someEvent _ _ _⟩⟩

end Examples

end RustyClaw.Trace
