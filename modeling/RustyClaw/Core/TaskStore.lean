import RustyClaw.Core.TaskState
import RustyClaw.Library.JsonCut
import RustyClaw.Library.JsonValue
import RustyClaw.Tools.Envelope

/-!
# The file of the task

`TaskStateStore` keeps the snapshot of the task as JSON text in a file of its session.  A snapshot
is loaded as the empty one when there is no file or when the file holds no JSON text of a snapshot,
and it is saved by `fs::write`, which makes the file empty before it writes: a save that fails on
its way leaves the beginning of the text, and the last character of it may be cut in the middle.

What is saved as a whole is loaded again (`load_whole`); what is cut is as good as no file at all
(`load_cut`).
-/

namespace RustyClaw

open Glyph
open Json hiding str

/-! ## The snapshot and its text -/

/-- `TaskStateSnapshot` with the fields that only the store looks at. -/
structure StoredTaskState extends TaskStateSnapshot where
  schemaVersion : UInt32 := 1
  derivedFromEventId : Option (List Char) := none
  derivedAt : UInt64 := 0
  deriving DecidableEq

def StoredTaskState.empty : StoredTaskState := { toTaskStateSnapshot := .empty }

def PlanStep.fields (step : PlanStep) : List (String × Json Char) :=
  [("step", .str step.step), ("status", .str step.status), ("note", optionJson .str step.note)]

def decodePlanStep (field : Lookup Char) : Option PlanStep := do
  let step ← requireField field "step" asStr
  let status ← requireField field "status" asStr
  let note ← readField field "note" none (readOption asStr)
  return { step, status, note }

def readPlanStep : Json Char → Option PlanStep :=
  readRecord ["step", "status", "note"] decodePlanStep

def readUInt32 (value : Json Char) : Option UInt32 :=
  match asInt value with
  | some i => if 0 ≤ i ∧ i < 2 ^ 32 then some (.ofNat i.toNat) else none
  | none => none

namespace StoredTaskState

def fields (state : StoredTaskState) : List (String × Json Char) :=
  [("schema_version", .num (.ofInt state.schemaVersion.toNat)),
    ("task_id", optionJson .str state.taskId),
    ("derived_from_event_id", optionJson .str state.derivedFromEventId),
    ("derived_at", .num (.ofInt state.derivedAt.toNat)),
    ("status", .str state.status),
    ("goal", optionJson .str state.goal),
    ("current_step", optionJson .str state.currentStep),
    ("finish_summary", optionJson .str state.finishSummary),
    ("plan_steps", .arr (state.planSteps.map fun step => objOf step.fields))]

def decode (field : Lookup Char) : Option StoredTaskState := do
  let schemaVersion ← requireField field "schema_version" readUInt32
  let taskId ← readField field "task_id" none (readOption asStr)
  let derivedFromEventId ← readField field "derived_from_event_id" none (readOption asStr)
  let derivedAt ← requireField field "derived_at" readUInt64
  let status ← requireField field "status" asStr
  let goal ← readField field "goal" none (readOption asStr)
  let currentStep ← readField field "current_step" none (readOption asStr)
  let finishSummary ← readField field "finish_summary" none (readOption asStr)
  let planSteps ← requireField field "plan_steps" (readList readPlanStep)
  return { schemaVersion, taskId, derivedFromEventId, derivedAt, status, goal, currentStep,
           finishSummary, planSteps }

/-- `serde_json::to_string_pretty`. -/
def toStringPretty (state : StoredTaskState) : List Char := pretty 0 (objOf state.fields)

/-- `serde_json::from_str`. -/
def fromStr (content : List Char) : Option StoredTaskState :=
  (parse content).bind
    (readRecord ["schema_version", "task_id", "derived_from_event_id", "derived_at", "status",
      "goal", "current_step", "finish_summary", "plan_steps"] decode)

/-! ### The round trip -/

lemma readOption_text (text : Option (List Char)) :
    readOption asStr (optionJson .str text) = some text := by
  have hread : ∀ value : List Char, asStr (Json.str value) = some value := fun _ => rfl
  exact readOption_optionJson hread (by simp) text

lemma readPlanStep_fields (step : PlanStep) : readPlanStep (objOf step.fields) = some step := by
  have hnodup : (step.fields.map Prod.fst).Nodup := by simp [PlanStep.fields]
  unfold readPlanStep
  rw [readRecord_objOf hnodup]
  simp [decodePlanStep, PlanStep.fields, requireField, readField, List.lookup_cons, asStr,
    readOption_text]

lemma readUInt32_num (n : UInt32) : readUInt32 (.num (.ofInt n.toNat)) = some n := by
  have hlt := n.toNat_lt
  simp only [readUInt32, asInt, NumLit.toInt_ofInt]
  rw [if_pos (by omega)]
  simp

lemma decode_fields (state : StoredTaskState) :
    decode (fun key => some (state.fields.lookup key)) = some state := by
  have hsteps : (state.planSteps.map fun step => objOf step.fields).mapM readPlanStep =
      some state.planSteps := mapM_map fun step _ => readPlanStep_fields step
  simp [decode, fields, requireField, readField, List.lookup_cons, asStr, readOption_text,
    readUInt32_num, readUInt64_num, readList, hsteps]

lemma depth_optionJson (text : Option (List Char)) :
    depth (optionJson (Json.str (χ := Char)) text) = 0 := by
  cases text <;> rfl

lemma depth_planStep (step : PlanStep) : depth (objOf step.fields) = 1 := by
  simp [objOf, PlanStep.fields, depth, depthFields, depth_optionJson]

lemma depth_fields (state : StoredTaskState) : depth (objOf state.fields) ≤ recursionLimit := by
  have hsteps : depthItems (state.planSteps.map fun step => objOf step.fields) ≤ 1 := by
    induction state.planSteps with
    | nil => simp [depthItems]
    | cons step steps ih =>
      rw [List.map_cons, depthItems, depth_planStep]
      exact Nat.max_le.mpr ⟨Nat.le_refl 1, ih⟩
  unfold fields recursionLimit
  generalize state.planSteps.map (fun step => objOf step.fields) = items at hsteps
  simp only [objOf, List.map_cons, List.map_nil, depth, depthFields, depth_optionJson]
  omega

/-- A snapshot reads back from its text. -/
theorem fromStr_toStringPretty (state : StoredTaskState) :
    fromStr state.toStringPretty = some state := by
  have hnodup : (state.fields.map Prod.fst).Nodup := by simp [fields]
  rw [fromStr, toStringPretty, parse_pretty _ state.depth_fields, Option.bind_some,
    readRecord_objOf hnodup, decode_fields]

end StoredTaskState

/-! ## The store -/

/-- What is in the place of the file. -/
inductive TaskStateFile where
  | missing
  | content (text : List Char)
  /-- bytes that are no UTF-8 -/
  | garbled
  deriving DecidableEq

/-- How a save ends. -/
inductive Save where
  | whole
  /-- the directory is not made or the file is not opened -/
  | untouched
  /-- the first characters of the text are written; `torn` when some bytes of the next one are -/
  | cut (written : Nat) (torn : Bool)
  deriving DecidableEq

namespace TaskStateStore

/-- `TaskStateStore::load`; `none` is an error. -/
def load : TaskStateFile → Option StoredTaskState
  | .missing => some .empty
  | .content text => some ((StoredTaskState.fromStr text).getD .empty)
  | .garbled => none

/-- `TaskStateStore::save`; `none` when the save cannot end like this. -/
def save (file : TaskStateFile) (state : StoredTaskState) : Save → Option TaskStateFile
  | .whole => some (.content state.toStringPretty)
  | .untouched => some file
  | .cut written torn =>
    match state.toStringPretty[written]? with
    | some c =>
      if torn then if 1 < c.utf8Size then some .garbled else none
      else some (.content (state.toStringPretty.take written))
    | none => none

/-- `load().unwrap_or_else(|_| TaskStateSnapshot::empty())`. -/
def current (file : TaskStateFile) : StoredTaskState := (load file).getD .empty

variable {file file' : TaskStateFile} {state : StoredTaskState}

theorem load_whole (h : save file state .whole = some file') : load file' = some state := by
  cases h
  simp [load, StoredTaskState.fromStr_toStringPretty]

lemma current_whole (h : save file state .whole = some file') : current file' = state := by
  rw [current, load_whole h, Option.getD_some]

/-- The beginning of the text of a snapshot is no snapshot. -/
lemma fromStr_take {n : Nat} (hn : n < state.toStringPretty.length) :
    StoredTaskState.fromStr (state.toStringPretty.take n) = none := by
  have hcut : parse (state.toStringPretty.take n) = none :=
    parse_eq_none_of_cut state.depth_fields hn
  rw [StoredTaskState.fromStr, hcut, Option.bind_none]

theorem load_cut {written : Nat} {torn : Bool}
    (h : save file state (.cut written torn) = some file') : current file' = .empty := by
  simp only [save] at h
  split at h
  · rename_i c hc
    have hlt : written < state.toStringPretty.length := (List.getElem?_eq_some_iff.mp hc).1
    split_ifs at h
    · cases h
      rfl
    · cases h
      simp [current, load, fromStr_take hlt]
  · cases h

end TaskStateStore

end RustyClaw
