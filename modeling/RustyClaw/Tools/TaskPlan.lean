import RustyClaw.Core.TaskStore
import RustyClaw.Library.Transition
import RustyClaw.Tools.Output
import RustyClaw.Tools.Protocol

/-!
# The plan of a task

`task_plan` loads the snapshot of the task, changes its plan and saves it again; what becomes of the
save is not looked at.  How a save ends is chosen by the environment.

`Plan` is what the tool is for: a list of steps and a goal, with the operations that the
documentation of the arguments promises.  A sequence of calls refines it (`RefinesPlan`) when the
file always stands for the plan that the successful calls have made.  `refinesPlan_iff` says which
sequences do: an added step must not come with a note, which the tool forgets, and a save that
fails must leave in the file what it should have written into it.
-/

namespace RustyClaw

open Glyph Transition
open Json hiding str

/-! ## The plan as a list of steps -/

structure Plan where
  steps : List PlanStep := []
  goal : Option (List Char) := none
  deriving DecidableEq

inductive PlanOp where
  | get
  | clear
  | add (step : List Char) (note : Option (List Char))
  | updateStatus (index : Nat) (status : List Char) (note : Option (List Char))
  | updateText (index : Nat) (step note : Option (List Char))
  | updateGoal (goal : List Char)
  | remove (index : Nat)
  deriving DecidableEq

namespace Plan

variable (plan : Plan)

/-- What an operation makes of a plan; a note that is not given leaves the one that is there. -/
def apply : PlanOp → Plan
  | .get => plan
  | .clear => { plan with steps := [] }
  | .add step note => { plan with steps := plan.steps ++ [⟨step, "pending".toList, note⟩] }
  | .updateStatus index status note =>
    { plan with steps := plan.steps.modify index fun p =>
        { p with status := status, note := note.or p.note } }
  | .updateText index step note =>
    { plan with steps := plan.steps.modify index fun p =>
        { p with step := step.getD p.step, note := note.or p.note } }
  | .updateGoal goal => { plan with goal := some goal }
  | .remove index => { plan with steps := plan.steps.eraseIdx index }

/-- The step that an operation names must be there. -/
def Allows : PlanOp → Prop
  | .updateStatus index _ _ | .updateText index _ _ | .remove index => index < plan.steps.length
  | _ => True

instance (op : PlanOp) : Decidable (plan.Allows op) := by
  cases op <;> unfold Allows <;> infer_instance

end Plan

/-- A step is added with a note. -/
def PlanOp.addsNote : PlanOp → Bool
  | .add _ note => note.isSome
  | _ => false

/-- The operation without the note of a step that it adds. -/
def PlanOp.dropNote : PlanOp → PlanOp
  | .add step _ => .add step none
  | op => op

/-- The note of an added step is part of what becomes of the plan. -/
lemma Plan.apply_dropNote_eq_iff (plan : Plan) (op : PlanOp) :
    plan.apply op.dropNote = plan.apply op ↔ op.addsNote = false := by
  cases op with
  | add step note => cases note <;> simp [PlanOp.dropNote, PlanOp.addsNote, Plan.apply]
  | get | clear | updateStatus | updateText | updateGoal | remove =>
    simp [PlanOp.dropNote, PlanOp.addsNote]

/-- A step that is added with a note is there afterwards. -/
lemma Plan.exists_steps_apply {op : PlanOp} (h : op.addsNote = true) (plan : Plan) :
    ∃ p, (plan.apply op).steps = plan.steps ++ [p] := by
  cases op with
  | add step note => exact ⟨_, rfl⟩
  | get | clear | updateStatus | updateText | updateGoal | remove => cases h

def StoredTaskState.plan (state : StoredTaskState) : Plan := ⟨state.planSteps, state.goal⟩

/-- The plan that is persisted. -/
def storedPlan (file : TaskStateFile) : Plan := (TaskStateStore.current file).plan

/-- What a save leaves in the file, where `kept` was and `saved` should be. -/
def Save.leaves (kept saved : Plan) : Save → Plan
  | .whole => saved
  | .untouched => kept
  | .cut _ _ => {}

lemma storedPlan_save {file file' : TaskStateFile} {state : StoredTaskState} {save : Save}
    (h : TaskStateStore.save file state save = some file') :
    storedPlan file' = save.leaves (storedPlan file) state.plan := by
  unfold storedPlan
  cases save with
  | whole =>
    rw [TaskStateStore.current_whole h]
    rfl
  | untouched =>
    cases h
    rfl
  | cut written torn =>
    rw [TaskStateStore.load_cut h]
    rfl

/-! ## The tool -/

structure TaskPlanArgs where
  action : List Char
  step : Option (List Char)
  goal : Option (List Char)
  note : Option (List Char)
  index : Option UInt64
  status : Option (List Char)

def TaskPlanArgs.decode (field : Lookup Char) : Option TaskPlanArgs := do
  let action ← requireField field "action" asStr
  let step ← readField field "step" none (readOption asStr)
  let goal ← readField field "goal" none (readOption asStr)
  let note ← readField field "note" none (readOption asStr)
  let index ← readField field "index" none (readOption readUInt64)
  let status ← readField field "status" none (readOption asStr)
  return { action, step, goal, note, index, status }

/-- `serde_json::from_value`. -/
def TaskPlanArgs.fromValue : Json Char → Option TaskPlanArgs :=
  readRecord ["action", "step", "goal", "note", "index", "status"] decode

inductive TaskPlanAction where
  | get | clear | add | updateStatus | updateText | updateGoal | remove
  deriving DecidableEq

def TaskPlanAction.ofName (name : List Char) : Option TaskPlanAction :=
  [("get".toList, .get), ("clear".toList, .clear), ("add".toList, .add),
    ("update_status".toList, .updateStatus), ("update_text".toList, .updateText),
    ("update_goal".toList, .updateGoal), ("remove".toList, TaskPlanAction.remove)].lookup name

namespace TaskPlanTool

def planStatuses : List (List Char) :=
  ["pending".toList, "in_progress".toList, "completed".toList]

/-- `ok_or_else` with invalid arguments. -/
def required {α : Type} (message : String) : Option α → Except ToolError α
  | some value => .ok value
  | none => .error (.invalidArguments message)

def noTasks : ToolError := .executionFailed "No tasks planed yet."

def outOfBounds (index : UInt64) : ToolError :=
  .executionFailed ("Index " ++ toString index.toNat ++ " out of bounds")

/-- The steps are changed at an index that is there. -/
def editAt (state : StoredTaskState) (index : UInt64) (edit : List PlanStep → List PlanStep) :
    Except ToolError StoredTaskState :=
  if index.toNat < state.planSteps.length then
    .ok { state with planSteps := edit state.planSteps }
  else .error (outOfBounds index)

section Calls

/- `str::to_lowercase`, and the text of the error when the arguments are not read. -/
variable (toLowercase : List Char → List Char) (serdeError : Json Char → List Char)

def normalizeStatus (status : List Char) : Except ToolError (List Char) :=
  let normalized := toLowercase (trim status)
  if normalized ∈ planStatuses then .ok normalized
  else .error (.invalidArguments ("invalid status '" ++ String.ofList status ++
    "'; expected pending|in_progress|completed"))

/-- The `match` over the actions. -/
def update (parsed : TaskPlanArgs) (state : StoredTaskState) : Except ToolError StoredTaskState :=
  match TaskPlanAction.ofName (toLowercase (trim parsed.action)) with
  | some .get => .ok state
  | some .clear => .ok { state with planSteps := [] }
  | some .add => do
    let step ← required "add requires 'step'" parsed.step
    -- the note of the arguments is not looked at
    .ok { state with planSteps := state.planSteps ++ [⟨step, "pending".toList, none⟩] }
  | some .updateStatus => do
    let index ← required "update_status requires 'index'" parsed.index
    let status ← required "update_status requires 'status'" parsed.status
    if state.planSteps = [] then .error noTasks
    else do
      let normalizedStatus ← normalizeStatus toLowercase status
      editAt state index fun steps => steps.modify index.toNat fun p =>
        { p with status := normalizedStatus, note := parsed.note.or p.note }
  | some .updateText => do
    let index ← required "update_text requires 'index'" parsed.index
    if state.planSteps = [] then .error noTasks
    else
      editAt state index fun steps => steps.modify index.toNat fun p =>
        { p with step := parsed.step.getD p.step, note := parsed.note.or p.note }
  | some .updateGoal => do
    let newGoal ← required "update_goal requires 'goal'" parsed.goal
    .ok { state with goal := some newGoal }
  | some .remove => do
    let index ← required "remove requires 'index'" parsed.index
    editAt state index fun steps => steps.eraseIdx index.toNat
  | none =>
    .error (.invalidArguments ("unsupported action '" ++ String.ofList parsed.action ++ "'"))

/-- A task gets a number with its first call. -/
def withTask (state : StoredTaskState) (uuid : List Char) : StoredTaskState :=
  match state.taskId with
  | none => { state with taskId := some ("tsk_".toList ++ uuid), status := "in_progress".toList }
  | some _ => state

/-- A call, with what it finds in its environment. -/
structure Call where
  args : Json Char
  uuid : List Char
  elapsed : UInt64
  save : Save

/-- The snapshot that a call is about to save. -/
def edited (file : TaskStateFile) (call : Call) : Except ToolError StoredTaskState :=
  match TaskPlanArgs.fromValue call.args with
  | none => .error (.invalidArguments (String.ofList (serdeError call.args)))
  | some parsed => update toLowercase parsed (withTask (TaskStateStore.current file) call.uuid)

def output (file : TaskStateFile) (elapsed : UInt64) : List Char :=
  let text := match TaskStateStore.load file with
    | some state => state.summary
    | none => "Plan updated.".toList
  ((StructuredToolOutput.new "task_plan" true text (some 0) (some elapsed) false).withPayloadKind
    "plan").toJsonString

/-- The file and the result after a call; `none` when the save cannot end as the environment has
it. -/
def execute (file : TaskStateFile) (call : Call) :
    Option (TaskStateFile × Except ToolError (List Char)) :=
  match edited toLowercase serdeError file call with
  | .error e => some (file, .error e)
  | .ok state =>
    (TaskStateStore.save file state call.save).map fun file' =>
      (file', .ok (output file' call.elapsed))

def step (file : TaskStateFile) (call : Call) : Option TaskStateFile :=
  (execute toLowercase serdeError file call).map Prod.fst

/-! ## What a call asks for -/

/-- The operation of the arguments, as their documentation has it. -/
def asked (parsed : TaskPlanArgs) : Option PlanOp :=
  match TaskPlanAction.ofName (toLowercase (trim parsed.action)) with
  | some .get => some .get
  | some .clear => some .clear
  | some .add => parsed.step.map fun step => .add step parsed.note
  | some .updateStatus => do
    let index ← parsed.index
    let status ← parsed.status
    if toLowercase (trim status) ∈ planStatuses then
      some (.updateStatus index.toNat (toLowercase (trim status)) parsed.note)
    else none
  | some .updateText => parsed.index.map fun index =>
    .updateText index.toNat parsed.step parsed.note
  | some .updateGoal => parsed.goal.map .updateGoal
  | some .remove => parsed.index.map fun index => .remove index.toNat
  | none => none

def askedBy (args : Json Char) : Option PlanOp :=
  (TaskPlanArgs.fromValue args).bind (asked toLowercase)

/-- The operation of a call that reports success. -/
def succeeded (file : TaskStateFile) (call : Call) : Option PlanOp :=
  match execute toLowercase serdeError file call with
  | some (_, .ok _) => askedBy toLowercase call.args
  | _ => none

end Calls

/-! ## The refinement -/

section Refinement

variable (toLowercase : List Char → List Char) (serdeError : Json Char → List Char)

/-- After any number of the calls the file stands for the plan that the successful ones have made
of the plan at the beginning; a call that fails leaves the file as it is, and the effect of one that
reports success is persisted. -/
def RefinesPlan (file : TaskStateFile) (calls : List Call) : Prop :=
  (∀ made rest file', calls = made ++ rest →
    run (step toLowercase serdeError) file made = some file' →
      storedPlan file' = (events (step toLowercase serdeError) (succeeded toLowercase serdeError)
        file made).foldl Plan.apply (storedPlan file)) ∧
  Along (step toLowercase serdeError) (fun file call => ∀ file' result,
    execute toLowercase serdeError file call = some (file', result) →
      match result with
      | .error _ => file' = file
      | .ok _ => ∃ op, askedBy toLowercase call.args = some op ∧
          storedPlan file' = (storedPlan file).apply op) file calls

/-- A call that is well formed adds no note, and if its save fails, the file is left with what
should have been saved. -/
def Keeps (file : TaskStateFile) (call : Call) : Prop :=
  ∀ op ∈ askedBy toLowercase call.args, (storedPlan file).Allows op →
    op.addsNote = false ∧
      call.save.leaves (storedPlan file) ((storedPlan file).apply op) = (storedPlan file).apply op

instance (file : TaskStateFile) (call : Call) : Decidable (Keeps toLowercase file call) :=
  inferInstanceAs (Decidable (∀ op ∈ askedBy toLowercase call.args, _))

/-! ### One call -/

variable {toLowercase serdeError} {file file' : TaskStateFile} {call : Call}

@[simp] lemma plan_withTask (state : StoredTaskState) (uuid : List Char) :
    (withTask state uuid).plan = state.plan := by
  unfold withTask
  split <;> rfl

lemma plan_editAt (state : StoredTaskState) (index : UInt64)
    (edit : List PlanStep → List PlanStep) :
    (index.toNat < state.plan.steps.length ∧ ∃ state', editAt state index edit = .ok state' ∧
        state'.plan = { state.plan with steps := edit state.plan.steps }) ∨
      (¬ index.toNat < state.plan.steps.length ∧
        editAt state index edit = .error (outOfBounds index)) := by
  unfold editAt
  by_cases h : index.toNat < state.planSteps.length
  · exact .inl ⟨h, _, if_pos h, rfl⟩
  · exact .inr ⟨h, if_neg h⟩

/-- An update succeeds exactly when it is well formed and allowed, and does then what it is asked
to, but for the note of an added step. -/
lemma update_cases (toLowercase : List Char → List Char) (parsed : TaskPlanArgs)
    (state : StoredTaskState) :
    (∃ op state', asked toLowercase parsed = some op ∧ state.plan.Allows op ∧
        update toLowercase parsed state = .ok state' ∧
        state'.plan = state.plan.apply op.dropNote) ∨
      (∃ e, update toLowercase parsed state = .error e) ∧
        ∀ op ∈ asked toLowercase parsed, ¬ state.plan.Allows op := by
  unfold update asked
  cases TaskPlanAction.ofName (toLowercase (trim parsed.action)) with
  | none => exact .inr ⟨⟨_, rfl⟩, by simp⟩
  | some action =>
    cases action with
    | get => exact .inl ⟨_, _, rfl, trivial, rfl, rfl⟩
    | clear => exact .inl ⟨_, _, rfl, trivial, rfl, rfl⟩
    | add =>
      cases parsed.step with
      | none => exact .inr ⟨⟨_, rfl⟩, by simp⟩
      | some step => exact .inl ⟨_, _, rfl, trivial, rfl, rfl⟩
    | updateGoal =>
      cases parsed.goal with
      | none => exact .inr ⟨⟨_, rfl⟩, by simp⟩
      | some goal => exact .inl ⟨_, _, rfl, trivial, rfl, rfl⟩
    | remove =>
      cases parsed.index with
      | none => exact .inr ⟨⟨_, rfl⟩, by simp⟩
      | some index =>
        obtain ⟨hlt, state', hedit, hplan⟩ | ⟨hge, hedit⟩ := plan_editAt state index
          fun steps => steps.eraseIdx index.toNat
        · exact .inl ⟨_, state', rfl, hlt, hedit, hplan⟩
        · exact .inr ⟨⟨_, hedit⟩, by simpa [Plan.Allows] using hge⟩
    | updateText =>
      cases parsed.index with
      | none => exact .inr ⟨⟨_, rfl⟩, by simp⟩
      | some index =>
        by_cases hempty : state.planSteps = []
        · refine .inr ⟨⟨noTasks, if_pos hempty⟩, ?_⟩
          simp [Plan.Allows, StoredTaskState.plan, hempty]
        obtain ⟨hlt, state', hedit, hplan⟩ | ⟨hge, hedit⟩ := plan_editAt state index
          fun steps => steps.modify index.toNat fun p =>
            { p with step := parsed.step.getD p.step, note := parsed.note.or p.note }
        · exact .inl ⟨_, state', rfl, hlt, (if_neg hempty).trans hedit, hplan⟩
        · exact .inr ⟨⟨_, (if_neg hempty).trans hedit⟩, by simpa [Plan.Allows] using hge⟩
    | updateStatus =>
      cases parsed.index with
      | none => exact .inr ⟨⟨_, rfl⟩, by simp⟩
      | some index =>
        cases parsed.status with
        | none => exact .inr ⟨⟨_, rfl⟩, by simp⟩
        | some status =>
          by_cases hempty : state.planSteps = []
          · refine .inr ⟨⟨noTasks, if_pos hempty⟩, ?_⟩
            simp [Plan.Allows, StoredTaskState.plan, hempty]
          by_cases hstatus : toLowercase (trim status) ∈ planStatuses
          · have hok : normalizeStatus toLowercase status = .ok (toLowercase (trim status)) :=
              if_pos hstatus
            obtain ⟨hlt, state', hedit, hplan⟩ | ⟨hge, hedit⟩ := plan_editAt state index
              fun steps => steps.modify index.toNat fun p =>
                { p with status := toLowercase (trim status), note := parsed.note.or p.note }
            · refine .inl ⟨_, state', if_pos hstatus, hlt, (if_neg hempty).trans ?_, hplan⟩
              rw [hok]
              exact hedit
            · refine .inr ⟨⟨outOfBounds index, (if_neg hempty).trans ?_⟩, ?_⟩
              · rw [hok]
                exact hedit
              · simpa [Plan.Allows, hstatus] using hge
          · have herror : ∃ e, normalizeStatus toLowercase status = .error e :=
              ⟨_, if_neg hstatus⟩
            obtain ⟨e, he⟩ := herror
            refine .inr ⟨⟨e, (if_neg hempty).trans ?_⟩, by simp [hstatus]⟩
            rw [he]
            rfl

/-- What a call does: it fails and leaves the file, or it is well formed and allowed, and what it
saves is the plan that it was asked for, but for the note of an added step. -/
lemma edited_cases (toLowercase : List Char → List Char) (serdeError : Json Char → List Char)
    (file : TaskStateFile) (call : Call) :
    (∃ op state, askedBy toLowercase call.args = some op ∧ (storedPlan file).Allows op ∧
        edited toLowercase serdeError file call = .ok state ∧
        state.plan = (storedPlan file).apply op.dropNote) ∨
      (∃ e, edited toLowercase serdeError file call = .error e) ∧
        ∀ op ∈ askedBy toLowercase call.args, ¬ (storedPlan file).Allows op := by
  unfold edited askedBy
  cases TaskPlanArgs.fromValue call.args with
  | none => exact .inr ⟨⟨_, rfl⟩, by simp⟩
  | some parsed =>
    have h := update_cases toLowercase parsed (withTask (TaskStateStore.current file) call.uuid)
    rw [plan_withTask] at h
    exact h

/-- A call whose save has ended has the effect that it was asked for exactly when it keeps it. -/
lemma storedPlan_execute {result : Except ToolError (List Char)}
    (h : execute toLowercase serdeError file call = some (file', result)) :
    (∃ op, askedBy toLowercase call.args = some op ∧ (∃ text, result = .ok text) ∧
        (storedPlan file' = (storedPlan file).apply op ↔ Keeps toLowercase file call)) ∨
      file' = file ∧ (∃ e, result = .error e) ∧ Keeps toLowercase file call := by
  unfold execute at h
  obtain ⟨op, state, hasked, hallows, hedited, hplan⟩ | ⟨⟨e, he⟩, hnone⟩ :=
    edited_cases toLowercase serdeError file call
  · rw [hedited] at h
    obtain ⟨file'', hsave, heq⟩ := Option.map_eq_some_iff.mp h
    cases heq
    have hkeeps : Keeps toLowercase file call ↔ op.addsNote = false ∧
        call.save.leaves (storedPlan file) ((storedPlan file).apply op) =
          (storedPlan file).apply op := by
      simp [Keeps, hasked, hallows]
    refine .inl ⟨op, hasked, ⟨_, rfl⟩, ?_⟩
    rw [hkeeps, storedPlan_save hsave, hplan]
    by_cases hnote : op.addsNote = true
    · -- the step with the note is in no plan that can be left
      obtain ⟨p, hp⟩ := (storedPlan file).exists_steps_apply hnote
      refine iff_of_false (fun heq => ?_) (by simp [hnote])
      rw [← heq] at hp
      cases hsave' : call.save with
      | whole =>
        rw [hsave'] at heq
        exact absurd ((Plan.apply_dropNote_eq_iff _ _).mp heq) (by simp [hnote])
      | untouched => simp [hsave', Save.leaves] at hp
      | cut written torn => simp [hsave', Save.leaves] at hp
    · have hdrop := (storedPlan file).apply_dropNote_eq_iff op
      rw [hdrop.mpr (by simpa using hnote)]
      simp [hnote]
  · rw [he] at h
    cases h
    exact .inr ⟨rfl, ⟨e, rfl⟩, fun op hop hallows => absurd hallows (hnone op hop)⟩

/-! ### Sequences of calls -/

/-- A call does to the plan what is noted of it exactly when it keeps it. -/
lemma foldl_succeeded_iff (h : step toLowercase serdeError file call = some file') :
    (∀ file'', step toLowercase serdeError file call = some file'' → storedPlan file'' =
        (succeeded toLowercase serdeError file call).toList.foldl Plan.apply (storedPlan file)) ↔
      Keeps toLowercase file call := by
  obtain ⟨⟨_, result⟩, hexec, rfl⟩ := Option.map_eq_some_iff.mp h
  rw [h]
  obtain ⟨op, hasked, ⟨text, rfl⟩, hiff⟩ | ⟨rfl, ⟨e, rfl⟩, hkeeps⟩ := storedPlan_execute hexec
  · rw [← hiff, succeeded, hexec]
    simp [hasked]
  · refine iff_of_true ?_ hkeeps
    rintro _ ⟨⟩
    simp [succeeded, hexec]

/-- A call tells the truth about its effect exactly when it keeps it. -/
lemma result_iff (h : step toLowercase serdeError file call = some file') :
    (∀ file'' result, execute toLowercase serdeError file call = some (file'', result) →
        match result with
        | .error _ => file'' = file
        | .ok _ => ∃ op, askedBy toLowercase call.args = some op ∧
            storedPlan file'' = (storedPlan file).apply op) ↔
      Keeps toLowercase file call := by
  obtain ⟨⟨_, result⟩, hexec, rfl⟩ := Option.map_eq_some_iff.mp h
  rw [hexec]
  obtain ⟨op, hasked, ⟨text, rfl⟩, hiff⟩ | ⟨rfl, ⟨e, rfl⟩, hkeeps⟩ := storedPlan_execute hexec
  · rw [← hiff]
    constructor
    · intro hall
      obtain ⟨op', hasked', hplan⟩ := hall _ _ rfl
      obtain rfl : op = op' := Option.some.inj (hasked.symm.trans hasked')
      exact hplan
    · rintro hplan _ _ ⟨⟩
      exact ⟨op, hasked, hplan⟩
  · refine iff_of_true ?_ hkeeps
    rintro _ _ ⟨⟩
    rfl

/-- **The plan refines a list of steps.** A sequence of calls makes of the stored plan what its
successful calls ask for exactly when no added step has a note and every save that fails leaves the
plan that should have been saved. -/
theorem refinesPlan_iff {calls : List Call}
    (hrun : run (step toLowercase serdeError) file calls = some file') :
    RefinesPlan toLowercase serdeError file calls ↔
      Along (step toLowercase serdeError) (Keeps toLowercase) file calls := by
  have hplans := (abs_eq_foldl_iff_along storedPlan (succeeded toLowercase serdeError) Plan.apply
    hrun).trans (along_congr_of_run hrun fun _ _ _ h => foldl_succeeded_iff h)
  have hresults := along_congr_of_run hrun fun _ _ _ h => result_iff h
  unfold RefinesPlan
  rw [hplans, hresults, and_self_iff]

end Refinement

/-! ### Two steps, with a note and without -/

/-- `str::to_lowercase` of a text without letters beyond ASCII. -/
def asciiLowercase (text : List Char) : List Char := text.map Char.toLower

/-- A step is added, with a note if one is given. -/
def addCall (note : Option (List Char)) (save : Save) : Call where
  args := objOf [("action", .str "add".toList), ("step", .str "test".toList),
    ("note", optionJson .str note)]
  uuid := "0".toList
  elapsed := 0
  save := save

theorem refinesPlan_addCall :
    RefinesPlan asciiLowercase (fun _ => []) .missing [addCall none .whole] :=
  (refinesPlan_iff (show run _ _ [addCall none .whole] = some _ from rfl)).mpr
    ⟨by decide, fun _ _ => trivial⟩

/-- The tool forgets the note of a step, and it says that it has added a step that it could not
save. -/
theorem not_refinesPlan_addCall :
    ¬ RefinesPlan asciiLowercase (fun _ => []) .missing [addCall (some "unit".toList) .whole] ∧
      ¬ RefinesPlan asciiLowercase (fun _ => []) .missing [addCall none .untouched] := by
  constructor
  · intro h
    have hstep : step asciiLowercase (fun _ => []) .missing
        (addCall (some "unit".toList) .whole) = some _ := rfl
    have hkeeps := (result_iff hstep).mp h.2.1
    exact absurd hkeeps (by decide)
  · intro h
    have hstep : step asciiLowercase (fun _ => []) .missing (addCall none .untouched) = some _ :=
      rfl
    have hkeeps := (result_iff hstep).mp h.2.1
    exact absurd hkeeps (by decide)

end TaskPlanTool

end RustyClaw
