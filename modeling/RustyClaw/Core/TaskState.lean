import RustyClaw.Library.Glyph

/-!
# The task of a session

The snapshot that `task_state.rs` keeps of the task, and what a step of the loop does to it: a new
step starts a task of its own, and a run that may finish marks the plan as done.  The snapshot is
loaded from a file that tools write, too; what they wrote is an argument here.
-/

namespace RustyClaw

open Glyph

structure PlanStep where
  step : List Char
  status : List Char
  note : Option (List Char) := none
  deriving DecidableEq, Repr

structure TaskStateSnapshot where
  taskId : Option (List Char) := none
  status : List Char
  goal : Option (List Char) := none
  currentStep : Option (List Char) := none
  finishSummary : Option (List Char) := none
  planSteps : List PlanStep := []
  deriving DecidableEq, Repr

namespace TaskStateSnapshot

def empty : TaskStateSnapshot := { status := "initialized".toList }

/-- The steps of the plan from number `i` on, one line each. -/
def planLines : Nat → List PlanStep → List (List Char)
  | _, [] => []
  | i, p :: steps =>
    let note := p.note.getD []
    let doc := if note = [] then " ".toList else " - ".toList ++ note
    (s!"  [{i}] ".toList ++ p.step ++ " (".toList ++ p.status ++ ")".toList ++ doc) ::
      planLines (i + 1) steps

def summary (state : TaskStateSnapshot) : List Char :=
  let unfinished := state.status ≠ "finished".toList
  let current := match state.currentStep with
    | some step => ["- Current step: ".toList ++ step]
    | none =>
      match state.planSteps.find? fun p => p.status ≠ "completed".toList with
      | some active => ["- Current step: ".toList ++ active.step ++ " (".toList ++ active.status ++
          ")".toList]
      | none => []
  let plan := if state.planSteps ≠ [] ∧ unfinished then
      "\nPlan steps:".toList :: planLines 0 state.planSteps
    else []
  let all :=
    (if unfinished then ["Current task (".toList ++ state.status ++ ")".toList] else []) ++
    state.finishSummary.toList ++ (state.goal.map ("- Goal: ".toList ++ ·)).toList ++ current ++ plan
  trim (all.flatMap fun line => line ++ ['\n'])

/-- `initialize_task_state`: the task that a step begins with, given the one in the file. -/
def initializeTaskState (loaded : TaskStateSnapshot) (goal newId : List Char) : TaskStateSnapshot :=
  let state := if loaded.status = "in_progress".toList ∨ loaded.status = "finished".toList ∨
      loaded.status = "failed".toList then empty else loaded
  if state.status = "initialized".toList ∨ state.status = "empty".toList then
    { state with
      taskId := some (state.taskId.getD newId)
      status := "in_progress".toList
      goal := some goal }
  else state

/-- The task as `prepare_finished_run` leaves it. -/
def finish (state : TaskStateSnapshot) (summary : List Char) : TaskStateSnapshot :=
  { state with
    status := "finished".toList
    finishSummary := some summary
    planSteps := state.planSteps.map fun p => { p with status := "completed".toList }
    currentStep := none }

end TaskStateSnapshot

end RustyClaw
