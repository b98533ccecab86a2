import Mathlib.Logic.Function.Basic
import RustyClaw.Library.Table
import RustyClaw.Library.Transition
import RustyClaw.Tools.Envelope

/-!
# The scheduler

`Scheduler` keeps its tasks in a map behind a lock and a copy of them in a file.  Every operation
first reads the file into the map, then changes the map under the lock, then takes the lock a second
time to write the map to the file.  Between these sections another operation can run: a move of the
model is what one operation does from one `await` to the next.

The `cron` crate is a parameter: what it makes of an expression, and the first occurrence after a
time.  The clock is read by a tick between reading the file and taking the lock; what it shows is
part of the operation.
-/

namespace RustyClaw.Cron

open Glyph Transition
open Json hiding str

/-! ## The tasks -/

structure ScheduledTask where
  id : List Char
  cron : List Char
  goal : List Char
  sessionId : List Char
  replyTo : List Char
  enabled : Bool
  runOnce : Bool
  lastRun : Option UInt64
  deriving DecidableEq

/-- `HashMap<String, ScheduledTask>`. -/
abbrev TaskTable := Table (List Char) ScheduledTask

/-! ### Their text -/

def ScheduledTask.fields (task : ScheduledTask) : List (String × Json Char) :=
  [("id", .str task.id), ("cron", .str task.cron), ("goal", .str task.goal),
    ("session_id", .str task.sessionId), ("reply_to", .str task.replyTo),
    ("enabled", .bool task.enabled), ("run_once", .bool task.runOnce),
    ("last_run", optionJson (fun seconds : UInt64 => .num (.ofInt seconds.toNat)) task.lastRun)]

def decodeTask (field : Lookup Char) : Option ScheduledTask := do
  let id ← requireField field "id" asStr
  let cron ← requireField field "cron" asStr
  let goal ← requireField field "goal" asStr
  let sessionId ← requireField field "session_id" asStr
  let replyTo ← readField field "reply_to" [] asStr
  let enabled ← requireField field "enabled" asBool
  let runOnce ← readField field "run_once" false asBool
  let lastRun ← readField field "last_run" none (readOption readUInt64)
  return { id, cron, goal, sessionId, replyTo, enabled, runOnce, lastRun }

def readTask : Json Char → Option ScheduledTask :=
  readRecord ["id", "cron", "goal", "session_id", "reply_to", "enabled", "run_once", "last_run"]
    decodeTask

/-- `serde_json::to_string_pretty` of the map. -/
def toStringPretty (order : Table.Order (List Char) ScheduledTask) : List Char :=
  pretty 0 (Table.tableJson (fun task => objOf task.fields) order)

/-- `serde_json::from_str`. -/
def fromStr (content : List Char) : Option TaskTable :=
  (parse content).bind (Table.readTable readTask)

lemma readTask_fields (task : ScheduledTask) : readTask (objOf task.fields) = some task := by
  have hnodup : (task.fields.map Prod.fst).Nodup := by simp [ScheduledTask.fields]
  have hlast := readOption_optionJson readUInt64_num (χ := Char) (by simp) task.lastRun
  unfold readTask
  rw [readRecord_objOf hnodup]
  simp [decodeTask, ScheduledTask.fields, requireField, readField, List.lookup_cons, asStr, asBool,
    hlast]

lemma depth_task (task : ScheduledTask) : depth (objOf task.fields) ≤ 1 := by
  cases h : task.lastRun <;>
    simp [objOf, ScheduledTask.fields, optionJson, h, depth, depthFields]

/-- The text of the tasks reads back as the tasks, in whatever order they are written. -/
theorem fromStr_toStringPretty {tasks : TaskTable} {order : Table.Order (List Char) ScheduledTask}
    (h : order.Lists tasks) : fromStr (toStringPretty order) = some tasks := by
  have hdepth := Table.depth_tableJson depth_task order
  rw [fromStr, toStringPretty, parse_pretty _ (hdepth.trans (by decide)), Option.bind_some]
  exact Table.readTable_tableJson readTask_fields h

/-! ## The clock -/

/-- Times are nanoseconds since the epoch. -/
def seconds (n : Int) : Int := n * 1000000000

/-- What `Local::now()` shows: a time after the first minute of the epoch whose seconds fit into a
`u64`. -/
structure DateTime where
  time : Int
  started : seconds 60 ≤ time
  bounded : time < seconds (2 ^ 64)
  deriving DecidableEq

/-- `timestamp() as u64`. -/
def DateTime.timestamp (now : DateTime) : UInt64 := .ofNat (now.time / seconds 1).toNat

/-- `schedule.after(&t).next()`. -/
abbrev Schedule := Int → Option Int

/-- `Schedule::from_str`. -/
abbrev CronCrate := List Char → Except (List Char) Schedule

/-! ## What an operation does to the tasks -/

section Operations

variable (cron : CronCrate) (now : DateTime)

/-- The test of a tick: the first occurrence of the last minute has come, and the task has not run
in the minute that the clock shows. -/
def ScheduledTask.isDue (task : ScheduledTask) : Bool :=
  task.enabled &&
    match cron task.cron with
    | .error _ => false
    | .ok after =>
      match after (now.time - seconds 60) with
      | none => false
      | some next =>
        decide (next ≤ now.time) && decide (task.lastRun.getD 0 / 60 < now.timestamp / 60)

/-- `task.last_run = Some(now_ts)`. -/
def ScheduledTask.ran (task : ScheduledTask) : ScheduledTask :=
  { task with lastRun := some now.timestamp }

/-- The map after the first section of a tick. -/
def fire (tasks : TaskTable) : TaskTable :=
  Table.mapValues (fun _ task => if task.isDue cron now then task.ran now else task) tasks

def tasksToRun (tasks : TaskTable) : TaskTable :=
  Table.mapValues (fun _ task => task.ran now) (Table.filter (fun _ task => task.isDue cron now) tasks)

/-- `tasks_to_remove`. -/
def tasksToRemove (toRun : TaskTable) : Multiset (List Char) :=
  (toRun.entries.filter fun entry => entry.2.runOnce).map fun entry => entry.2.id

/-- The map after the second section of a tick. -/
def removeRunOnce (toRun tasks : TaskTable) : TaskTable :=
  Table.filter (fun id _ => decide (id ∉ tasksToRemove toRun)) tasks

end Operations

/-! ## The moves -/

inductive Op where
  | addTask (task : ScheduledTask)
  | removeTask (id : List Char)
  | toggleTask (id : List Char) (enabled : Bool)
  | listTasks
  | tick (now : DateTime)

/-- What a caller gets; a tick has no caller. -/
inductive Reply where
  | done
  | listed (tasks : List ScheduledTask)

inductive Phase where
  /-- the file has been parsed; waits for the lock to replace the map -/
  | loaded (parsed : TaskTable)
  /-- waits for the lock -/
  | ready
  /-- a tick that has set `last_run` and waits for the lock again -/
  | fired (toRun : TaskTable)
  /-- `save` waits for the lock -/
  | saving
  | returned (reply : Except (List Char) Reply)

structure Call where
  op : Op
  phase : Phase

structure Scheduler where
  tasks : TaskTable
  file : Option (List Char)
  calls : Nat → Option Call

/-- What the file is read as when the scheduler is made. -/
def decodedFile (file : Option (List Char)) : TaskTable := (file.bind fromStr).getD ∅

def Scheduler.new (file : Option (List Char)) : Scheduler where
  tasks := decodedFile file
  file := file
  calls := fun _ => none

inductive SaveOutcome where
  | written
  /-- `left` characters of the text are in the file; `none` when it was not opened -/
  | failed (error : List Char) (left : Option Nat)

inductive Label where
  /-- a call up to the lock that `reload` takes -/
  | start (call : Nat) (op : Op) (readable : Bool)
  /-- `*self.tasks.write().await = parsed` -/
  | install (call : Nat)
  /-- the section under the lock; `listTasks` meets the tasks in `order` -/
  | change (call : Nat) (order : Table.Order (List Char) ScheduledTask)
  /-- the second section of a tick -/
  | expire (call : Nat)
  | save (call : Nat) (order : Table.Order (List Char) ScheduledTask) (outcome : SaveOutcome)

def Scheduler.enter (s : Scheduler) (call : Nat) (op : Op) (phase : Phase) : Scheduler :=
  { s with calls := Function.update s.calls call (some ⟨op, phase⟩) }

def invalidCron (error : List Char) : List Char := str "Invalid cron expression: " ++ error

def taskNotFound : List Char := str "Task not found"

/-- The beginning of `reload`. -/
def Scheduler.reload (s : Scheduler) (readable : Bool) : Phase :=
  match if readable then s.file.bind fromStr else none with
  | some parsed => .loaded parsed
  | none => .ready

/-- The section of an operation under the lock. -/
def Scheduler.changeTasks (cron : CronCrate) (s : Scheduler) (call : Nat) (op : Op)
    (order : Table.Order (List Char) ScheduledTask) : Option Scheduler :=
  match op with
  | .addTask task => some { s.enter call op .saving with tasks := s.tasks.insert task.id task }
  | .removeTask id =>
    match s.tasks.lookup id with
    | some _ => some { s.enter call op .saving with tasks := s.tasks.erase id }
    | none => some (s.enter call op (.returned (.error taskNotFound)))
  | .toggleTask id enabled =>
    match s.tasks.lookup id with
    | some task =>
      some { s.enter call op .saving with tasks := s.tasks.insert id { task with enabled } }
    | none => some (s.enter call op (.returned (.error taskNotFound)))
  | .listTasks =>
    if order.Lists s.tasks then
      let list := (order.map Prod.snd).mergeSort fun a b => decide (a.id ≤ b.id)
      some (s.enter call op (.returned (.ok (.listed list))))
    else none
  | .tick now =>
    let toRun := tasksToRun cron now s.tasks
    let phase : Phase := if toRun = ∅ then .returned (.ok .done) else .fired toRun
    some { s.enter call op phase with tasks := fire cron now s.tasks }

/-- The reply of `save`; a tick does not look at it. -/
def saveReply (op : Op) : SaveOutcome → Except (List Char) Reply
  | .written => .ok .done
  | .failed error _ =>
    match op with
    | .tick _ => .ok .done
    | _ => .error error

def fileAfter (file : Option (List Char)) (order : Table.Order (List Char) ScheduledTask) :
    SaveOutcome → Option (List Char)
  | .written => some (toStringPretty order)
  | .failed _ none => file
  | .failed _ (some left) => some ((toStringPretty order).take left)

def step (cron : CronCrate) (s : Scheduler) : Label → Option Scheduler
  | .start call op readable =>
    match s.calls call with
    | some _ => none
    | none =>
      match op with
      | .addTask task =>
        match cron task.cron with
        | .error error => some (s.enter call op (.returned (.error (invalidCron error))))
        | .ok _ => some (s.enter call op (s.reload readable))
      | _ => some (s.enter call op (s.reload readable))
  | .install call =>
    match s.calls call with
    | some ⟨op, .loaded parsed⟩ => some { s.enter call op .ready with tasks := parsed }
    | _ => none
  | .change call order =>
    match s.calls call with
    | some ⟨op, .ready⟩ => s.changeTasks cron call op order
    | _ => none
  | .expire call =>
    match s.calls call with
    | some ⟨op, .fired toRun⟩ =>
      some { s.enter call op .saving with tasks := removeRunOnce toRun s.tasks }
    | _ => none
  | .save call order outcome =>
    match s.calls call with
    | some ⟨op, .saving⟩ =>
      if order.Lists s.tasks then
        some { s.enter call op (.returned (saveReply op outcome)) with
          file := fileAfter s.file order outcome }
      else none
    | _ => none

end RustyClaw.Cron
