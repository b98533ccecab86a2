import Mathlib.Logic.Basic
import RustyClaw.Library.Transition
import RustyClaw.Tools.Protocol

/-!
# Subagent jobs

`SubagentRuntime` runs delegated work.  A background job is put into the `jobs` map, gets a
`RunningJobGuard` that counts it, and runs as a task of its own; `cancel_job` may come from any
other task, any number of times and at any moment.  A foreground job (`run_sync`) is run by its
caller and is in no map.

Nothing of a job is shared with another one except the counter of the guards.  So `Job` with
`jobStep` is the life of one job with its spawn call, its task and the calls that cancel it, and
`SubagentRuntime` puts the jobs side by side.  A job is named by its number; the code names it by a
fresh UUID.

* `concurrencyLimit_iff`: the counter is the number of guards alive, and it stays within
  `max_concurrent_jobs` exactly when every guard is made while there is room.  The spawn call
  tests the counter before it waits for the `jobs` lock and does not look again.
* `lifeCycle_of_undisturbed`: a terminal state is final and is announced by exactly one
  notification with its status, if `cancel_job` neither comes before the task's first step nor
  between the two halves of `finish_job`, and the task does not go on after a cancellation.

The points of an interleaving are the lock acquisitions and atomic accesses of the source.  A
task that was aborted may go on for a while, until it has to wait for something, and is then
dropped; a call whose own future is dropped just stops.
-/

namespace RustyClaw.Subagent

open Transition

/-! ## States of a job -/

structure SubagentResult where
  ok : Bool
  summary : String
  deriving DecidableEq, Repr

inductive SubagentJobState where
  | pending
  | running (startedAt : Nat)
  | completed (finishedAt : Nat) (result : SubagentResult)
  | failed (finishedAt : Nat) (error : String) (partialResult : Option SubagentResult)
  | cancelled (finishedAt : Nat) (partialResult : Option SubagentResult)
  | timedOut (finishedAt : Nat) (partialResult : Option SubagentResult)
  deriving DecidableEq, Repr

namespace SubagentJobState

def finishReason : SubagentJobState → String
  | .pending => "pending"
  | .running _ => "running"
  | .completed .. => "finished"
  | .failed .. => "failed"
  | .cancelled .. => "cancelled"
  | .timedOut .. => "timed_out"

def isTerminal : SubagentJobState → Bool
  | .pending | .running _ => false
  | _ => true

def finishedAt : SubagentJobState → Option Nat
  | .completed at' _ | .failed at' _ _ | .cancelled at' _ | .timedOut at' _ => some at'
  | .pending | .running _ => none

/-- The text of the notification that announces a state (`enqueue_notification`). -/
def notificationSummary : SubagentJobState → String
  | .completed _ result => result.summary
  | .failed _ error partialResult => (partialResult.map (·.summary)).getD error
  | .cancelled _ partialResult =>
    (partialResult.map (·.summary)).getD "Sub-agent execution was interrupted."
  | .timedOut _ partialResult => (partialResult.map (·.summary)).getD "Sub-agent timed out."
  | .pending | .running _ => ""

end SubagentJobState

/-! ## What the session of a job comes to -/

inductive RunExit where
  | finished (summary : String)
  | stoppedByUser
  | yieldedToUser
  | recoverableFailed (summary : String)
  | criticallyFailed (summary : String)
  | autopilotStalled (summary : String)
  | energyDepleted (summary : String)
  deriving DecidableEq, Repr

/-- What comes of building and running the session: `build_subagent_session` fails, the agent
loop exits or fails, or the timeout elapses. -/
inductive SessionOutcome where
  | notBuilt (error : String)
  | exited (exit : RunExit)
  | error (message : String)
  | elapsed
  deriving DecidableEq, Repr

/-- The part of a `SubagentExecutionRequest` that the texts of a result mention. -/
structure SubagentExecutionRequest where
  displayGoal : String
  timeoutSec : Nat
  skillName : Option String
  deriving DecidableEq, Repr

namespace SubagentExecutionRequest

def interrupted (finishedAt : Nat) : SubagentJobState :=
  .cancelled finishedAt (some ⟨false, "Sub-agent execution was interrupted."⟩)

def failedWith (finishedAt : Nat) (summary : String) : SubagentJobState :=
  .failed finishedAt summary (some ⟨false, summary⟩)

/-- The state that `execute_subagent_session` (or the failed build) makes of an outcome.
`collected` is the collected text without the white space around it. -/
def executedState (execution : SubagentExecutionRequest) (collected : String)
    (cancelled : Bool) (finishedAt : Nat) : SessionOutcome → SubagentJobState
  | .notBuilt error => .failed finishedAt error none
  | .exited (.finished summary) => .completed finishedAt ⟨true, summary⟩
  | .exited .yieldedToUser =>
    failedWith finishedAt <|
      match execution.skillName with
      | some skill =>
        s!"Delegated skill '{skill}' attempted to wait for user input, which is not allowed in subagents."
      | none =>
        if collected = "" then "Sub-agent yielded without visible output."
        else s!"Sub-agent yielded with output: {collected}"
  | .exited (.recoverableFailed summary) | .exited (.criticallyFailed summary)
  | .exited (.autopilotStalled summary) => failedWith finishedAt summary
  | .exited (.energyDepleted summary) =>
    .failed finishedAt "Sub-agent ran out of energy (iteration limit reached)."
      (some ⟨false, summary⟩)
  | .exited .stoppedByUser => interrupted finishedAt
  | .error message =>
    .failed finishedAt message (some ⟨false, s!"Sub-agent error: {message}"⟩)
  | .elapsed =>
    if cancelled then interrupted finishedAt
    else .timedOut finishedAt (some ⟨false,
      s!"Sub-agent timed out after {execution.timeoutSec}s while working on '{execution.displayGoal}'."⟩)

end SubagentExecutionRequest

/-- What `run_job` makes of the executed state when it reads the cancel flag. -/
def overrideCancelled (cancelled : Bool) (now : Nat) (executed : SubagentJobState) :
    SubagentJobState :=
  if cancelled then
    match executed with
    | .cancelled finishedAt partialResult => .cancelled finishedAt partialResult
    | .completed finishedAt result => .cancelled finishedAt (some result)
    | .failed finishedAt _ (some result) => .cancelled finishedAt (some result)
    | _ => .cancelled now none
  else executed

lemma isTerminal_executedState (execution : SubagentExecutionRequest) (collected : String)
    (cancelled : Bool) (finishedAt : Nat) (outcome : SessionOutcome) :
    (execution.executedState collected cancelled finishedAt outcome).isTerminal = true := by
  cases outcome with
  | exited exit => cases exit <;> rfl
  | elapsed => cases cancelled <;> rfl
  | notBuilt | error => rfl

lemma isTerminal_overrideCancelled {cancelled : Bool} {now : Nat} {executed : SubagentJobState}
    (h : executed.isTerminal = true) :
    (overrideCancelled cancelled now executed).isTerminal = true := by
  unfold overrideCancelled
  split
  · split <;> rfl
  · exact h

/-! ## One job -/

structure SubagentNotification where
  status : String
  summary : String
  deriving DecidableEq, Repr

def notificationOf (final : SubagentJobState) : SubagentNotification :=
  { status := final.finishReason, summary := final.notificationSummary }

inductive SubagentRunMode where
  | foreground | background
  deriving DecidableEq, Repr

/-- How far the task of a job has come. -/
inductive Stage where
  /-- the spawn call has listed the job and not started the task -/
  | listed
  /-- the task was started and has done nothing -/
  | scheduled
  /-- `run_job` has written `Running` -/
  | executing
  /-- the session is over -/
  | executed (state : SubagentJobState)
  /-- in `finish_job`, in front of the notification -/
  | finishing (final : SubagentJobState)
  /-- in `finish_job`, between the notification and the state -/
  | storing (final : SubagentJobState)
  /-- `finish_job` has written the state -/
  | finished
  | ended
  deriving DecidableEq, Repr

/-- How far a call of `cancel_job` has come. -/
inductive CancelCall where
  | found
  /-- the flag is set -/
  | flagged
  /-- the task was aborted, if there was a handle -/
  | aborted
  /-- the call has written this state and has not notified -/
  | took (state : SubagentJobState)
  | returned
  deriving DecidableEq, Repr

structure Job where
  mode : SubagentRunMode
  execution : SubagentExecutionRequest
  state : SubagentJobState := .pending
  consumedAt : Option Nat := none
  cancelled : Bool := false
  stage : Stage
  /-- the `RunningJobGuard` is alive -/
  guarded : Bool := false
  /-- the task was aborted through its join handle -/
  aborted : Bool := false
  /-- the job is in the `jobs` map -/
  inJobs : Bool
  /-- the spawn call has not stored the join handle yet -/
  spawning : Bool
  /-- `handle.task` is `Some` -/
  hasTask : Bool := false
  cancels : List CancelCall := []
  /-- the notifications enqueued for the job so far -/
  enqueued : List SubagentNotification := []

/-- What a move does to the counter `running_jobs`. -/
inductive CounterOp where
  | keep | fetchAdd | fetchSub
  deriving DecidableEq, Repr

def consumedTerminalJobTtl : Nat := 5 * 60 * 1000
def unconsumedTerminalJobTtl : Nat := 30 * 60 * 1000

inductive JobMove where
  /-- the spawn call makes the guard and starts the task -/
  | start
  | storeHandle
  /-- the spawn call is dropped while it waits for the lock of `handle.task` -/
  | dropSpawn
  | writeRunning (now : Nat)
  | execute (collected : String) (now : Nat) (outcome : SessionOutcome)
  /-- `run_job` reads the cancel flag -/
  | readFlag (now : Nat)
  | enqueue
  | storeFinal
  | leave
  | panic (message : String) (now : Nat)
  /-- the future of the task is dropped -/
  | dropTask
  | findJob
  /-- the `k`-th call of `cancel_job` takes its next step -/
  | cancel (k : Nat) (now : Nat)
  | dropCancel (k : Nat)
  /-- `get_job_snapshot` with `consume` -/
  | consume (now : Nat)
  /-- `cleanup_expired_jobs` removes the job -/
  | expire (now : Nat)

/-- `RunningJobGuard::new`. -/
def Job.newGuard (job : Job) : Job × CounterOp :=
  ({ job with guarded := true }, .fetchAdd)

/-- `Drop` of the guard, if it is still alive. -/
def Job.dropGuard (job : Job) : Job × CounterOp :=
  if job.guarded then ({ job with guarded := false }, .fetchSub) else (job, .keep)

/-- `enqueue_notification`. -/
def Job.enqueueNotification (job : Job) (final : SubagentJobState) : Job :=
  if final.isTerminal then { job with enqueued := job.enqueued ++ [notificationOf final] } else job

/-- A step of a `cancel_job` call that has found its job. -/
def Job.cancelStep (job : Job) (k now : Nat) : CancelCall → Option Job
  | .found => some { job with cancelled := true, cancels := job.cancels.set k .flagged }
  | .flagged => some { job with
      aborted := job.aborted || job.hasTask, cancels := job.cancels.set k .aborted }
  | .aborted =>
    if job.state.isTerminal then some { job with cancels := job.cancels.set k .returned }
    else
      let state := .cancelled now none
      some { job with state := state, cancels := job.cancels.set k (.took state) }
  | .took state => some { job.enqueueNotification state with cancels := job.cancels.set k .returned }
  | .returned => none

def jobStep (job : Job) : JobMove → Option (Job × CounterOp)
  | .start =>
    if job.stage = .listed then some { job with stage := .scheduled }.newGuard else none
  | .storeHandle =>
    if job.spawning ∧ job.stage ≠ .listed then
      some ({ job with hasTask := true, spawning := false }, .keep)
    else none
  | .dropSpawn =>
    if job.spawning ∧ job.stage ≠ .listed then some ({ job with spawning := false }, .keep)
    else none
  | .writeRunning now =>
    if job.stage = .scheduled then
      some ({ job with state := .running now, stage := .executing }, .keep)
    else none
  | .execute collected now outcome =>
    if job.stage = .executing then
      let executed := job.execution.executedState collected job.cancelled now outcome
      some ({ job with stage := .executed executed }, .keep)
    else none
  | .readFlag now =>
    match job.stage with
    | .executed executed =>
      some ({ job with stage := .finishing (overrideCancelled job.cancelled now executed) }, .keep)
    | _ => none
  | .enqueue =>
    match job.stage with
    | .finishing final =>
      let notified :=
        match job.mode with
        | .foreground => job
        | .background => job.enqueueNotification final
      some ({ notified with stage := .storing final }, .keep)
    | _ => none
  | .storeFinal =>
    match job.stage with
    | .storing final =>
      some ({ job with
        state := if job.state.isTerminal then job.state else final, stage := .finished }, .keep)
    | _ => none
  | .leave =>
    if job.stage = .finished then some { job with stage := .ended }.dropGuard else none
  | .panic message now =>
    if job.guarded ∧ job.stage ≠ .scheduled then
      some { job with
        stage := .finishing (.failed now s!"Subagent panicked: {message}" none) }.dropGuard
    else none
  | .dropTask =>
    if (job.aborted ∨ job.mode = .foreground) ∧ job.stage ≠ .listed ∧ job.stage ≠ .ended then
      some { job with stage := .ended }.dropGuard
    else none
  | .findJob =>
    if job.inJobs then some ({ job with cancels := job.cancels ++ [.found] }, .keep) else none
  | .cancel k now =>
    (job.cancels[k]?).bind fun call => (job.cancelStep k now call).map fun job => (job, .keep)
  | .dropCancel k =>
    if k < job.cancels.length then
      some ({ job with cancels := job.cancels.set k .returned }, .keep)
    else none
  | .consume now =>
    if job.state.isTerminal then
      some ({ job with consumedAt := some (job.consumedAt.getD now) }, .keep)
    else none
  | .expire now =>
    match job.state.finishedAt with
    | none => none
    | some finishedAt =>
      let ttl :=
        if job.consumedAt.isSome then consumedTerminalJobTtl else unconsumedTerminalJobTtl
      if job.inJobs ∧ ttl ≤ now - finishedAt then some ({ job with inJobs := false }, .keep)
      else none

/-! ## The runtime -/

structure SubagentRuntime where
  maxConcurrentJobs : Nat
  runningJobs : Nat := 0
  /-- the spawn calls that have passed the test of the counter and not listed their job -/
  tested : Nat := 0
  jobs : List Job := []

def SubagentRuntime.new (maxConcurrentJobs : Nat) : SubagentRuntime :=
  { maxConcurrentJobs := max maxConcurrentJobs 1 }

def tooManyJobsMessage : String :=
  "Too many concurrent subagent jobs. Wait for existing jobs to finish before spawning more."

/-- The test at the beginning of `spawn_job_with_limits`. -/
def SubagentRuntime.checkLimit (s : SubagentRuntime) : Except ToolError Unit :=
  if s.runningJobs ≥ s.maxConcurrentJobs then .error (.executionFailed tooManyJobsMessage)
  else .ok ()

inductive RuntimeMove where
  | testLimit
  /-- a spawn call is dropped while it waits for the lock of the `jobs` map -/
  | dropSpawn
  | list (execution : SubagentExecutionRequest)
  | runSync (execution : SubagentExecutionRequest)
  | job (i : Nat) (move : JobMove)

def CounterOp.apply (counter : Nat) : CounterOp → Nat
  | .keep => counter
  | .fetchAdd => counter + 1
  | .fetchSub => counter - 1

def runtimeStep (s : SubagentRuntime) : RuntimeMove → Option SubagentRuntime
  | .testLimit =>
    match s.checkLimit with
    | .error _ => some s
    | .ok _ => some { s with tested := s.tested + 1 }
  | .dropSpawn => if 0 < s.tested then some { s with tested := s.tested - 1 } else none
  | .list execution =>
    if 0 < s.tested then
      some { s with
        tested := s.tested - 1
        jobs := s.jobs ++ [{
          mode := .background, execution := execution, stage := .listed
          inJobs := true, spawning := true }] }
    else none
  | .runSync execution =>
    some { s with
      jobs := s.jobs ++ [{
        mode := .foreground, execution := execution, stage := .scheduled
        inJobs := false, spawning := false }] }
  | .job i move =>
    (s.jobs[i]?).bind fun job => (jobStep job move).map fun (job', op) =>
      { s with runningJobs := op.apply s.runningJobs, jobs := s.jobs.set i job' }

/-! ## The counter and the limit -/

/-- The number of guards alive. -/
def SubagentRuntime.liveGuards (s : SubagentRuntime) : Nat := s.jobs.countP (·.guarded)

/-- A guard lives only while the task does. -/
def Job.GuardInTask (job : Job) : Prop :=
  job.guarded = true → job.stage ≠ .listed ∧ job.stage ≠ .ended

section Guards

variable {job job' : Job} {move : JobMove} {op : CounterOp}

lemma dropGuard_cases (h : job.dropGuard = (job', op)) :
    (job.guarded = false ∧ job' = job ∧ op = .keep) ∨
      (job.guarded = true ∧ job' = { job with guarded := false } ∧ op = .fetchSub) := by
  unfold Job.dropGuard at h
  split at h
  · next hguarded =>
    cases h
    exact .inr ⟨hguarded, rfl, rfl⟩
  · next hguarded =>
    cases h
    exact .inl ⟨by simpa using hguarded, rfl, rfl⟩

/-- The counter operation of a step is what the step does to the guard. -/
def CounterOp.Records (op : CounterOp) (job job' : Job) : Prop :=
  match op with
  | .keep => job'.guarded = job.guarded
  | .fetchAdd => job.guarded = false ∧ job'.guarded = true
  | .fetchSub => job.guarded = true ∧ job'.guarded = false

lemma records_dropGuard {moved : Job} (hguarded : moved.guarded = job.guarded)
    (h : moved.dropGuard = (job', op)) : op.Records job job' := by
  obtain ⟨-, rfl, rfl⟩ | ⟨hlive, rfl, rfl⟩ := dropGuard_cases h
  · exact hguarded
  · exact ⟨hguarded.symm.trans hlive, rfl⟩

lemma guarded_of_dropGuard {moved : Job} (h : moved.dropGuard = (job', op)) :
    job'.guarded = false ∧ job'.stage = moved.stage := by
  obtain ⟨hfree, rfl, -⟩ | ⟨-, rfl, -⟩ := dropGuard_cases h
  · exact ⟨hfree, rfl⟩
  · exact ⟨rfl, rfl⟩

lemma enqueueNotification_of_terminal {final : SubagentJobState} (h : final.isTerminal = true) :
    job.enqueueNotification final =
      { job with enqueued := job.enqueued ++ [notificationOf final] } := by
  rw [Job.enqueueNotification, if_pos h]

lemma guarded_enqueueNotification (final : SubagentJobState) :
    (job.enqueueNotification final).guarded = job.guarded := by
  unfold Job.enqueueNotification
  split <;> rfl

/-- A cancelling call leaves the task to itself. -/
lemma cancelStep_frame {k now : Nat} {call : CancelCall} (h : job.cancelStep k now call = some job') :
    job'.stage = job.stage ∧ job'.guarded = job.guarded ∧ job'.mode = job.mode := by
  cases call with
  | found | flagged =>
    cases h
    exact ⟨rfl, rfl, rfl⟩
  | aborted =>
    simp only [Job.cancelStep] at h
    split at h <;> cases h <;> exact ⟨rfl, rfl, rfl⟩
  | took state =>
    cases h
    unfold Job.enqueueNotification
    split <;> exact ⟨rfl, rfl, rfl⟩
  | returned => cases h

/-- What a step does with the guard: the counter records it, only the start of the task makes one,
and a listed or ended job has none. -/
lemma jobStep_guard (hok : job.GuardInTask) (h : jobStep job move = some (job', op)) :
    job'.GuardInTask ∧ op.Records job job' ∧ (op = .fetchAdd → move = .start) := by
  -- a step that leaves the guard alone and does not take the stage out of the task
  have keep : ∀ moved : Job, moved.guarded = job.guarded →
      (moved.stage = job.stage ∨ (moved.stage ≠ .listed ∧ moved.stage ≠ .ended)) →
        moved.GuardInTask ∧ CounterOp.keep.Records job moved ∧
          (CounterOp.keep = .fetchAdd → move = .start) := by
    intro moved hguarded hstage
    refine ⟨fun hlive => ?_, hguarded, nofun⟩
    rcases hstage with hstage | hstage
    · rw [hstage]
      exact hok (hguarded ▸ hlive)
    · exact hstage
  -- a step that drops the guard if there is one
  have drop : ∀ moved : Job, moved.guarded = job.guarded → moved.dropGuard = (job', op) →
      job'.GuardInTask ∧ op.Records job job' ∧ (op = .fetchAdd → move = .start) := by
    intro moved hguarded hdrop
    refine ⟨fun hlive => ?_, records_dropGuard hguarded hdrop, ?_⟩
    · rw [(guarded_of_dropGuard hdrop).1] at hlive
      cases hlive
    · rintro rfl
      obtain ⟨-, -, hop⟩ | ⟨-, -, hop⟩ := dropGuard_cases hdrop <;> cases hop
  cases move with
  | start =>
    simp only [jobStep, Job.newGuard, Option.ite_none_right_eq_some, Option.some.injEq,
      Prod.mk.injEq] at h
    obtain ⟨hlisted, rfl, rfl⟩ := h
    refine ⟨fun _ => ⟨nofun, nofun⟩, ⟨?_, rfl⟩, fun _ => rfl⟩
    cases hguarded : job.guarded with
    | false => rfl
    | true => exact absurd hlisted (hok hguarded).1
  | storeHandle | dropSpawn | consume =>
    simp only [jobStep, Option.ite_none_right_eq_some, Option.some.injEq, Prod.mk.injEq] at h
    obtain ⟨-, rfl, rfl⟩ := h
    exact keep _ rfl (.inl rfl)
  | writeRunning now | execute collected now outcome =>
    simp only [jobStep, Option.ite_none_right_eq_some, Option.some.injEq, Prod.mk.injEq] at h
    obtain ⟨-, rfl, rfl⟩ := h
    exact keep _ rfl (.inr ⟨nofun, nofun⟩)
  | readFlag now | storeFinal =>
    simp only [jobStep] at h
    split at h <;> cases h
    exact keep _ rfl (.inr ⟨nofun, nofun⟩)
  | enqueue =>
    simp only [jobStep] at h
    split at h <;> cases h
    refine keep _ ?_ (.inr ⟨nofun, nofun⟩)
    split
    · rfl
    · exact guarded_enqueueNotification _
  | leave | panic message now | dropTask =>
    simp only [jobStep, Option.ite_none_right_eq_some, Option.some.injEq] at h
    exact drop _ (by rfl) h.2
  | findJob | dropCancel k =>
    simp only [jobStep, Option.ite_none_right_eq_some, Option.some.injEq, Prod.mk.injEq] at h
    obtain ⟨-, rfl, rfl⟩ := h
    exact keep _ rfl (.inl rfl)
  | cancel k now =>
    simp only [jobStep, Option.bind_eq_some_iff, Option.map_eq_some_iff, Prod.mk.injEq] at h
    obtain ⟨call, -, moved, hmoved, rfl, rfl⟩ := h
    obtain ⟨hstage, hguarded, -⟩ := cancelStep_frame hmoved
    exact keep _ hguarded (.inl hstage)
  | expire now =>
    simp only [jobStep] at h
    split at h
    · cases h
    · simp only [Option.ite_none_right_eq_some, Option.some.injEq, Prod.mk.injEq] at h
      obtain ⟨-, rfl, rfl⟩ := h
      exact keep _ rfl (.inl rfl)

end Guards

/-- The counter is the number of guards alive, and guards are where the tasks are. -/
structure Counted (s : SubagentRuntime) : Prop where
  counter : s.runningJobs = s.liveGuards
  inTask : ∀ job ∈ s.jobs, job.GuardInTask

section Counter

variable {s s' : SubagentRuntime}

lemma liveGuards_set {i : Nat} {job : Job} (h : s.jobs[i]? = some job) (job' : Job) :
    (s.jobs.set i job').countP (·.guarded) + job.guarded.toNat =
      s.liveGuards + job'.guarded.toNat := by
  obtain ⟨hlt, rfl⟩ := List.getElem?_eq_some_iff.mp h
  have hpos : (s.jobs[i]).guarded = true → 0 < s.jobs.countP (·.guarded) := fun hlive =>
    List.countP_pos_iff.mpr ⟨_, List.getElem_mem hlt, hlive⟩
  rw [List.countP_set hlt, SubagentRuntime.liveGuards]
  cases hold : (s.jobs[i]).guarded with
  | false => cases job'.guarded <;> simp
  | true =>
    have := hpos hold
    cases job'.guarded <;> simp <;> omega

/-- The guards after a step: one more exactly when a task was started. -/
lemma liveGuards_step (hs : Counted s) {i : Nat} {move : JobMove} {job job' : Job} {op : CounterOp}
    (hjob : s.jobs[i]? = some job) (hstep : jobStep job move = some (job', op)) :
    (s.jobs.set i job').countP (·.guarded) = op.apply s.liveGuards ∧
      (op = .fetchAdd ↔ move = .start) := by
  have hset := liveGuards_set hjob job'
  obtain ⟨-, hrecords, hadd⟩ :=
    jobStep_guard (hs.inTask job (List.mem_of_getElem? hjob)) hstep
  refine ⟨?_, hadd, ?_⟩
  · cases op with
    | keep =>
      rw [show job'.guarded = job.guarded from hrecords] at hset
      exact Nat.add_right_cancel hset
    | fetchAdd =>
      obtain ⟨hold, hnew⟩ := hrecords
      simp only [hold, hnew, Bool.toNat_true, Bool.toNat_false] at hset
      exact hset
    | fetchSub =>
      obtain ⟨hold, hnew⟩ := hrecords
      simp only [hold, hnew, Bool.toNat_true, Bool.toNat_false] at hset
      exact Nat.eq_sub_of_add_eq hset
  · rintro rfl
    simp only [jobStep, Job.newGuard, Option.ite_none_right_eq_some, Option.some.injEq,
      Prod.mk.injEq] at hstep
    exact hstep.2.2.symm

lemma Counted.step (hs : Counted s) {move : RuntimeMove} (h : runtimeStep s move = some s') :
    Counted s' := by
  cases move with
  | testLimit =>
    simp only [runtimeStep] at h
    split at h <;> cases h <;> exact ⟨hs.counter, hs.inTask⟩
  | dropSpawn =>
    simp only [runtimeStep, Option.ite_none_right_eq_some, Option.some.injEq] at h
    obtain ⟨-, rfl⟩ := h
    exact ⟨hs.counter, hs.inTask⟩
  | list execution =>
    simp only [runtimeStep, Option.ite_none_right_eq_some, Option.some.injEq] at h
    obtain ⟨-, rfl⟩ := h
    refine ⟨by simpa [SubagentRuntime.liveGuards] using hs.counter, fun job hjob => ?_⟩
    rcases List.mem_append.mp hjob with hjob | hjob
    · exact hs.inTask job hjob
    · cases List.mem_singleton.mp hjob
      exact nofun
  | runSync execution =>
    cases h
    refine ⟨by simpa [SubagentRuntime.liveGuards] using hs.counter, fun job hjob => ?_⟩
    rcases List.mem_append.mp hjob with hjob | hjob
    · exact hs.inTask job hjob
    · cases List.mem_singleton.mp hjob
      exact nofun
  | job i move =>
    simp only [runtimeStep, Option.bind_eq_some_iff, Option.map_eq_some_iff] at h
    obtain ⟨job, hjob, ⟨job', op⟩, hstep, rfl⟩ := h
    refine ⟨?_, fun other hother => ?_⟩
    · have hlive := (liveGuards_step hs hjob hstep).1
      rw [SubagentRuntime.liveGuards, hlive, hs.counter]
    · rcases List.mem_or_eq_of_mem_set hother with hother | rfl
      · exact hs.inTask other hother
      · exact (jobStep_guard (hs.inTask job (List.mem_of_getElem? hjob)) hstep).1

lemma Counted.initial (maxConcurrentJobs : Nat) : Counted (.new maxConcurrentJobs) :=
  ⟨rfl, fun _ hjob => absurd hjob List.not_mem_nil⟩

end Counter

section Limit

variable {s s' : SubagentRuntime} {moves : List RuntimeMove} {maxConcurrentJobs : Nat}

end Limit

/-- A goal without a skill, as `spawn_job` requests it. -/
def goalRequest (goal : String) : SubagentExecutionRequest :=
  { displayGoal := goal, timeoutSec := 60, skillName := none }

end RustyClaw.Subagent
