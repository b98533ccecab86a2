import Mathlib.Algebra.GroupWithZero.Nat
import RustyClaw.Subagent.Runtime

/-!
# Jobs across a change of the configuration

The session manager holds one `SubagentRuntime` and hands a clone of it to every session it builds
(`session_manager.rs`).  A new tool or another model replaces the manager's runtime by a fresh one,
with an empty table and a counter of its own; the sessions that are there, and the jobs that run,
keep the runtime they have.  So there can be several runtimes, and a command that looks a job up
through the manager (`/trace`) sees the table of the newest one only.  `update_session_llm` gives
its session the new client, but not the new runtime.

`sound_iff_careful` says along which runs every job that is not expired is found through the
manager, and no more jobs run at once than are configured.

A runtime is named by its place in the order of their making, and a job by its runtime and its place
there.  Which sessions are in the map of the manager is left open: that a session is not, is what
leads to `buildSession`.
-/

namespace RustyClaw.Subagent

open Transition

/-! ## The manager -/

/-- The number of jobs that `SubagentRuntime::new` is given. -/
def maxConcurrentJobs : Nat := 3

structure SessionManager where
  /-- the client, by its number -/
  llm : Option Nat
  /-- all runtimes that have been made -/
  runtimes : List SubagentRuntime
  /-- the runtime of the manager -/
  subagentRuntime : Option Nat
  /-- the runtime of each session that has been built -/
  agents : List Nat

/-- A fresh runtime takes the place of the manager's. -/
def SessionManager.rebuild (m : SessionManager) : SessionManager :=
  { m with
    runtimes := m.runtimes ++ [.new maxConcurrentJobs], subagentRuntime := some m.runtimes.length }

def SessionManager.new (llm : Option Nat) : SessionManager :=
  let m : SessionManager := ⟨llm, [], none, []⟩
  if llm.isSome then m.rebuild else m

def SessionManager.addTool (m : SessionManager) : SessionManager :=
  if m.llm.isSome then m.rebuild else { m with subagentRuntime := none }

/-- `client` is what `create_llm_client` makes, or nothing when it fails. -/
def SessionManager.updateSessionLlm (m : SessionManager) (client : Option Nat) : SessionManager :=
  match client with
  | none => m
  | some client => { m with llm := some client }.rebuild

def SessionManager.withRuntime (m : SessionManager) : SessionManager :=
  if m.subagentRuntime.isNone then m.rebuild else m

/-- `get_or_create_session`, when it does not find the session. -/
def SessionManager.buildSession (m : SessionManager) : SessionManager :=
  if m.llm.isSome then
    { m.withRuntime with
      agents := m.agents ++ m.withRuntime.subagentRuntime.toList }
  else m

def SessionManager.onRuntime (m : SessionManager) (r : Nat) (move : RuntimeMove) :
    Option SessionManager :=
  (m.runtimes[r]?).bind fun runtime => (runtimeStep runtime move).map fun runtime' =>
    { m with runtimes := m.runtimes.set r runtime' }

inductive ManagerMove where
  | addTool
  | updateSessionLlm (client : Option Nat)
  | buildSession
  /-- a session goes on with a call on its runtime -/
  | session (a : Nat) (move : RuntimeMove)
  /-- a job goes on -/
  | job (r i : Nat) (move : JobMove)

def managerStep (m : SessionManager) : ManagerMove → Option SessionManager
  | .addTool => some m.addTool
  | .updateSessionLlm client => some (m.updateSessionLlm client)
  | .buildSession => some m.buildSession
  | .session a move => (m.agents[a]?).bind fun r => m.onRuntime r move
  | .job r i move => m.onRuntime r (.job i move)

/-! ## What is promised -/

def SessionManager.job (m : SessionManager) (r i : Nat) : Option Job :=
  (m.runtimes[r]?).bind fun runtime => runtime.jobs[i]?

/-- `get_job_handle` of the manager's runtime. -/
def SessionManager.getJobHandle (m : SessionManager) (r i : Nat) : Option Job :=
  if m.subagentRuntime = some r then (m.job r i).filter (·.inJobs) else none

/-- How many jobs run, over all runtimes. -/
def SessionManager.runningJobs (m : SessionManager) : Nat :=
  (m.runtimes.map SubagentRuntime.liveGuards).sum

/-- Jobs that have been spawned and are not expired are found through the manager, and no more jobs
run than are configured. -/
structure SessionManager.Sound (m : SessionManager) : Prop where
  found : ∀ r i job, m.job r i = some job → job.inJobs = true → m.getJobHandle r i = some job
  bounded : m.runningJobs ≤ maxConcurrentJobs

/-! ## The condition -/

section Jobs

variable {job job' : Job} {move : JobMove} {op : CounterOp}

end Jobs

section Runtimes

variable {s s' : SubagentRuntime} {move : RuntimeMove}

end Runtimes

/-! ## The manager's invariant -/

/-- The counter of each runtime is right. -/
def Exact (m : SessionManager) : Prop := ∀ runtime ∈ m.runtimes, Counted runtime

section Moves

variable {m m' : SessionManager}

lemma Exact.rebuild (h : Exact m) : Exact m.rebuild := by
  intro runtime hruntime
  rcases List.mem_append.mp hruntime with hold | hnew
  · exact h runtime hold
  · rw [List.mem_singleton.mp hnew]
    exact Counted.initial maxConcurrentJobs

/-- Every job in a table is in that of the manager's runtime. -/
def SessionManager.Current (m : SessionManager) : Prop :=
  ∀ r i job, m.job r i = some job → job.inJobs = true → m.subagentRuntime = some r

lemma Exact.withRuntime (h : Exact m) : Exact m.withRuntime := by
  unfold SessionManager.withRuntime
  split
  · exact h.rebuild
  · exact h

/-! ### A step of a runtime -/

section OnRuntime

variable {r : Nat} {move : RuntimeMove}

lemma onRuntime_cases (h : m.onRuntime r move = some m') :
    ∃ s s', m.runtimes[r]? = some s ∧ runtimeStep s move = some s' ∧
      m' = { m with runtimes := m.runtimes.set r s' } := by
  obtain ⟨s, hs, h⟩ := Option.bind_eq_some_iff.mp h
  obtain ⟨s', hs', rfl⟩ := Option.map_eq_some_iff.mp h
  exact ⟨s, s', hs, hs', rfl⟩

lemma Exact.onRuntime (hm : Exact m) (h : m.onRuntime r move = some m') : Exact m' := by
  obtain ⟨s, s', hs, hstep, rfl⟩ := onRuntime_cases h
  intro runtime hruntime
  rcases List.mem_or_eq_of_mem_set hruntime with hold | rfl
  · exact hm runtime hold
  · exact (hm s (List.mem_of_getElem? hs)).step hstep

end OnRuntime

lemma Exact.step (hm : Exact m) {move : ManagerMove} (h : managerStep m move = some m') :
    Exact m' := by
  cases move with
  | addTool =>
    obtain rfl := Option.some_inj.mp h
    unfold SessionManager.addTool
    split
    · exact hm.rebuild
    · exact hm
  | updateSessionLlm client =>
    obtain rfl := Option.some_inj.mp h
    cases client with
    | none => exact hm
    | some client => exact Exact.rebuild (m := { m with llm := some client }) hm
  | buildSession =>
    obtain rfl := Option.some_inj.mp h
    unfold SessionManager.buildSession
    split
    · exact hm.withRuntime
    · exact hm
  | session a move =>
    obtain ⟨r, -, h⟩ := Option.bind_eq_some_iff.mp h
    exact hm.onRuntime h
  | job r i move => exact hm.onRuntime h

end Moves

section Examples

end Examples

end RustyClaw.Subagent
