import RustyClaw.Subagent.Runtime

/-!
# The life cycle of a subagent job

A background job ends in one of two ways.  `finish_job` enqueues the notification and then, under
the lock of the state, makes the state terminal unless it already is; `cancel_job` first makes the
state `Cancelled` under that lock, unless it is terminal, and then enqueues.  Each looks at the
state only when it writes it, and `run_job` writes `Running` without looking at all.

`Job.LifeCycle` is what a parent may rely on: at most one notification, and for a terminal state
exactly one, which has its status (or the call of `cancel_job` that made the state terminal is
just about to enqueue it).  `Job.Undisturbed` lists the moments at which the two ways get in each
other's way, and `lifeCycle_of_undisturbed` says that a run that avoids them keeps the law, and that
in such a run terminal states are final.
-/

namespace RustyClaw.Subagent

open Transition

/-! ## The law and the condition -/

/-- The state a call of `cancel_job` has written and not yet announced. -/
def CancelCall.took? : CancelCall → Option SubagentJobState
  | .took state => some state
  | _ => none

@[simp] lemma took?_took (state : SubagentJobState) : (CancelCall.took state).took? = some state :=
  rfl

/-- The states that calls of `cancel_job` are about to announce. -/
def Job.toAnnounce (job : Job) : List SubagentJobState := job.cancels.filterMap CancelCall.took?

/-- Exactly one notification was enqueued, with the status of the job's state. -/
def Job.Announced (job : Job) : Prop :=
  ∃ notification, job.enqueued = [notification] ∧ notification.status = job.state.finishReason

structure Job.LifeCycle (job : Job) : Prop where
  atMostOnce : job.enqueued.length ≤ 1
  announced : job.mode = .background → job.state.isTerminal = true →
    job.Announced ∨ (job.enqueued = [] ∧ job.toAnnounce = [job.state])

/-- The steps at which the life cycle is kept: the task takes its first step, and enqueues, only
while the state is not terminal; it does not panic once it has enqueued; `cancel_job` takes the
state only while nothing is enqueued, and is not dropped between the state and the
notification. -/
def Job.Undisturbed (job : Job) : JobMove → Prop
  | .writeRunning _ | .enqueue => job.state.isTerminal = false
  | .panic .. => (∀ final, job.stage ≠ .storing final) ∧ job.stage ≠ .finished
  | .cancel k _ =>
    job.cancels[k]? = some .aborted → job.state.isTerminal = false → job.enqueued = []
  | .dropCancel k => ∀ state, job.cancels[k]? ≠ some (.took state)
  | _ => True

def Undisturbed (s : SubagentRuntime) (move : RuntimeMove) : Prop :=
  ∀ i m, move = .job i m → ∀ job, s.jobs[i]? = some job → job.Undisturbed m

/-! ## What an undisturbed step keeps -/

/-- Where the task and the cancelling calls stand, and what has been enqueued by then. -/
structure Job.Sound (job : Job) : Prop where
  /-- nobody cancels or announces a foreground job -/
  foreground : job.mode = .foreground →
    job.inJobs = false ∧ job.cancels = [] ∧ job.enqueued = []
  executed : ∀ state, job.stage = .executed state → state.isTerminal = true
  finishing : ∀ final, job.stage = .finishing final → final.isTerminal = true
  storing : ∀ final, job.stage = .storing final → final.isTerminal = true ∧
    job.state.isTerminal = false ∧ (job.mode = .background → job.enqueued = [notificationOf final])
  finished : job.stage = .finished → job.state.isTerminal = true
  /-- before the end, only `finish_job` enqueues -/
  unsettled : job.state.isTerminal = false → job.toAnnounce = [] ∧ job.enqueued.length ≤ 1 ∧
    (job.enqueued = [] ∨ job.stage = .ended ∨ ∃ final, job.stage = .storing final)
  settled : job.mode = .background → job.state.isTerminal = true →
    (job.toAnnounce = [] ∧ job.Announced) ∨ (job.enqueued = [] ∧ job.toAnnounce = [job.state])

section CancelCalls

variable {cancels : List CancelCall} {k : Nat} {call call' : CancelCall}
  {state : SubagentJobState}

/-- Setting an entry replaces it between what stands around it. -/
lemma exists_split_set (hlt : k < cancels.length) (call : CancelCall) :
    ∃ l r, cancels = l ++ cancels[k] :: r ∧ cancels.set k call = l ++ call :: r := by
  obtain ⟨l, r, hsplit, -, hset⟩ := List.exists_of_set hlt
  exact ⟨l, r, hsplit, hset⟩

lemma filterMap_set_of_none (hcall : cancels[k]? = some call) (h : call.took? = none)
    (h' : call'.took? = none) :
    (cancels.set k call').filterMap CancelCall.took? = cancels.filterMap CancelCall.took? := by
  obtain ⟨hlt, rfl⟩ := List.getElem?_eq_some_iff.mp hcall
  obtain ⟨l, r, hsplit, hset⟩ := exists_split_set hlt call'
  rw [hset]
  conv_rhs => rw [hsplit]
  simp [List.filterMap_append, h, h']

lemma filterMap_set_took (hcall : cancels[k]? = some call) (h : call.took? = none)
    (hnone : cancels.filterMap CancelCall.took? = []) :
    (cancels.set k (.took state)).filterMap CancelCall.took? = [state] := by
  obtain ⟨hlt, rfl⟩ := List.getElem?_eq_some_iff.mp hcall
  obtain ⟨l, r, hsplit, hset⟩ := exists_split_set hlt (.took state)
  rw [hsplit, List.filterMap_append, List.filterMap_cons_none h, List.append_eq_nil_iff] at hnone
  rw [hset, List.filterMap_append, List.filterMap_cons_some (took?_took state), hnone.1, hnone.2]
  rfl

lemma filterMap_set_returned (hcall : cancels[k]? = some (.took state))
    (hone : cancels.filterMap CancelCall.took? = [state]) :
    (cancels.set k .returned).filterMap CancelCall.took? = [] := by
  obtain ⟨hlt, hget⟩ := List.getElem?_eq_some_iff.mp hcall
  obtain ⟨l, r, hsplit, hset⟩ := exists_split_set hlt .returned
  rw [hget] at hsplit
  rw [hsplit, List.filterMap_append, List.filterMap_cons_some (took?_took state)] at hone
  have hlength := congrArg List.length hone
  simp only [List.length_append, List.length_cons, List.length_nil] at hlength
  rw [hset, List.filterMap_append, List.filterMap_cons_none rfl,
    List.eq_nil_of_length_eq_zero (l := l.filterMap CancelCall.took?) (by omega),
    List.eq_nil_of_length_eq_zero (l := r.filterMap CancelCall.took?) (by omega)]
  rfl

end CancelCalls

namespace Job.Sound

variable {job job' : Job} {move : JobMove} {op : CounterOp}

lemma congr (hs : job.Sound) (hmode : job'.mode = job.mode)
    (hlisted : job'.inJobs = true → job.inJobs = true) (hcancels : job'.cancels = job.cancels)
    (henqueued : job'.enqueued = job.enqueued) (hstage : job'.stage = job.stage)
    (hstate : job'.state = job.state) : job'.Sound := by
  have hannounce : job'.toAnnounce = job.toAnnounce := by
    rw [Job.toAnnounce, hcancels, Job.toAnnounce]
  refine ⟨?_, ?_, ?_, ?_, ?_, ?_, ?_⟩
  · rw [hmode, hcancels, henqueued]
    intro hforeground
    obtain ⟨hin, hrest⟩ := hs.foreground hforeground
    refine ⟨?_, hrest⟩
    by_contra hnot
    rw [hlisted (by simpa using hnot)] at hin
    cases hin
  · rw [hstage]
    exact hs.executed
  · rw [hstage]
    exact hs.finishing
  · rw [hstage, hstate, hmode, henqueued]
    exact hs.storing
  · rw [hstage, hstate]
    exact hs.finished
  · rw [hstage, hstate, hannounce, henqueued]
    exact hs.unsettled
  · rw [hstate, hmode, hannounce, henqueued, Job.Announced, henqueued, hstate]
    exact hs.settled

/-- A job whose task has not started, and which nobody cancelled. -/
lemma fresh (hlisted : job.mode = .foreground → job.inJobs = false)
    (hstage : job.stage = .listed ∨ job.stage = .scheduled)
    (hopen : job.state.isTerminal = false) (hcancels : job.cancels = [])
    (henqueued : job.enqueued = []) : job.Sound := by
  refine ⟨fun hforeground => ⟨hlisted hforeground, hcancels, henqueued⟩, ?_, ?_, ?_, ?_, ?_, ?_⟩
  · rcases hstage with hstage | hstage <;> simp [hstage]
  · rcases hstage with hstage | hstage <;> simp [hstage]
  · rcases hstage with hstage | hstage <;> simp [hstage]
  · rcases hstage with hstage | hstage <;> simp [hstage]
  · exact fun _ => ⟨by simp [Job.toAnnounce, hcancels], by simp [henqueued], .inl henqueued⟩
  · exact fun _ hclosed => absurd hclosed (by simp [hopen])

/-- The task goes from one place to another in front of its notification. -/
lemma restage (hs : job.Sound) {stage : Stage} (hended : job.stage ≠ .ended)
    (hstoring : ∀ final, job.stage ≠ .storing final)
    (hexecuted : ∀ state, stage = .executed state → state.isTerminal = true)
    (hfinishing : ∀ final, stage = .finishing final → final.isTerminal = true)
    (hstoring' : ∀ final, stage ≠ .storing final) (hfinished : stage ≠ .finished) :
    { job with stage := stage }.Sound := by
  refine ⟨hs.foreground, hexecuted, hfinishing, fun final h => absurd h (hstoring' final),
    fun h => absurd h hfinished, fun hopen => ?_, hs.settled⟩
  obtain ⟨hnone, hlength, hnil | hend | ⟨final, hfinal⟩⟩ := hs.unsettled hopen
  · exact ⟨hnone, hlength, .inl hnil⟩
  · exact absurd hend hended
  · exact absurd hfinal (hstoring final)

/-- The task is over, wherever it was. -/
lemma ended (hs : job.Sound) : { job with stage := .ended }.Sound := by
  refine ⟨hs.foreground, fun _ => nofun, fun _ => nofun, fun _ => nofun,
    nofun, fun hopen => ?_, hs.settled⟩
  obtain ⟨hnone, hlength, -⟩ := hs.unsettled hopen
  exact ⟨hnone, hlength, .inr (.inl rfl)⟩

lemma dropGuard (hs : job.Sound) (h : job.dropGuard = (job', op)) : job'.Sound := by
  obtain ⟨-, rfl, -⟩ | ⟨-, rfl, -⟩ := dropGuard_cases h
  · exact hs
  · exact hs.congr rfl id rfl rfl rfl rfl

/-- As long as the state is not terminal, no call is about to announce it. -/
lemma nonterminal_of_enqueue (hs : job.Sound) {final : SubagentJobState}
    (hstage : job.stage = .finishing final) (hopen : job.state.isTerminal = false) :
    job.enqueued = [] := by
  obtain ⟨-, -, hnil | hend | ⟨final', hfinal⟩⟩ := hs.unsettled hopen
  · exact hnil
  · cases hstage.symm.trans hend
  · cases hstage.symm.trans hfinal

lemma enqueue (hs : job.Sound) {final : SubagentJobState} (hstage : job.stage = .finishing final)
    (hopen : job.state.isTerminal = false) :
    { (match job.mode with
        | .foreground => job
        | .background => job.enqueueNotification final) with stage := .storing final }.Sound := by
  have hfinal := hs.finishing final hstage
  have hnil := hs.nonterminal_of_enqueue hstage hopen
  have hnone := (hs.unsettled hopen).1
  cases hmode : job.mode with
  | foreground =>
    refine ⟨hs.foreground, fun _ => nofun, fun _ => nofun, ?_, nofun,
      fun _ => ⟨hnone, by simp [hnil], .inl hnil⟩, hs.settled⟩
    rintro final' ⟨⟩
    exact ⟨hfinal, hopen, fun hbackground => by cases hmode.symm.trans hbackground⟩
  | background =>
    simp only [enqueueNotification_of_terminal hfinal, hnil, List.nil_append]
    refine ⟨fun hforeground => (by cases hmode.symm.trans hforeground), fun _ => nofun,
      fun _ => nofun, ?_, nofun,
      fun _ => ⟨hnone, Nat.le_refl 1, .inr (.inr ⟨final, rfl⟩)⟩, ?_⟩
    · rintro final' ⟨⟩
      exact ⟨hfinal, hopen, fun _ => rfl⟩
    · exact fun _ hclosed => by cases hopen.symm.trans hclosed

lemma storeFinal (hs : job.Sound) {final : SubagentJobState}
    (hstage : job.stage = .storing final) :
    { job with
      state := if job.state.isTerminal then job.state else final, stage := .finished }.Sound := by
  obtain ⟨hfinal, hopen, henqueued⟩ := hs.storing final hstage
  simp only [hopen, Bool.false_eq_true, if_false]
  refine ⟨hs.foreground, fun _ => nofun, fun _ => nofun, fun _ => nofun,
    fun _ => hfinal, fun h => (by cases hfinal.symm.trans h), fun hmode _ => .inl ?_⟩
  exact ⟨(hs.unsettled hopen).1, _, henqueued hmode, rfl⟩

/-- A call of `cancel_job` moves on without touching state or notifications. -/
lemma setCancel (hs : job.Sound) {k : Nat} {call call' : CancelCall}
    (hcall : job.cancels[k]? = some call) (h : call.took? = none) (h' : call'.took? = none) :
    { job with cancels := job.cancels.set k call' }.Sound := by
  have hannounce : (Job.toAnnounce { job with cancels := job.cancels.set k call' }) =
      job.toAnnounce := filterMap_set_of_none hcall h h'
  refine ⟨fun hforeground => ?_, hs.executed, hs.finishing, hs.storing, hs.finished, ?_, ?_⟩
  · obtain ⟨hin, hcancels, hnil⟩ := hs.foreground hforeground
    rw [hcancels] at hcall
    cases hcall
  · rw [hannounce]
    exact hs.unsettled
  · rw [hannounce]
    exact hs.settled

/-- A call of `cancel_job` makes the state `Cancelled`. -/
lemma take (hs : job.Sound) {k now : Nat} (hcall : job.cancels[k]? = some .aborted)
    (hopen : job.state.isTerminal = false) (hnil : job.enqueued = []) :
    { job with
      state := .cancelled now none, cancels := job.cancels.set k (.took (.cancelled now none)) }.Sound := by
  have hannounce : (job.cancels.set k (.took (.cancelled now none))).filterMap CancelCall.took? =
      [.cancelled now none] := filterMap_set_took hcall rfl (hs.unsettled hopen).1
  refine ⟨fun hforeground => ?_, hs.executed, hs.finishing, fun final hfinal => ?_, fun _ => rfl,
    nofun, fun _ _ => .inr ⟨hnil, hannounce⟩⟩
  · rw [(hs.foreground hforeground).2.1] at hcall
    cases hcall
  · cases hmode : job.mode with
    | foreground =>
      rw [(hs.foreground hmode).2.1] at hcall
      cases hcall
    | background =>
      rw [(hs.storing final hfinal).2.2 hmode] at hnil
      cases hnil

/-- A call of `cancel_job` announces the state it has written. -/
lemma announce (hs : job.Sound) {k : Nat} {state : SubagentJobState}
    (hcall : job.cancels[k]? = some (.took state)) :
    { job.enqueueNotification state with cancels := job.cancels.set k .returned }.Sound := by
  have hmem : state ∈ job.toAnnounce :=
    List.mem_filterMap.mpr ⟨_, List.mem_of_getElem? hcall, rfl⟩
  have hmode : job.mode = .background := by
    cases hmode : job.mode with
    | background => rfl
    | foreground =>
      rw [(hs.foreground hmode).2.1] at hcall
      cases hcall
  have hclosed : job.state.isTerminal = true := by
    by_contra hopen
    rw [(hs.unsettled (by simpa using hopen)).1] at hmem
    cases hmem
  obtain ⟨hnone, -⟩ | ⟨hnil, hone⟩ := hs.settled hmode hclosed
  · rw [hnone] at hmem
    cases hmem
  · rw [hone, List.mem_singleton] at hmem
    subst hmem
    rw [enqueueNotification_of_terminal hclosed, hnil, List.nil_append]
    refine ⟨fun h => (by cases hmode.symm.trans h), hs.executed, hs.finishing, fun final hfinal => ?_,
      hs.finished, fun hopen => (by cases hclosed.symm.trans hopen), fun _ _ => .inl ⟨?_, _, rfl, rfl⟩⟩
    · cases hclosed.symm.trans (hs.storing final hfinal).2.1
    · exact filterMap_set_returned hcall hone

/-- Every undisturbed step keeps the job sound. -/
lemma step (hs : job.Sound) (hguard : job.GuardInTask) (hund : job.Undisturbed move)
    (h : jobStep job move = some (job', op)) : job'.Sound := by
  cases move with
  | start =>
    simp only [jobStep, Job.newGuard, Option.ite_none_right_eq_some, Option.some.injEq,
      Prod.mk.injEq] at h
    obtain ⟨hlisted, rfl, -⟩ := h
    have hscheduled : { job with stage := .scheduled }.Sound :=
      hs.restage (by simp [hlisted]) (by simp [hlisted]) (by simp) (by simp) (by simp) (by simp)
    exact hscheduled.congr rfl id rfl rfl rfl rfl
  | storeHandle | dropSpawn | consume =>
    simp only [jobStep, Option.ite_none_right_eq_some, Option.some.injEq, Prod.mk.injEq] at h
    obtain ⟨-, rfl, -⟩ := h
    exact hs.congr rfl id rfl rfl rfl rfl
  | writeRunning now =>
    simp only [jobStep, Option.ite_none_right_eq_some, Option.some.injEq, Prod.mk.injEq] at h
    obtain ⟨hscheduled, rfl, -⟩ := h
    have hopen : job.state.isTerminal = false := hund
    obtain ⟨hnone, hlength, hnil | hend | ⟨final, hfinal⟩⟩ := hs.unsettled hopen
    · exact ⟨hs.foreground, by simp, by simp, by simp, by simp,
        fun _ => ⟨hnone, hlength, .inl hnil⟩, by simp [SubagentJobState.isTerminal]⟩
    · cases hscheduled.symm.trans hend
    · cases hscheduled.symm.trans hfinal
  | execute collected now outcome =>
    simp only [jobStep, Option.ite_none_right_eq_some, Option.some.injEq, Prod.mk.injEq] at h
    obtain ⟨hexecuting, rfl, -⟩ := h
    refine hs.restage (by simp [hexecuting]) (by simp [hexecuting]) ?_ (by simp) (by simp) (by simp)
    rintro state ⟨⟩
    exact isTerminal_executedState ..
  | readFlag now =>
    simp only [jobStep] at h
    split at h
    · next executed hexecuted =>
      cases h
      refine hs.restage (by simp [hexecuted]) (by simp [hexecuted]) (by simp) ?_ (by simp) (by simp)
      rintro final ⟨⟩
      exact isTerminal_overrideCancelled (hs.executed executed hexecuted)
    · cases h
  | enqueue =>
    simp only [jobStep] at h
    split at h
    · next final hfinishing =>
      cases h
      exact hs.enqueue hfinishing hund
    · cases h
  | storeFinal =>
    simp only [jobStep] at h
    split at h
    · next final hstoring =>
      cases h
      exact hs.storeFinal hstoring
    · cases h
  | leave =>
    simp only [jobStep, Option.ite_none_right_eq_some, Option.some.injEq] at h
    exact hs.ended.dropGuard h.2
  | panic message now =>
    simp only [jobStep, Option.ite_none_right_eq_some, Option.some.injEq] at h
    obtain ⟨⟨hguarded, -⟩, hdrop⟩ := h
    refine Job.Sound.dropGuard (hs.restage (hguard hguarded).2 hund.1 ?_ ?_ ?_ ?_) hdrop
    · simp
    · rintro final ⟨⟩
      rfl
    · simp
    · simp
  | dropTask =>
    simp only [jobStep, Option.ite_none_right_eq_some, Option.some.injEq] at h
    exact hs.ended.dropGuard h.2
  | findJob =>
    simp only [jobStep, Option.ite_none_right_eq_some, Option.some.injEq, Prod.mk.injEq] at h
    obtain ⟨hlisted, rfl, -⟩ := h
    have hannounce : (Job.toAnnounce { job with cancels := job.cancels ++ [.found] }) =
        job.toAnnounce := by simp [Job.toAnnounce, CancelCall.took?]
    refine ⟨fun hforeground => ?_, hs.executed, hs.finishing, hs.storing, hs.finished, ?_, ?_⟩
    · cases hlisted.symm.trans (hs.foreground hforeground).1
    · rw [hannounce]
      exact hs.unsettled
    · rw [hannounce]
      exact hs.settled
  | cancel k now =>
    simp only [jobStep, Option.bind_eq_some_iff, Option.map_eq_some_iff, Prod.mk.injEq] at h
    obtain ⟨call, hcall, moved, hmoved, rfl, -⟩ := h
    cases call with
    | found | flagged =>
      cases hmoved
      exact (hs.setCancel hcall rfl rfl).congr rfl id rfl rfl rfl rfl
    | aborted =>
      simp only [Job.cancelStep] at hmoved
      split at hmoved
      · cases hmoved
        exact hs.setCancel hcall rfl rfl
      · next hopen =>
        cases hmoved
        have hopen : job.state.isTerminal = false := by simpa using hopen
        exact hs.take hcall hopen (hund hcall hopen)
    | took state =>
      cases hmoved
      exact hs.announce hcall
    | returned => cases hmoved
  | dropCancel k =>
    simp only [jobStep, Option.ite_none_right_eq_some, Option.some.injEq, Prod.mk.injEq] at h
    obtain ⟨hlt, rfl, -⟩ := h
    refine hs.setCancel (List.getElem?_eq_getElem hlt) ?_ rfl
    cases hcall : job.cancels[k] with
    | took state => exact absurd (List.getElem?_eq_some_iff.mpr ⟨hlt, hcall⟩) (hund state)
    | found | flagged | aborted | returned => rfl
  | expire now =>
    simp only [jobStep] at h
    split at h
    · cases h
    · simp only [Option.ite_none_right_eq_some, Option.some.injEq, Prod.mk.injEq] at h
      obtain ⟨-, rfl, -⟩ := h
      exact hs.congr rfl (by simp) rfl rfl rfl rfl

lemma lifeCycle (hs : job.Sound) : job.LifeCycle := by
  refine ⟨?_, fun hmode hclosed => ?_⟩
  · cases hopen : job.state.isTerminal with
    | false => exact (hs.unsettled hopen).2.1
    | true =>
      cases hmode : job.mode with
      | foreground => simp [(hs.foreground hmode).2.2]
      | background =>
        obtain ⟨-, notification, hone, -⟩ | ⟨hnil, -⟩ := hs.settled hmode hopen
        · simp [hone]
        · simp [hnil]
  · obtain ⟨-, hannounced⟩ | hpending := hs.settled hmode hclosed
    · exact .inl hannounced
    · exact .inr hpending

end Job.Sound

/-- An undisturbed step leaves a terminal state as it is. -/
lemma state_of_terminal {job job' : Job} {move : JobMove} {op : CounterOp}
    (hclosed : job.state.isTerminal = true) (hund : job.Undisturbed move)
    (h : jobStep job move = some (job', op)) : job'.state = job.state := by
  have hdropGuard : ∀ {moved : Job}, moved.state = job.state → moved.dropGuard = (job', op) →
      job'.state = job.state := by
    intro moved hstate hdrop
    obtain ⟨-, rfl, -⟩ | ⟨-, rfl, -⟩ := dropGuard_cases hdrop <;> exact hstate
  cases move with
  | start =>
    simp only [jobStep, Job.newGuard, Option.ite_none_right_eq_some, Option.some.injEq,
      Prod.mk.injEq] at h
    obtain ⟨-, rfl, -⟩ := h
    rfl
  | writeRunning now => cases hclosed.symm.trans hund
  | enqueue => cases hclosed.symm.trans hund
  | storeHandle | dropSpawn | consume | execute | findJob | dropCancel =>
    simp only [jobStep, Option.ite_none_right_eq_some, Option.some.injEq, Prod.mk.injEq] at h
    obtain ⟨-, rfl, -⟩ := h
    rfl
  | readFlag now =>
    simp only [jobStep] at h
    split at h <;> cases h
    rfl
  | storeFinal =>
    simp only [jobStep] at h
    split at h <;> cases h
    exact if_pos hclosed
  | leave | panic | dropTask =>
    simp only [jobStep, Option.ite_none_right_eq_some, Option.some.injEq] at h
    exact hdropGuard (by rfl) h.2
  | cancel k now =>
    simp only [jobStep, Option.bind_eq_some_iff, Option.map_eq_some_iff, Prod.mk.injEq] at h
    obtain ⟨call, hcall, moved, hmoved, rfl, -⟩ := h
    cases call with
    | found | flagged =>
      cases hmoved
      rfl
    | aborted =>
      rw [Job.cancelStep, if_pos hclosed] at hmoved
      cases hmoved
      rfl
    | took state =>
      cases hmoved
      unfold Job.enqueueNotification
      split <;> rfl
    | returned => cases hmoved
  | expire now =>
    simp only [jobStep] at h
    split at h
    · cases h
    · simp only [Option.ite_none_right_eq_some, Option.some.injEq, Prod.mk.injEq] at h
      obtain ⟨-, rfl, -⟩ := h
      rfl

/-! ## Runs -/

/-- Every job of the runtime is sound, with its guard inside its task. -/
def AllSound (s : SubagentRuntime) : Prop := ∀ job ∈ s.jobs, job.Sound ∧ job.GuardInTask

/-- A job that has a terminal state keeps it. -/
def KeepsTerminal (s s' : SubagentRuntime) : Prop :=
  ∀ (i : Nat) (job : Job), s.jobs[i]? = some job → job.state.isTerminal = true →
    ∃ job' : Job, s'.jobs[i]? = some job' ∧ job'.state = job.state

section Runs

variable {s s' : SubagentRuntime} {move : RuntimeMove}

/-- What a step does to the jobs: nothing, a new job, or a step of one of them. -/
lemma runtimeStep_jobs (h : runtimeStep s move = some s') :
    s'.jobs = s.jobs ∨
      (∃ job : Job, s'.jobs = s.jobs ++ [job] ∧ job.GuardInTask ∧ job.Sound) ∨
      ∃ (i : Nat) (m : JobMove) (job job' : Job) (op : CounterOp), move = .job i m ∧ s.jobs[i]? = some job ∧
        jobStep job m = some (job', op) ∧ s'.jobs = s.jobs.set i job' := by
  cases move with
  | testLimit =>
    simp only [runtimeStep] at h
    split at h <;> cases h <;> exact .inl rfl
  | dropSpawn =>
    simp only [runtimeStep, Option.ite_none_right_eq_some, Option.some.injEq] at h
    obtain ⟨-, rfl⟩ := h
    exact .inl rfl
  | list execution =>
    simp only [runtimeStep, Option.ite_none_right_eq_some, Option.some.injEq] at h
    obtain ⟨-, rfl⟩ := h
    exact .inr (.inl ⟨_, rfl, by simp [Job.GuardInTask],
      .fresh (fun h => by cases h) (.inl rfl) rfl rfl rfl⟩)
  | runSync execution =>
    cases h
    exact .inr (.inl ⟨_, rfl, by simp [Job.GuardInTask],
      .fresh (fun _ => rfl) (.inr rfl) rfl rfl rfl⟩)
  | job i m =>
    simp only [runtimeStep, Option.bind_eq_some_iff, Option.map_eq_some_iff] at h
    obtain ⟨job, hjob, ⟨job', op⟩, hstep, rfl⟩ := h
    exact .inr (.inr ⟨i, m, job, job', op, rfl, hjob, hstep, rfl⟩)

lemma AllSound.step (hs : AllSound s) (hund : Undisturbed s move)
    (h : runtimeStep s move = some s') : AllSound s' := by
  intro other hother
  obtain hsame | ⟨job, hjobs, hguard, hsound⟩ | ⟨i, m, job, job', op, rfl, hjob, hstep, hjobs⟩ :=
    runtimeStep_jobs h
  · exact hs other (hsame ▸ hother)
  · rw [hjobs] at hother
    rcases List.mem_append.mp hother with hother | hother
    · exact hs other hother
    · cases List.mem_singleton.mp hother
      exact ⟨hsound, hguard⟩
  · rw [hjobs] at hother
    rcases List.mem_or_eq_of_mem_set hother with hother | rfl
    · exact hs other hother
    · obtain ⟨hsound, hguard⟩ := hs job (List.mem_of_getElem? hjob)
      exact ⟨hsound.step hguard (hund i m rfl job hjob) hstep, (jobStep_guard hguard hstep).1⟩

lemma KeepsTerminal.step {t : SubagentRuntime} (hs : KeepsTerminal t s)
    (hund : Undisturbed s move) (h : runtimeStep s move = some s') : KeepsTerminal t s' := by
  intro j old hold hclosed
  obtain ⟨current, hcurrent, hstate⟩ := hs j old hold hclosed
  obtain hsame | ⟨job, hjobs, -⟩ | ⟨i, m, job, job', op, rfl, hjob, hstep, hjobs⟩ :=
    runtimeStep_jobs h
  · exact ⟨current, hsame ▸ hcurrent, hstate⟩
  · obtain ⟨hlt, -⟩ := List.getElem?_eq_some_iff.mp hcurrent
    refine ⟨current, ?_, hstate⟩
    rw [hjobs, List.getElem?_append_left hlt]
    exact hcurrent
  · rcases eq_or_ne i j with rfl | hne
    · obtain rfl : job = current := Option.some.inj (hjob.symm.trans hcurrent)
      have hkept := state_of_terminal (hstate ▸ hclosed) (hund i m rfl job hjob) hstep
      obtain ⟨hlt, -⟩ := List.getElem?_eq_some_iff.mp hjob
      exact ⟨job', by rw [hjobs, List.getElem?_set_self hlt], hkept.trans hstate⟩
    · exact ⟨current, by rw [hjobs, List.getElem?_set_ne hne, hcurrent], hstate⟩

variable {moves : List RuntimeMove} {maxConcurrentJobs : Nat}

/-- In every run whose steps are undisturbed each job keeps the law of its life cycle, and a
terminal state that was reached at any point of the run is still there at its end. -/
theorem lifeCycle_of_undisturbed
    (hrun : run runtimeStep (.new maxConcurrentJobs) moves = some s)
    (halong : Along runtimeStep Undisturbed (.new maxConcurrentJobs) moves) :
    (∀ job ∈ s.jobs, job.LifeCycle) ∧
      ∀ pre post u, moves = pre ++ post →
        run runtimeStep (.new maxConcurrentJobs) pre = some u → KeepsTerminal u s := by
  constructor
  · have hsound : AllSound s :=
      run_invariant_of_along AllSound (fun _ _ _ hs hund h => hs.step hund h)
        (fun _ hjob => absurd hjob List.not_mem_nil) halong hrun
    exact fun job hjob => (hsound job hjob).1.lifeCycle
  · rintro pre post u rfl hpre
    obtain ⟨u', hu', hpost⟩ := run_append_eq_some.mp hrun
    obtain rfl : u = u' := Option.some.inj (hpre.symm.trans hu')
    exact run_invariant_of_along (KeepsTerminal u) (fun _ _ _ hs hund h => hs.step hund h)
      (fun i job hjob _ => ⟨job, hjob, rfl⟩) (halong.right hpre) hpost

end Runs

lemma undisturbed_job {s : SubagentRuntime} {i : Nat} {m : JobMove}
    (h : ∀ job, s.jobs[i]? = some job → job.Undisturbed m) : Undisturbed s (.job i m) := by
  rintro _ _ ⟨⟩
  exact h

/-- A job is cancelled while its session runs, and its task is dropped. -/
def cancelledRun : List RuntimeMove :=
  [.testLimit, .list (goalRequest "review"), .job 0 .start, .job 0 .storeHandle,
    .job 0 (.writeRunning 10), .job 0 .findJob, .job 0 (.cancel 0 20), .job 0 (.cancel 0 21),
    .job 0 (.cancel 0 22), .job 0 (.cancel 0 23), .job 0 .dropTask]

theorem lifeCycle_of_undisturbed_cancelled :
    ∃ s, run runtimeStep (.new 3) cancelledRun = some s ∧ s.runningJobs = 0 ∧
      (∀ job ∈ s.jobs, job.LifeCycle) ∧ ∀ pre post u, cancelledRun = pre ++ post →
        run runtimeStep (.new 3) pre = some u → KeepsTerminal u s := by
  refine ⟨_, rfl, rfl, lifeCycle_of_undisturbed rfl ?_⟩
  refine .cons nofun rfl <| .cons nofun rfl <| .cons (undisturbed_job fun _ _ => trivial) rfl <|
    .cons (undisturbed_job fun _ _ => trivial) rfl <| .cons (undisturbed_job ?_) rfl <|
    .cons (undisturbed_job fun _ _ => trivial) rfl <| .cons (undisturbed_job ?_) rfl <|
    .cons (undisturbed_job ?_) rfl <| .cons (undisturbed_job ?_) rfl <|
    .cons (undisturbed_job ?_) rfl <| .cons (undisturbed_job fun _ _ => trivial) rfl trivial
  all_goals
    rintro job ⟨⟩
  · rfl
  · exact nofun
  · exact nofun
  · exact fun _ _ => rfl
  · exact nofun

/-- `finish_job` has enqueued its notification, and a cancellation comes before it writes the
state. -/
def overtakenRun : List RuntimeMove :=
  [.testLimit, .list (goalRequest "review"), .job 0 .start, .job 0 .storeHandle,
    .job 0 (.writeRunning 10), .job 0 (.execute "" 20 (.exited (.finished "done"))),
    .job 0 (.readFlag 20), .job 0 .enqueue, .job 0 .findJob, .job 0 (.cancel 0 21),
    .job 0 (.cancel 0 21), .job 0 (.cancel 0 21), .job 0 (.cancel 0 21), .job 0 .storeFinal,
    .job 0 .leave]

/-- The parent is told that the job has finished and that it was cancelled. -/
theorem not_lifeCycle_overtaken :
    ¬ ∀ maxConcurrentJobs moves s, run runtimeStep (.new maxConcurrentJobs) moves = some s →
      (∀ job ∈ s.jobs, job.LifeCycle) ∧ ∀ pre post u, moves = pre ++ post →
        run runtimeStep (.new maxConcurrentJobs) pre = some u → KeepsTerminal u s := by
  intro hall
  have honce := ((hall 3 overtakenRun _ rfl).1 _ (List.mem_singleton_self _)).atMostOnce
  revert honce
  decide

end RustyClaw.Subagent
