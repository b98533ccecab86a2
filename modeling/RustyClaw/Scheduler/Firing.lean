import RustyClaw.Scheduler.Occurrence
import RustyClaw.Scheduler.Serial

/-!
# A task in a run of the scheduler

The other calls of a run add, remove and toggle other tasks, and their reloads and saves concern the
whole map.  As long as the schedule of the calls is undisturbed, none of this matters to the task:
the ticks of the run do to it what they do to it alone (`Holds.run`).

Hence `firesOnce_iff`: with occurrences two minutes apart and ticks sixty seconds apart at most, a
recurring task is fired once for every occurrence exactly when no two ticks that look back at an
occurrence lie in different clock minutes.  `not_firesOnce` is an occurrence 45 seconds into a minute
and ticks 30 seconds apart.
-/

namespace RustyClaw.Cron

open Transition

/-! ## The task in a run -/

/-- The operation is about other tasks. -/
def Op.Elsewhere (id : List Char) : Op → Prop
  | .addTask task => task.id ≠ id
  | .removeTask other => other ≠ id
  | .toggleTask other _ => other ≠ id
  | .listTasks => True
  | .tick _ => True

def Label.Elsewhere (id : List Char) : Label → Prop
  | .start _ op _ => op.Elsewhere id
  | _ => True

/-- Every task is in the map under its own id. -/
def Keyed (tasks : TaskTable) : Prop := ∀ key task, tasks.lookup key = some task → task.id = key

/-- The tick that a move is the first section of. -/
def tickAt (s : Scheduler) : Label → Option DateTime
  | .change call _ =>
    match s.calls call with
    | some ⟨.tick now, .ready⟩ => some now
    | _ => none
  | _ => none

/-- The tick that fires the task in this move. -/
def firingAt (cron : CronCrate) (id : List Char) (s : Scheduler) (label : Label) :
    Option DateTime :=
  (tickAt s label).filter fun now => (s.tasks.lookup id).any (·.isDue cron now)

/-- What a tick leaves of a task. -/
def afterTick (cron : CronCrate) (now : DateTime) (task : ScheduledTask) : Option ScheduledTask :=
  if task.isDue cron now then if task.runOnce then none else some (task.ran now) else some task

/-- Of the calls that have not returned, none but the ticks is about the task. -/
def Apart (id : List Char) (s : Scheduler) : Prop :=
  ∀ call c, s.calls call = some c → (∃ reply, c.phase = .returned reply) ∨ c.op.Elsewhere id

/-- Memory has the task, or no longer has it once the ticks under way have removed their tasks. -/
def Holds (s : Scheduler) (id : List Char) : Option ScheduledTask → Prop
  | some task => s.tasks.lookup id = some task ∧ ¬ Doomed s id
  | none => s.tasks.lookup id = none ∨ Doomed s id

section Moves

variable {cron : CronCrate} {s s' : Scheduler} {id : List Char} {call : Nat} {op : Op}
  {phase : Phase} {task : ScheduledTask} {held : Option ScheduledTask} {label : Label}

/-! ### Every task under its own id -/

lemma Keyed.insert {tasks : TaskTable} (h : Keyed tasks) (task : ScheduledTask) :
    Keyed (tasks.insert task.id task) := by
  intro key other hother
  by_cases hkey : key = task.id
  · rw [hkey, Finmap.lookup_insert] at hother
    rw [← Option.some_inj.mp hother, hkey]
  · rw [Finmap.lookup_insert_of_ne _ hkey] at hother
    exact h key other hother

lemma Keyed.erase {tasks : TaskTable} (h : Keyed tasks) (id : List Char) :
    Keyed (tasks.erase id) := by
  intro key other hother
  by_cases hkey : key = id
  · rw [hkey, Finmap.lookup_erase] at hother
    cases hother
  · rw [Finmap.lookup_erase_ne hkey] at hother
    exact h key other hother

lemma lookup_fire (now : DateTime) (tasks : TaskTable) (id : List Char) :
    (fire cron now tasks).lookup id =
      (tasks.lookup id).map fun task => if task.isDue cron now then task.ran now else task :=
  Table.lookup_mapValues _ _ _

lemma Keyed.fire {tasks : TaskTable} (h : Keyed tasks) (now : DateTime) :
    Keyed (fire cron now tasks) := by
  intro key other hother
  rw [lookup_fire, Option.map_eq_some_iff] at hother
  obtain ⟨task, htask, rfl⟩ := hother
  have hid : (if task.isDue cron now then task.ran now else task).id = task.id := by
    split <;> rfl
  rw [hid]
  exact h key task htask

lemma Keyed.removeRunOnce {tasks : TaskTable} (h : Keyed tasks) (toRun : TaskTable) :
    Keyed (removeRunOnce toRun tasks) := by
  intro key other hother
  rw [lookup_removeRunOnce] at hother
  split at hother
  · cases hother
  · exact h key other hother

/-- A tick is going to remove the tasks that are due and run once. -/
lemma mem_tasksToRemove {now : DateTime} {tasks : TaskTable} (hkeyed : Keyed tasks) :
    id ∈ tasksToRemove (tasksToRun cron now tasks) ↔
      ∃ task, tasks.lookup id = some task ∧ task.isDue cron now = true ∧ task.runOnce = true := by
  rw [tasksToRemove, Multiset.mem_map]
  constructor
  · rintro ⟨⟨key, fired⟩, hentry, rfl⟩
    rw [Multiset.mem_filter] at hentry
    have hlookup := Table.lookup_eq_some_iff.mpr hentry.1
    rw [tasksToRun, Table.lookup_mapValues, Table.lookup_filter, Option.map_eq_some_iff] at hlookup
    obtain ⟨task, htask, rfl⟩ := hlookup
    rw [Option.filter_eq_some_iff] at htask
    have hkey : task.id = key := hkeyed key task htask.1
    refine ⟨task, ?_, htask.2, hentry.2⟩
    change tasks.lookup task.id = some task
    rw [hkey, htask.1]
  · rintro ⟨task, htask, hdue, honce⟩
    refine ⟨⟨id, task.ran now⟩, Multiset.mem_filter.mpr ⟨Table.lookup_eq_some_iff.mp ?_, honce⟩,
      hkeyed id task htask⟩
    rw [tasksToRun, Table.lookup_mapValues, Table.lookup_filter, htask, Option.filter_some,
      if_pos hdue, Option.map_some]

lemma Keyed.step (h : Keyed s.tasks) (hquiet : Undisturbed s label)
    (hstep : step cron s label = some s') : Keyed s'.tasks := by
  cases label with
  | start call op readable =>
    simp only [Cron.step] at hstep
    split at hstep
    · cases hstep
    · split at hstep
      · split at hstep <;> cases hstep <;> exact h
      · cases hstep
        exact h
  | install call =>
    simp only [Cron.step] at hstep
    split at hstep
    · next op parsed hcall =>
      obtain rfl := hquiet op parsed hcall
      cases hstep
      exact h
    · cases hstep
  | change call chosen =>
    simp only [Cron.step] at hstep
    split at hstep
    · next op hcall =>
      cases op with
      | addTask task =>
        cases hstep
        exact h.insert task
      | removeTask id =>
        simp only [Scheduler.changeTasks] at hstep
        split at hstep
        · cases hstep
          exact h.erase id
        · cases hstep
          exact h
      | toggleTask id enabled =>
        simp only [Scheduler.changeTasks] at hstep
        split at hstep
        · next task htask =>
          obtain rfl := h id task htask
          cases hstep
          exact h.insert { task with enabled }
        · cases hstep
          exact h
      | listTasks =>
        simp only [Scheduler.changeTasks] at hstep
        split at hstep
        · cases hstep
          exact h
        · cases hstep
      | tick now =>
        cases hstep
        exact h.fire now
    · cases hstep
  | expire call =>
    simp only [Cron.step] at hstep
    split at hstep
    · cases hstep
      exact h.removeRunOnce _
    · cases hstep
  | save call chosen outcome =>
    simp only [Cron.step] at hstep
    split at hstep
    · split at hstep
      · cases hstep
        exact h
      · cases hstep
    · cases hstep

/-! ### A move that is no tick -/

lemma Apart.elsewhere (h : Apart id s) (hcall : s.calls call = some ⟨op, phase⟩)
    (hphase : ∀ reply, phase ≠ .returned reply) : op.Elsewhere id := by
  refine (h call _ hcall).resolve_left ?_
  rintro ⟨reply, hreply⟩
  exact hphase reply hreply

lemma Apart.advances (h : Apart id s) (hadv : Advances s s' call op phase)
    (hop : op.Elsewhere id) : Apart id s' := by
  intro other c hc
  by_cases hother : other = call
  · subst hother
    rw [hadv.calls_self] at hc
    cases hc
    exact .inr hop
  · exact h other c (hadv.calls_of_ne hother ▸ hc)

lemma Holds.same (h : Holds s id held) (hlookup : s'.tasks.lookup id = s.tasks.lookup id)
    (hdoomed : Doomed s' id ↔ Doomed s id) : Holds s' id held := by
  cases held with
  | none => exact h.imp hlookup.trans hdoomed.mpr
  | some task => exact ⟨hlookup.trans h.1, mt hdoomed.mp h.2⟩

/-- A call that goes on, and what it does to other tasks. -/
lemma Holds.advances (h : Holds s id held) (hapart : Apart id s)
    (hadv : Advances s s' call op phase) (hop : op.Elsewhere id)
    (hbefore : ∀ tick toRun, s.calls call ≠ some ⟨tick, .fired toRun⟩)
    (hafter : ∀ toRun, phase ≠ .fired toRun)
    (hlookup : s'.tasks.lookup id = s.tasks.lookup id) : Apart id s' ∧ Holds s' id held :=
  ⟨hapart.advances hadv hop, h.same hlookup (hadv.doomed_same hafter hbefore)⟩

lemma ne_fired_of_calls (hcall : s.calls call = some ⟨op, phase⟩)
    (hphase : ∀ toRun, phase ≠ .fired toRun) :
    ∀ tick toRun, s.calls call ≠ some ⟨tick, .fired toRun⟩ := by
  intro tick toRun hfired
  rw [hcall] at hfired
  cases hfired
  exact hphase toRun rfl

lemma Scheduler.reload_ne_fired (s : Scheduler) (readable : Bool) :
    ∀ toRun, s.reload readable ≠ .fired toRun := by
  intro toRun h
  exact s.reload_not_settled readable (h ▸ trivial)

lemma Holds.start {readable : Bool} (h : Holds s id held) (hapart : Apart id s)
    (hop : op.Elsewhere id) (hstep : step cron s (.start call op readable) = some s') :
    Apart id s' ∧ Holds s' id held := by
  simp only [step] at hstep
  split at hstep
  · cases hstep
  · next hnone =>
    have hgo : ∀ phase : Phase, (∀ toRun, phase ≠ .fired toRun) →
        Apart id (s.enter call op phase) ∧ Holds (s.enter call op phase) id held := by
      intro phase hphase
      refine h.advances hapart ⟨rfl, .inl (by rw [Scheduler.op, hnone, Option.map_none])⟩ hop ?_
        hphase rfl
      intro tick toRun hfired
      rw [hnone] at hfired
      cases hfired
    split at hstep
    · split at hstep
      · cases hstep
        exact hgo _ fun _ => Phase.noConfusion
      · cases hstep
        exact hgo _ (s.reload_ne_fired readable)
    · cases hstep
      exact hgo _ (s.reload_ne_fired readable)

lemma Holds.install (h : Holds s id held) (hapart : Apart id s)
    (hquiet : Undisturbed s (.install call)) (hstep : step cron s (.install call) = some s') :
    Apart id s' ∧ Holds s' id held := by
  simp only [step] at hstep
  split at hstep
  · next op parsed hcall =>
    obtain rfl := hquiet op parsed hcall
    cases hstep
    exact h.advances hapart (advances_of_calls hcall rfl)
      (hapart.elsewhere hcall fun _ => Phase.noConfusion)
      (ne_fired_of_calls hcall fun _ => Phase.noConfusion) (fun _ => Phase.noConfusion) rfl
  · cases hstep

lemma Holds.change {chosen : Table.Order (List Char) ScheduledTask} (h : Holds s id held)
    (hapart : Apart id s) (hnone : tickAt s (.change call chosen) = none)
    (hstep : step cron s (.change call chosen) = some s') : Apart id s' ∧ Holds s' id held := by
  simp only [step] at hstep
  split at hstep
  · next op hcall =>
    have helse := hapart.elsewhere hcall fun _ => Phase.noConfusion
    have hbefore := ne_fired_of_calls hcall fun _ => Phase.noConfusion
    have hgo : ∀ {s' : Scheduler} {phase : Phase}, s'.calls = (s.enter call op phase).calls →
        (∀ toRun, phase ≠ .fired toRun) → s'.tasks.lookup id = s.tasks.lookup id →
        Apart id s' ∧ Holds s' id held :=
      fun hcalls hphase hlookup =>
        h.advances hapart (advances_of_calls hcall hcalls) helse hbefore hphase hlookup
    cases op with
    | addTask task =>
      cases hstep
      exact hgo rfl (fun _ => Phase.noConfusion) (Finmap.lookup_insert_of_ne _ (Ne.symm helse))
    | removeTask other =>
      simp only [Scheduler.changeTasks] at hstep
      split at hstep
      · cases hstep
        exact hgo rfl (fun _ => Phase.noConfusion) (Finmap.lookup_erase_ne (Ne.symm helse))
      · cases hstep
        exact hgo rfl (fun _ => Phase.noConfusion) rfl
    | toggleTask other enabled =>
      simp only [Scheduler.changeTasks] at hstep
      split at hstep
      · cases hstep
        exact hgo rfl (fun _ => Phase.noConfusion) (Finmap.lookup_insert_of_ne _ (Ne.symm helse))
      · cases hstep
        exact hgo rfl (fun _ => Phase.noConfusion) rfl
    | listTasks =>
      simp only [Scheduler.changeTasks] at hstep
      split at hstep
      · cases hstep
        exact hgo rfl (fun _ => Phase.noConfusion) rfl
      · cases hstep
    | tick now =>
      simp only [tickAt, hcall] at hnone
      cases hnone
  · cases hstep

lemma Holds.expire (h : Holds s id held) (hapart : Apart id s)
    (hstep : step cron s (.expire call) = some s') : Apart id s' ∧ Holds s' id held := by
  simp only [step] at hstep
  split at hstep
  · next op toRun hcall =>
    cases hstep
    generalize hs' : ({ s.enter call op .saving with tasks := removeRunOnce toRun s.tasks } :
      Scheduler) = s'
    have hadv : Advances s s' call op .saving := by
      rw [← hs']
      exact advances_of_calls hcall rfl
    have htasks : s'.tasks = removeRunOnce toRun s.tasks := by rw [← hs']
    have hdoomed : Doomed s' id → Doomed s id := by
      intro hid
      obtain ⟨other, tick, toRun', -, hother, hmem⟩ :=
        (hadv.doomed_iff fun _ => Phase.noConfusion).mp hid
      exact ⟨other, tick, toRun', hother, hmem⟩
    refine ⟨hapart.advances hadv (hapart.elsewhere hcall fun _ => Phase.noConfusion), ?_⟩
    have hlookup : s'.tasks.lookup id =
        if id ∈ tasksToRemove toRun then none else s.tasks.lookup id := by
      rw [htasks, lookup_removeRunOnce]
    by_cases hmem : id ∈ tasksToRemove toRun
    · rw [if_pos hmem] at hlookup
      cases held with
      | none => exact .inl hlookup
      | some task => exact absurd ⟨call, op, toRun, hcall, hmem⟩ h.2
    · rw [if_neg hmem] at hlookup
      refine h.same hlookup ⟨hdoomed, ?_⟩
      rintro ⟨other, tick, toRun', hother, hmem'⟩
      refine (hadv.doomed_iff fun _ => Phase.noConfusion).mpr
        ⟨other, tick, toRun', ?_, hother, hmem'⟩
      rintro rfl
      rw [hcall] at hother
      cases hother
      exact hmem hmem'
  · cases hstep

lemma Holds.save {chosen : Table.Order (List Char) ScheduledTask} {outcome : SaveOutcome}
    (h : Holds s id held) (hapart : Apart id s)
    (hstep : step cron s (.save call chosen outcome) = some s') :
    Apart id s' ∧ Holds s' id held := by
  simp only [step] at hstep
  split at hstep
  · next op hcall =>
    split at hstep
    · cases hstep
      exact h.advances hapart (advances_of_calls hcall rfl)
        (hapart.elsewhere hcall fun _ => Phase.noConfusion)
        (ne_fired_of_calls hcall fun _ => Phase.noConfusion) (fun _ => Phase.noConfusion) rfl
    · cases hstep
  · cases hstep

/-! ### A tick -/

/-- The first section of a tick. -/
lemma Holds.tick {now : DateTime} (h : Holds s id held) (hkeyed : Keyed s.tasks)
    (hapart : Apart id s) (hquiet : Undisturbed s label) (hnow : tickAt s label = some now)
    (hstep : step cron s label = some s') :
    Apart id s' ∧ Holds s' id (held.bind (afterTick cron now)) ∧
      firingAt cron id s label =
        held.bind fun task => if task.isDue cron now then some now else none := by
  cases label with
  | change call chosen =>
    have hcall : s.calls call = some ⟨.tick now, .ready⟩ := by
      simp only [tickAt] at hnow
      split at hnow
      · next now' hcall =>
        rw [hcall, Option.some_inj.mp hnow]
      · cases hnow
    have hfired : ∀ other tick toRun, s.calls other ≠ some ⟨tick, .fired toRun⟩ :=
      fun other tick toRun hother => hquiet _ hcall other tick toRun hother
    have hnobody : ¬ Doomed s id := by
      rintro ⟨other, tick, toRun, hother, -⟩
      exact hfired other tick toRun hother
    have hlookup : s.tasks.lookup id = held := by
      cases held with
      | none => exact h.resolve_right hnobody
      | some task => exact h.1
    have hfiring : firingAt cron id s (.change call chosen) =
        held.bind fun task => if task.isDue cron now then some now else none := by
      rw [firingAt, hnow, hlookup, Option.filter_some]
      cases held with
      | none => rfl
      | some task => rfl
    simp only [step, hcall, Scheduler.changeTasks] at hstep
    generalize htoRun : tasksToRun cron now s.tasks = toRun at hstep
    generalize hphase : (if toRun = ∅ then Phase.returned (.ok .done) else .fired toRun) = phase
      at hstep
    cases hstep
    generalize hs' : ({ s.enter call (.tick now) phase with tasks := fire cron now s.tasks } :
      Scheduler) = s'
    have hadv : Advances s s' call (.tick now) phase := by
      rw [← hs']
      exact advances_of_calls hcall rfl
    have htasks : s'.tasks = fire cron now s.tasks := by rw [← hs']
    -- the tick dooms what is due and runs once
    have hdoomed : Doomed s' id ↔ id ∈ tasksToRemove toRun := by
      constructor
      · rintro ⟨other, tick, toRun', hother, hmem⟩
        by_cases hself : other = call
        · subst hself
          rw [hadv.calls_self] at hother
          cases hother
          split at hphase
          · cases hphase
          · cases hphase
            exact hmem
        · exact absurd ((hadv.calls_of_ne hself).symm.trans hother) (hfired other tick toRun')
      · intro hmem
        have hne : toRun ≠ ∅ := by
          rintro rfl
          exact Multiset.notMem_zero id hmem
        rw [if_neg hne] at hphase
        exact ⟨call, .tick now, toRun, by rw [hadv.calls_self, hphase], hmem⟩
    rw [← htoRun, mem_tasksToRemove hkeyed, hlookup] at hdoomed
    refine ⟨hapart.advances hadv trivial, ?_, hfiring⟩
    have hafter : s'.tasks.lookup id =
        held.map fun task => if task.isDue cron now then task.ran now else task := by
      rw [htasks, lookup_fire, hlookup]
    cases held with
    | none => exact .inl hafter
    | some task =>
      rw [Option.bind_some, afterTick]
      rw [Option.map_some] at hafter
      by_cases hdue : task.isDue cron now = true
      · by_cases honce : task.runOnce = true
        · rw [if_pos hdue, if_pos honce]
          exact .inr (hdoomed.mpr ⟨task, rfl, hdue, honce⟩)
        · rw [if_pos hdue, if_neg honce]
          rw [if_pos hdue] at hafter
          refine ⟨hafter, fun hid => ?_⟩
          obtain ⟨task', htask', -, honce'⟩ := hdoomed.mp hid
          exact honce (Option.some_inj.mp htask' ▸ honce')
      · rw [if_neg hdue]
        rw [if_neg hdue] at hafter
        refine ⟨hafter, fun hid => ?_⟩
        obtain ⟨task', htask', hdue', -⟩ := hdoomed.mp hid
        exact hdue (Option.some_inj.mp htask' ▸ hdue')
  | _ => cases hnow

/-- What any other move does to the task. -/
lemma Holds.other (h : Holds s id held) (hapart : Apart id s) (hquiet : Undisturbed s label)
    (helse : label.Elsewhere id) (hnone : tickAt s label = none)
    (hstep : step cron s label = some s') : Apart id s' ∧ Holds s' id held := by
  cases label with
  | start call op readable => exact h.start hapart helse hstep
  | install call => exact h.install hapart hquiet hstep
  | change call chosen => exact h.change hapart hnone hstep
  | expire call => exact h.expire hapart hstep
  | save call chosen outcome => exact h.save hapart hstep

end Moves

/-! ## Whole runs -/

section Runs

variable {cron : CronCrate} {s₀ s : Scheduler} {id : List Char} {task : ScheduledTask}
  {held : Option ScheduledTask} {labels : List Label} {occurrences : Set Int}

/-- The ticks of a run. -/
def ticks (cron : CronCrate) (s : Scheduler) (labels : List Label) : List DateTime :=
  events (step cron) tickAt s labels

/-- The ticks of a run that fire the task. -/
def fired (cron : CronCrate) (id : List Char) (s : Scheduler) (labels : List Label) :
    List DateTime :=
  events (step cron) (firingAt cron id) s labels

/-- What a sequence of ticks leaves of a task. -/
def afterTicks (cron : CronCrate) (held : Option ScheduledTask) (ticks : List DateTime) :
    Option ScheduledTask :=
  ticks.foldl (fun held now => held.bind (afterTick cron now)) held

lemma afterTicks_none (ticks : List DateTime) : afterTicks cron none ticks = none := by
  induction ticks with
  | nil => rfl
  | cons now ticks ih => exact ih

/-- A task that runs once and has been fired is gone. -/
lemma afterTicks_of_runOnce (honce : task.runOnce = true) {ticks : List DateTime}
    (hfired : firings cron task ticks ≠ []) : afterTicks cron (some task) ticks = none := by
  induction ticks with
  | nil => exact absurd rfl hfired
  | cons now ticks ih =>
    rw [afterTicks, List.foldl_cons, Option.bind_some, afterTick]
    rw [firings] at hfired
    by_cases hdue : task.isDue cron now = true
    · rw [if_pos hdue, if_pos honce]
      exact afterTicks_none ticks
    · rw [if_neg hdue] at hfired ⊢
      exact ih hfired

/-- The ticks of an undisturbed run do to the task what they do to it alone. -/
lemma Holds.run (h : Holds s₀ id held) (hkeyed : Keyed s₀.tasks) (hapart : Apart id s₀)
    (hquiet : Along (step cron) Undisturbed s₀ labels)
    (helse : ∀ label ∈ labels, label.Elsewhere id)
    (hrun : run (step cron) s₀ labels = some s) :
    Holds s id (afterTicks cron held (ticks cron s₀ labels)) ∧
      fired cron id s₀ labels = held.elim [] (firings cron · (ticks cron s₀ labels)) := by
  induction labels generalizing s₀ held with
  | nil =>
    cases hrun
    refine ⟨h, ?_⟩
    cases held with
    | none => rfl
    | some task => rfl
  | cons label labels ih =>
    obtain ⟨s₁, hstep, hrest⟩ := run_cons_eq_some.mp hrun
    have hlabel := helse label List.mem_cons_self
    have helse' : ∀ label ∈ labels, label.Elsewhere id :=
      fun other hother => helse other (List.mem_cons_of_mem _ hother)
    have hkeyed' := hkeyed.step hquiet.1 hstep
    have hquiet' := hquiet.2 s₁ hstep
    rw [ticks, fired, events_cons hstep, events_cons hstep]
    cases hnow : tickAt s₀ label with
    | none =>
      obtain ⟨hapart', hheld⟩ := h.other hapart hquiet.1 hlabel hnow hstep
      have hsilent : firingAt cron id s₀ label = none := by
        rw [firingAt, hnow, Option.filter_none]
      rw [hsilent]
      exact ih hheld hkeyed' hapart' hquiet' helse' hrest
    | some now =>
      obtain ⟨hapart', hheld, hfiring⟩ := h.tick hkeyed hapart hquiet.1 hnow hstep
      obtain ⟨hfinal, hfired⟩ := ih hheld hkeyed' hapart' hquiet' helse' hrest
      refine ⟨hfinal, ?_⟩
      rw [hfiring]
      change _ ++ fired cron id s₁ labels = held.elim [] (firings cron · (now :: ticks cron s₁ labels))
      rw [hfired]
      cases held with
      | none => rfl
      | some task =>
        rw [Option.bind_some, Option.bind_some, Option.elim_some, afterTick, firings]
        by_cases hdue : task.isDue cron now = true
        · rw [if_pos hdue, if_pos hdue, if_pos hdue]
          split
          · rfl
          · rfl
        · rw [if_neg hdue, if_neg hdue, if_neg hdue]
          rfl

/-! ### What is promised, and when -/

/-- The run of `labels` is about a task that is enabled and in memory at its beginning: nobody else
is about the task, the file that the scheduler was made from has every task under its own id, and
occurrences and ticks are as far apart as they should be. -/
structure Watch (cron : CronCrate) (id : List Char) (task : ScheduledTask)
    (occurrences : Set Int) (file : Option (List Char)) (before labels : List Label)
    (s₀ s : Scheduler) : Prop where
  reached : run (step cron) (Scheduler.new file) before = some s₀
  runs : run (step cron) s₀ labels = some s
  keyed : Keyed (decodedFile file)
  held : Holds s₀ id (some task)
  enabled : task.enabled = true
  apart : Apart id s₀
  elsewhere : ∀ label ∈ labels, label.Elsewhere id
  schedule : ∃ after, cron task.cron = .ok after ∧ FirstAfter occurrences after
  twoMinutesApart : TwoMinutesApart occurrences
  ticking : Ticking (ticks cron s₀ labels)
  ranBefore : ∀ first ∈ (ticks cron s₀ labels).head?, RanBefore occurrences first task

/-- `o` is an occurrence after the first tick, and the run reaches it. -/
def Comes (occurrences : Set Int) (ticks : List DateTime) (o : Int) : Prop :=
  o ∈ occurrences ∧ (∃ first ∈ ticks.head?, first.time < o) ∧ ∃ now ∈ ticks, o ≤ now.time

/-- Exactly one tick fires for every occurrence; a task that runs once is fired a single time and is
then in neither memory nor file. -/
def FiresOnce (cron : CronCrate) (id : List Char) (task : ScheduledTask) (occurrences : Set Int)
    (labels : List Label) (s₀ s : Scheduler) : Prop :=
  ∀ o, Comes occurrences (ticks cron s₀ labels) o →
    if task.runOnce then
      (fired cron id s₀ labels).length = 1 ∧
        (Completed s → s.tasks.lookup id = none ∧ (decodedFile s.file).lookup id = none)
    else (fired cron id s₀ labels).countP (·.inWindow o) = 1

/-- In an undisturbed run a recurring task is fired once for each occurrence if and only if the ticks
that look back at an occurrence all lie in one clock minute; a task that runs once is fired once. -/
theorem firesOnce_iff {file : Option (List Char)} {before : List Label}
    (h : Watch cron id task occurrences file before labels s₀ s)
    (hquiet : Along (step cron) Undisturbed (Scheduler.new file) (before ++ labels)) :
    FiresOnce cron id task occurrences labels s₀ s ↔
      (task.runOnce = false → ∀ o, Comes occurrences (ticks cron s₀ labels) o →
        OneMinute o (ticks cron s₀ labels)) := by
  obtain ⟨after, hcron, hafter⟩ := h.schedule
  have hkeyed : Keyed s₀.tasks :=
    run_invariant_of_along (fun s => Keyed s.tasks) (fun _ _ _ => Keyed.step) h.keyed hquiet.left
      h.reached
  obtain ⟨hheld, hfired⟩ := h.held.run hkeyed h.apart (hquiet.right h.reached) h.elsewhere h.runs
  rw [Option.elim_some] at hfired
  have hcome : ∀ o, Comes occurrences (ticks cron s₀ labels) o → ∃ first rest,
      ticks cron s₀ labels = first :: rest ∧ first.time < o := by
    rintro o ⟨-, ⟨first, hfirst, hlt⟩, -⟩
    obtain ⟨rest, hrest⟩ := List.head?_eq_some_iff.mp hfirst
    exact ⟨first, rest, hrest, hlt⟩
  have hran := h.ranBefore
  have hticking := h.ticking
  have hcount : ∀ o, Comes occurrences (ticks cron s₀ labels) o → task.runOnce = false →
      ((firings cron task (ticks cron s₀ labels)).countP (·.inWindow o) = 1 ↔
        OneMinute o (ticks cron s₀ labels)) := by
    intro o ho honce
    obtain ⟨first, rest, hticks, hlt⟩ := hcome o ho
    obtain ⟨hoccurs, -, hlater⟩ := ho
    rw [hticks] at hran hticking hlater ⊢
    exact countP_firings_first h.enabled hcron hafter h.twoMinutesApart honce hoccurs
      (hran first rfl) hticking hlt hlater
  have hlength : ∀ o, Comes occurrences (ticks cron s₀ labels) o → task.runOnce = true →
      (firings cron task (ticks cron s₀ labels)).length = 1 := by
    intro o ho honce
    obtain ⟨first, rest, hticks, hlt⟩ := hcome o ho
    obtain ⟨hoccurs, -, hlater⟩ := ho
    rw [hticks] at hran hticking hlater ⊢
    exact length_firings_first h.enabled hcron hafter h.twoMinutesApart honce hoccurs
      (hran first rfl) hticking hlt hlater
  unfold FiresOnce
  rw [hfired]
  constructor
  · intro hfires honce o ho
    have hone := hfires o ho
    rw [honce, if_neg Bool.false_ne_true] at hone
    exact (hcount o ho honce).mp hone
  · intro hminute o ho
    split
    · next honce =>
      have hone := hlength o ho honce
      refine ⟨hone, fun hdone => ?_⟩
      have hsome : firings cron task (ticks cron s₀ labels) ≠ [] := by
        intro hnil
        rw [hnil] at hone
        cases hone
      rw [afterTicks_of_runOnce honce hsome] at hheld
      have hmemory := hheld.resolve_right (not_doomed_of_completed hdone id)
      obtain ⟨order, htracked⟩ :=
        tracked_of_undisturbed hquiet (run_append_eq_some.mpr ⟨s₀, h.reached, h.runs⟩)
      refine ⟨hmemory, ?_⟩
      rw [htracked.decodedFile_eq hdone]
      exact hmemory
    · next hrecurring =>
      have honce := Bool.eq_false_iff.mpr hrecurring
      exact (hcount o ho honce).mpr (hminute honce o ho)

end Runs

/-! ## On and off the full minute -/

section Examples

/-- One occurrence. -/
def onceAt (o : Int) : Schedule := fun t => if t < o then some o else none

lemma firstAfter_onceAt (o : Int) : FirstAfter {o} (onceAt o) := by
  intro t
  unfold onceAt
  by_cases h : t < o
  · rw [if_pos h]
    exact ⟨⟨rfl, h⟩, fun o' ho' => ho'.1.ge⟩
  · rw [if_neg h]
    rintro _ rfl
    exact not_lt.mp h

lemma twoMinutesApart_singleton (o : Int) : TwoMinutesApart {o} := by
  rintro _ rfl _ rfl h
  exact absurd h (lt_irrefl _)

/-- The beginning of a clock minute. -/
def fullMinute : Int := seconds 1680000000

def first : DateTime := ⟨seconds 1679999990, by decide, by decide⟩

def second : DateTime := ⟨seconds 1680000020, by decide, by decide⟩

/-- A scheduler is made from a file with one task. -/
def oneTask : Option (List Char) := some (toStringPretty [(someTask.id, someTask)])

lemma decodedFile_oneTask : decodedFile oneTask = Finmap.singleton someTask.id someTask := by
  have hlists : Table.Order.Lists [(someTask.id, someTask)]
      (Finmap.singleton someTask.id someTask : TaskTable) := rfl
  rw [decodedFile, oneTask, Option.bind_some, fromStr_toStringPretty hlists, Option.getD_some]

lemma tasks_new (file : Option (List Char)) : (Scheduler.new file).tasks = decodedFile file := rfl

lemma lookup_oneTask : (Scheduler.new oneTask).tasks.lookup someTask.id = some someTask := by
  rw [tasks_new, decodedFile_oneTask, Finmap.lookup_singleton_eq]

lemma keyed_oneTask : Keyed (decodedFile oneTask) := by
  intro key task htask
  rw [decodedFile_oneTask] at htask
  have hkey : key = someTask.id := (Finmap.mem_singleton _ _ _).mp (Finmap.mem_of_lookup_eq_some htask)
  subst hkey
  rw [Finmap.lookup_singleton_eq] at htask
  rw [← Option.some_inj.mp htask]

lemma watch_oneTask {o : Int} {labels : List Label} {s : Scheduler}
    (hrun : run (step fun _ => .ok (onceAt o)) (Scheduler.new oneTask) labels = some s)
    (helse : ∀ label ∈ labels, label.Elsewhere someTask.id)
    (hticking : Ticking (ticks (fun _ => .ok (onceAt o)) (Scheduler.new oneTask) labels)) :
    Watch (fun _ => .ok (onceAt o)) someTask.id someTask {o} oneTask [] labels
      (Scheduler.new oneTask) s where
  reached := rfl
  runs := hrun
  keyed := keyed_oneTask
  held := by
    refine ⟨lookup_oneTask, ?_⟩
    rintro ⟨call, op, toRun, hcall, -⟩
    cases hcall
  enabled := rfl
  apart := by
    intro call c hcall
    cases hcall
  elsewhere := helse
  schedule := ⟨_, rfl, firstAfter_onceAt o⟩
  twoMinutesApart := twoMinutesApart_singleton o
  ticking := hticking
  ranBefore := by
    intro _ _ last hlast
    cases hlast

/-- A tick before and one after the full minute; the file cannot be read. -/
def onFullMinute : List Label :=
  [.start 0 (.tick first) false, .change 0 [], .start 1 (.tick second) false, .change 1 []]

def early : DateTime := ⟨seconds 1680000020, by decide, by decide⟩

def due : DateTime := ⟨seconds 1680000050, by decide, by decide⟩

def again : DateTime := ⟨seconds 1680000080, by decide, by decide⟩

/-- Ticks before an occurrence, 5 seconds after it and 35 seconds after it, in the next minute. -/
def offFullMinute : List Label :=
  [.start 0 (.tick early) true, .install 0, .change 0 [],
    .start 1 (.tick due) true, .install 1, .change 1 [], .expire 1,
    .save 1 [(someTask.id, someTask.ran due)] .written,
    .start 2 (.tick again) true, .install 2, .change 2 [], .expire 2,
    .save 2 [(someTask.id, someTask.ran again)] .written]

def quarterTo : Int := seconds 1680000045

theorem not_firesOnce :
    ¬ ∀ (cron : CronCrate) (id : List Char) (task : ScheduledTask) (occurrences : Set Int)
      (file : Option (List Char)) (before labels : List Label) (s₀ s : Scheduler),
      Watch cron id task occurrences file before labels s₀ s →
        FiresOnce cron id task occurrences labels s₀ s := by
  intro h
  obtain ⟨s, hs⟩ : ∃ s, run (step fun _ => .ok (onceAt quarterTo)) (Scheduler.new oneTask)
      offFullMinute = some s := Option.isSome_iff_exists.mp (by decide +kernel)
  have hticks : ticks (fun _ => .ok (onceAt quarterTo)) (Scheduler.new oneTask) offFullMinute =
      [early, due, again] := by decide +kernel
  have htwice : (fired (fun _ => .ok (onceAt quarterTo)) someTask.id (Scheduler.new oneTask)
      offFullMinute).countP (·.inWindow quarterTo) = 2 := by decide +kernel
  have hticking : Ticking [early, due, again] := by
    unfold Ticking
    decide
  have helse : ∀ label ∈ offFullMinute, label.Elsewhere someTask.id := by
    simp [offFullMinute, Label.Elsewhere, Op.Elsewhere]
  have hfires := h _ _ _ _ _ _ _ _ _ (watch_oneTask hs helse (hticks ▸ hticking)) quarterTo
    ⟨rfl, ⟨early, by rw [hticks]; rfl, by decide⟩, due, by rw [hticks]; simp, by decide⟩
  rw [if_neg (by decide), htwice] at hfires
  cases hfires

lemma tasks_enter {s : Scheduler} {call : Nat} {op : Op} {phase : Phase} :
    (s.enter call op phase).tasks = s.tasks := rfl

/-- A tick that fires nothing. -/
lemma change_idle {cron : CronCrate} {s : Scheduler} {call : Nat} {now : DateTime}
    (hcall : s.calls call = some ⟨.tick now, .ready⟩) (h : tasksToRun cron now s.tasks = ∅) :
    step cron s (.change call []) =
      some (s.enter call (.tick now) (.returned (.ok .done))) := by
  simp only [step, hcall, Scheduler.changeTasks, if_pos h, fire_eq_self h]
  rfl

theorem firesOnce_onFullMinute :
    ∃ s, run (step fun _ => .ok (onceAt fullMinute)) (Scheduler.new oneTask) onFullMinute = some s ∧
      (FiresOnce (fun _ => .ok (onceAt fullMinute)) someTask.id someTask {fullMinute} onFullMinute
          (Scheduler.new oneTask) s ↔
        (someTask.runOnce = false →
          ∀ o, Comes {fullMinute}
            (ticks (fun _ => .ok (onceAt fullMinute)) (Scheduler.new oneTask) onFullMinute) o →
          OneMinute o
            (ticks (fun _ => .ok (onceAt fullMinute)) (Scheduler.new oneTask) onFullMinute))) := by
  obtain ⟨s, hs⟩ : ∃ s, run (step fun _ => .ok (onceAt fullMinute)) (Scheduler.new oneTask)
      onFullMinute = some s := Option.isSome_iff_exists.mp (by decide +kernel)
  have hticks : ticks (fun _ => .ok (onceAt fullMinute)) (Scheduler.new oneTask) onFullMinute =
      [first, second] := by decide +kernel
  have hticking : Ticking [first, second] := by
    unfold Ticking
    decide
  have helse : ∀ label ∈ onFullMinute, label.Elsewhere someTask.id := by
    simp [onFullMinute, Label.Elsewhere, Op.Elsewhere]
  have hfirst : tasksToRun (fun _ => .ok (onceAt fullMinute)) first (Scheduler.new oneTask).tasks =
      ∅ := by decide +kernel
  refine ⟨s, hs, firesOnce_iff (watch_oneTask hs helse (hticks ▸ hticking)) ?_⟩
  refine .cons trivial rfl (.cons ?_ (change_idle rfl (by rw [tasks_enter, hfirst]))
    (.cons trivial rfl (.cons ?_ rfl trivial)))
  · intro op _ other tick toRun hother
    rw [calls_enter] at hother
    split at hother
    · cases hother
    · cases hother
  · intro op _ other tick toRun hother
    rw [calls_enter, calls_enter, calls_enter] at hother
    split at hother
    · cases hother
    · split at hother
      · cases hother
      · cases hother

end Examples

end RustyClaw.Cron
