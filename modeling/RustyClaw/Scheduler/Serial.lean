import RustyClaw.Scheduler.Store

/-!
# Which schedules of the scheduler's operations are serialisable

An operation takes effect in its section under the lock, a tick in the first of its two.  Two things
stand between this and a sequential order.  A reload replaces the whole map by what the file held
when it was read, and a change that is not yet saved is not in the file: whoever installs the older
table undoes the change.  And between the two sections of a tick the tasks it is going to remove are
still in the map for others to see.

`Undisturbed` says that neither happens, and that the saves succeed.  Then the map is, at every
moment, the table of the operations in the order of their sections under the lock, up to tasks that a
tick is still to remove (`Tracked`), and the file holds the same table unless somebody is still to
save it.  `serialised_of_undisturbed` follows when everybody has returned; `not_serialised` is a list
request that undoes another caller's `add_task`.
-/

namespace RustyClaw.Cron

open Transition

/-! ## Sequential order -/

/-- What an operation makes of the tasks when nobody else is at work. -/
def effect (cron : CronCrate) (op : Op) (tasks : TaskTable) : TaskTable :=
  match op with
  | .addTask task => tasks.insert task.id task
  | .removeTask id => tasks.erase id
  | .toggleTask id enabled =>
    match tasks.lookup id with
    | some task => tasks.insert id { task with enabled }
    | none => tasks
  | .listTasks => tasks
  | .tick now => removeRunOnce (tasksToRun cron now tasks) (fire cron now tasks)

/-- The operations in the given order. -/
def replay (cron : CronCrate) (op : Nat → Option Op) (order : List Nat) (tasks : TaskTable) :
    TaskTable :=
  order.foldl (fun tasks call => (op call).elim tasks (effect cron · tasks)) tasks

def Scheduler.op (s : Scheduler) (call : Nat) : Option Op := (s.calls call).map Call.op

/-- Every call has returned. -/
def Completed (s : Scheduler) : Prop :=
  ∀ call c, s.calls call = some c → ∃ reply, c.phase = .returned reply

/-- The operation leaves alone what a tick is going to remove. -/
def Op.Avoids (removed : Multiset (List Char)) : Op → Prop
  | .addTask task => task.id ∉ removed
  | .removeTask id => id ∉ removed
  | .toggleTask id _ => id ∉ removed
  | .listTasks => True
  | .tick _ => False

/-- A reload installs the table that memory already holds, nobody changes a task that a tick has fired
and is going to remove, and saving succeeds. -/
def Undisturbed (s : Scheduler) : Label → Prop
  | .start _ _ _ => True
  | .install call => ∀ op parsed, s.calls call = some ⟨op, .loaded parsed⟩ → parsed = s.tasks
  | .change call _ =>
    ∀ op, s.calls call = some ⟨op, .ready⟩ →
      ∀ other tick toRun, s.calls other = some ⟨tick, .fired toRun⟩ →
        op.Avoids (tasksToRemove toRun)
  | .expire _ => True
  | .save _ _ outcome => outcome = .written

/-! ## The invariant -/

/-- The call has taken effect, or is going to by removing what it has fired. -/
def Phase.Settled : Phase → Prop
  | .loaded _ => False
  | .ready => False
  | .fired _ => True
  | .saving => True
  | .returned reply => ∃ value, reply = .ok value

def Settled (s : Scheduler) (call : Nat) : Prop := ∃ c, s.calls call = some c ∧ c.phase.Settled

/-- A tick has fired the task and is still to remove it. -/
def Doomed (s : Scheduler) (id : List Char) : Prop :=
  ∃ call op toRun, s.calls call = some ⟨op, .fired toRun⟩ ∧ id ∈ tasksToRemove toRun

/-- A call has changed the tasks and not saved them yet. -/
def Unsaved (s : Scheduler) : Prop :=
  ∃ call op phase, s.calls call = some ⟨op, phase⟩ ∧ (phase = .saving ∨ ∃ toRun, phase = .fired toRun)

/-- The settled calls in the order in which they took effect. -/
structure Ordered (s : Scheduler) (order : List Nat) : Prop where
  nodup : order.Nodup
  mem_iff : ∀ call, call ∈ order ↔ Settled s call

/-- `tasks` is what memory holds once the ticks under way have removed their tasks. -/
structure Represents (s : Scheduler) (tasks : TaskTable) : Prop where
  kept : ∀ id, ¬ Doomed s id → s.tasks.lookup id = tasks.lookup id
  gone : ∀ id, Doomed s id → tasks.lookup id = none

structure Tracked (cron : CronCrate) (initial : TaskTable) (s : Scheduler) (order : List Nat) :
    Prop where
  ordered : Ordered s order
  represents : Represents s (replay cron s.op order initial)
  file : Unsaved s ∨ decodedFile s.file = s.tasks

/-! ## A call that goes on -/

section Enter

variable {cron : CronCrate} {s s' : Scheduler} {call other : Nat} {op : Op} {phase : Phase}
  {order : List Nat} {initial tasks : TaskTable}

lemma calls_enter :
    (s.enter call op phase).calls other = if other = call then some ⟨op, phase⟩ else s.calls other :=
  Function.update_apply _ _ _ _

lemma replay_append :
    replay cron s.op (order ++ [call]) initial =
      (s.op call).elim (replay cron s.op order initial)
        (effect cron · (replay cron s.op order initial)) := by
  rw [replay, List.foldl_append]
  rfl

lemma replay_congr {ops ops' : Nat → Option Op} (h : ∀ call ∈ order, ops call = ops' call) :
    replay cron ops order initial = replay cron ops' order initial := by
  unfold replay
  induction order generalizing initial with
  | nil => rfl
  | cons call order ih =>
    rw [List.foldl_cons, List.foldl_cons, h call List.mem_cons_self]
    exact ih fun other hother => h other (List.mem_cons_of_mem _ hother)

/-- `s'` is `s` with the call in another phase; what is said about the tasks and the file is said
apart. -/
def Advances (s s' : Scheduler) (call : Nat) (op : Op) (phase : Phase) : Prop :=
  s'.calls = (s.enter call op phase).calls ∧ (s.op call = none ∨ s.op call = some op)

lemma Advances.calls_self (h : Advances s s' call op phase) : s'.calls call = some ⟨op, phase⟩ := by
  rw [h.1, calls_enter, if_pos rfl]

lemma Advances.calls_of_ne (h : Advances s s' call op phase) (hne : other ≠ call) :
    s'.calls other = s.calls other := by
  rw [h.1, calls_enter, if_neg hne]

lemma Advances.op_self (h : Advances s s' call op phase) : s'.op call = some op := by
  rw [Scheduler.op, h.calls_self, Option.map_some]

lemma Advances.op_of_ne (h : Advances s s' call op phase) (hne : other ≠ call) :
    s'.op other = s.op other := by
  rw [Scheduler.op, Scheduler.op, h.calls_of_ne hne]

lemma Advances.settled_iff (h : Advances s s' call op phase) :
    Settled s' other ↔ if other = call then phase.Settled else Settled s other := by
  by_cases hcall : other = call
  · subst hcall
    simp [Settled, h.calls_self]
  · rw [if_neg hcall, Settled, Settled, h.calls_of_ne hcall]

/-- The order of a call that neither takes effect nor was in effect before, or both. -/
lemma Ordered.same (h : Ordered s order) (hadv : Advances s s' call op phase)
    (hsettled : phase.Settled ↔ Settled s call) : Ordered s' order := by
  refine ⟨h.nodup, fun other => ?_⟩
  rw [hadv.settled_iff, h.mem_iff]
  by_cases hcall : other = call
  · subst hcall
    rw [if_pos rfl, hsettled]
  · rw [if_neg hcall]

lemma Ordered.replay_same (h : Ordered s order) (hadv : Advances s s' call op phase) :
    replay cron s'.op order initial = replay cron s.op order initial := by
  refine replay_congr fun other hother => ?_
  by_cases hcall : other = call
  · subst hcall
    obtain ⟨c, hc, -⟩ := (h.mem_iff other).mp hother
    have hop : s.op other = some c.op := by rw [Scheduler.op, hc, Option.map_some]
    rcases hadv.2 with hnone | hsome
    · rw [hop] at hnone
      cases hnone
    · rw [hsome, hadv.op_self]
  · exact hadv.op_of_ne hcall

/-- A call that takes effect comes last in the order. -/
lemma Ordered.append (h : Ordered s order) (hadv : Advances s s' call op phase)
    (hbefore : ¬ Settled s call) (hafter : phase.Settled) : Ordered s' (order ++ [call]) := by
  have hfresh : call ∉ order := fun hmem => hbefore ((h.mem_iff call).mp hmem)
  refine ⟨List.nodup_append.mpr ⟨h.nodup, List.nodup_singleton _, ?_⟩, fun other => ?_⟩
  · rintro a ha b hb rfl
    obtain rfl := List.mem_singleton.mp hb
    exact hfresh ha
  · rw [hadv.settled_iff, List.mem_append, List.mem_singleton, h.mem_iff]
    by_cases hcall : other = call
    · subst hcall
      simp [hafter]
    · simp [hcall]

lemma Ordered.replay_appended (h : Ordered s order) (hadv : Advances s s' call op phase) :
    replay cron s'.op (order ++ [call]) initial =
      effect cron op (replay cron s.op order initial) := by
  rw [replay_append, hadv.op_self, Option.elim_some, h.replay_same hadv]

lemma Advances.doomed_iff (h : Advances s s' call op phase) (hphase : ∀ toRun, phase ≠ .fired toRun)
    {id : List Char} :
    Doomed s' id ↔ ∃ other tick toRun, other ≠ call ∧ s.calls other = some ⟨tick, .fired toRun⟩ ∧
      id ∈ tasksToRemove toRun := by
  constructor
  · rintro ⟨other, tick, toRun, hother, hid⟩
    have hne : other ≠ call := by
      rintro rfl
      rw [h.calls_self] at hother
      cases hother
      exact hphase toRun rfl
    exact ⟨other, tick, toRun, hne, h.calls_of_ne hne ▸ hother, hid⟩
  · rintro ⟨other, tick, toRun, hne, hother, hid⟩
    exact ⟨other, tick, toRun, (h.calls_of_ne hne).trans hother, hid⟩

/-- Nobody is doomed or spared by a call that neither is nor was between its two sections. -/
lemma Advances.doomed_same (h : Advances s s' call op phase) (hphase : ∀ toRun, phase ≠ .fired toRun)
    (hbefore : ∀ tick toRun, s.calls call ≠ some ⟨tick, .fired toRun⟩) {id : List Char} :
    Doomed s' id ↔ Doomed s id := by
  rw [h.doomed_iff hphase]
  constructor
  · rintro ⟨other, tick, toRun, -, hother, hid⟩
    exact ⟨other, tick, toRun, hother, hid⟩
  · rintro ⟨other, tick, toRun, hother, hid⟩
    refine ⟨other, tick, toRun, ?_, hother, hid⟩
    rintro rfl
    exact hbefore tick toRun hother

lemma Represents.same (h : Represents s tasks) (hdoomed : ∀ id, Doomed s' id ↔ Doomed s id)
    (htasks : s'.tasks = s.tasks) : Represents s' tasks := by
  refine ⟨fun id hid => ?_, fun id hid => h.gone id ((hdoomed id).mp hid)⟩
  rw [htasks]
  exact h.kept id fun hold => hid ((hdoomed id).mpr hold)

/-- A call that was not about to save leaves it to others to save what they have changed. -/
lemma Advances.unsaved (h : Advances s s' call op phase) (hbefore : ¬ Settled s call)
    (hunsaved : Unsaved s) : Unsaved s' := by
  obtain ⟨other, tick, phase', hother, hphase'⟩ := hunsaved
  have hne : other ≠ call := by
    rintro rfl
    refine hbefore ⟨_, hother, ?_⟩
    rcases hphase' with rfl | ⟨toRun, rfl⟩
    · trivial
    · trivial
  exact ⟨other, tick, phase', (h.calls_of_ne hne).trans hother, hphase'⟩

end Enter

/-! ## What a step keeps -/

section Steps

variable {cron : CronCrate} {s s' : Scheduler} {call : Nat} {op : Op} {phase : Phase}
  {order : List Nat} {initial : TaskTable}

/-- A call that goes on without having taken effect. -/
lemma Tracked.wait (h : Tracked cron initial s order) (hadv : Advances s s' call op phase)
    (hbefore : ¬ Settled s call) (hafter : ¬ phase.Settled) (htasks : s'.tasks = s.tasks)
    (hfile : s'.file = s.file) : Tracked cron initial s' order := by
  have hphase : ∀ toRun, phase ≠ .fired toRun := by
    rintro toRun rfl
    exact hafter trivial
  have hfired : ∀ tick toRun, s.calls call ≠ some ⟨tick, .fired toRun⟩ :=
    fun tick toRun hcall => hbefore ⟨_, hcall, trivial⟩
  refine ⟨h.ordered.same hadv (iff_of_false hafter hbefore), ?_, ?_⟩
  · rw [h.ordered.replay_same hadv]
    exact h.represents.same (fun id => hadv.doomed_same hphase hfired) htasks
  · rw [hfile, htasks]
    exact h.file.imp_left (hadv.unsaved hbefore)

/-- A call that takes effect on the tasks in one section. -/
lemma Tracked.apply (h : Tracked cron initial s order) (hadv : Advances s s' call op phase)
    (hbefore : ¬ Settled s call) (hafter : phase.Settled) (hphase : ∀ toRun, phase ≠ .fired toRun)
    (hkept : ∀ tasks, Represents s tasks → ∀ id, ¬ Doomed s id →
      s'.tasks.lookup id = (effect cron op tasks).lookup id)
    (hgone : ∀ tasks, Represents s tasks → ∀ id, Doomed s id →
      (effect cron op tasks).lookup id = none)
    (hfile : phase = .saving ∨ s'.tasks = s.tasks ∧ s'.file = s.file) :
    Tracked cron initial s' (order ++ [call]) := by
  have hfired : ∀ tick toRun, s.calls call ≠ some ⟨tick, .fired toRun⟩ :=
    fun tick toRun hcall => hbefore ⟨_, hcall, trivial⟩
  have hdoomed : ∀ id, Doomed s' id ↔ Doomed s id := fun id => hadv.doomed_same hphase hfired
  refine ⟨h.ordered.append hadv hbefore hafter, ?_, ?_⟩
  · rw [h.ordered.replay_appended hadv]
    exact ⟨fun id hid => hkept _ h.represents id (mt (hdoomed id).mpr hid),
      fun id hid => hgone _ h.represents id ((hdoomed id).mp hid)⟩
  · rcases hfile with rfl | ⟨htasks, hfile⟩
    · exact .inl ⟨call, op, _, hadv.calls_self, .inl rfl⟩
    · rw [hfile, htasks]
      exact h.file.imp_left (hadv.unsaved hbefore)

/-! ### One task -/

section OneTask

variable {tasks : TaskTable} {key id : List Char} {task : ScheduledTask}

lemma Represents.insert_kept (h : Represents s tasks) (hid : ¬ Doomed s id) :
    (s.tasks.insert key task).lookup id = (tasks.insert key task).lookup id := by
  by_cases hkey : id = key
  · subst hkey
    rw [Finmap.lookup_insert, Finmap.lookup_insert]
  · rw [Finmap.lookup_insert_of_ne _ hkey, Finmap.lookup_insert_of_ne _ hkey, h.kept id hid]

lemma Represents.insert_gone (h : Represents s tasks) (hkey : ¬ Doomed s key) (hid : Doomed s id) :
    (tasks.insert key task).lookup id = none := by
  have hne : id ≠ key := fun heq => hkey (heq ▸ hid)
  rw [Finmap.lookup_insert_of_ne _ hne, h.gone id hid]

lemma Represents.erase_kept (h : Represents s tasks) (hid : ¬ Doomed s id) :
    (s.tasks.erase key).lookup id = (tasks.erase key).lookup id := by
  by_cases hkey : id = key
  · subst hkey
    rw [Finmap.lookup_erase, Finmap.lookup_erase]
  · rw [Finmap.lookup_erase_ne hkey, Finmap.lookup_erase_ne hkey, h.kept id hid]

lemma Represents.erase_gone (h : Represents s tasks) (hid : Doomed s id) :
    (tasks.erase key).lookup id = none := by
  by_cases hkey : id = key
  · subst hkey
    exact Finmap.lookup_erase _ _
  · rw [Finmap.lookup_erase_ne hkey, h.gone id hid]

lemma Represents.eq (h : Represents s tasks) (hnobody : ∀ id, ¬ Doomed s id) : s.tasks = tasks :=
  Finmap.ext_lookup fun id => h.kept id (hnobody id)

end OneTask

/-! ### Ticks -/

lemma lookup_removeRunOnce (toRun tasks : TaskTable) (id : List Char) :
    (removeRunOnce toRun tasks).lookup id =
      if id ∈ tasksToRemove toRun then none else tasks.lookup id := by
  rw [removeRunOnce, Table.lookup_filter]
  by_cases hid : id ∈ tasksToRemove toRun
  · simp [hid]
  · cases tasks.lookup id <;> simp [hid]

/-- When no task is due, a tick leaves them as they are. -/
lemma fire_eq_self {now : DateTime} {tasks : TaskTable} (h : tasksToRun cron now tasks = ∅) :
    fire cron now tasks = tasks := by
  refine Finmap.ext_lookup fun id => ?_
  rw [fire, Table.lookup_mapValues]
  cases hid : tasks.lookup id with
  | none => rfl
  | some task =>
    have hdue : task.isDue cron now = false := by
      by_contra hdue
      have hlookup := congrArg (Finmap.lookup id) h
      rw [tasksToRun, Table.lookup_mapValues, Table.lookup_filter, hid, Finmap.lookup_empty,
        Option.filter_some, if_pos (Bool.eq_true_of_not_eq_false hdue)] at hlookup
      cases hlookup
    rw [Option.map_some, hdue, if_neg Bool.false_ne_true]

lemma removeRunOnce_empty (tasks : TaskTable) : removeRunOnce ∅ tasks = tasks := by
  refine Finmap.ext_lookup fun id => ?_
  rw [lookup_removeRunOnce, if_neg]
  exact Multiset.notMem_zero id

/-! ### The sections -/

lemma Scheduler.reload_not_settled (s : Scheduler) (readable : Bool) :
    ¬ (s.reload readable).Settled := by
  unfold reload
  split
  · exact id
  · exact id

lemma Tracked.start {readable : Bool} (h : Tracked cron initial s order)
    (hstep : step cron s (.start call op readable) = some s') : Tracked cron initial s' order := by
  simp only [step] at hstep
  split at hstep
  · cases hstep
  · next hnone =>
    have hbefore : ¬ Settled s call := by
      rintro ⟨c, hc, -⟩
      rw [hnone] at hc
      cases hc
    have hadv : ∀ phase, Advances s (s.enter call op phase) call op phase :=
      fun phase => ⟨rfl, .inl (by rw [Scheduler.op, hnone, Option.map_none])⟩
    have hwait : ∀ phase : Phase, ¬ phase.Settled →
        Tracked cron initial (s.enter call op phase) order :=
      fun phase hafter => h.wait (hadv phase) hbefore hafter rfl rfl
    split at hstep
    · split at hstep
      · cases hstep
        refine hwait _ ?_
        rintro ⟨value, hvalue⟩
        cases hvalue
      · cases hstep
        exact hwait _ (s.reload_not_settled readable)
    · cases hstep
      exact hwait _ (s.reload_not_settled readable)

lemma not_settled_of_calls {phase : Phase} (hcall : s.calls call = some ⟨op, phase⟩)
    (hphase : ¬ phase.Settled) : ¬ Settled s call := by
  rintro ⟨c, hc, hsettled⟩
  obtain rfl := Option.some_inj.mp (hcall.symm.trans hc)
  exact hphase hsettled

lemma advances_of_calls {phase phase' : Phase} (hcall : s.calls call = some ⟨op, phase⟩)
    (hcalls : s'.calls = (s.enter call op phase').calls) : Advances s s' call op phase' :=
  ⟨hcalls, .inr (by rw [Scheduler.op, hcall, Option.map_some])⟩

lemma Tracked.install (h : Tracked cron initial s order) (hquiet : Undisturbed s (.install call))
    (hstep : step cron s (.install call) = some s') : Tracked cron initial s' order := by
  simp only [step] at hstep
  split at hstep
  · next op parsed hcall =>
    obtain rfl := hquiet op parsed hcall
    cases hstep
    exact h.wait (advances_of_calls hcall rfl) (not_settled_of_calls hcall id) id rfl rfl
  · cases hstep

section Change

variable {chosen : Table.Order (List Char) ScheduledTask}

/-- The tick fires its tasks when no other is between its two sections. -/
lemma Tracked.tick {now : DateTime} (h : Tracked cron initial s order)
    (hcall : s.calls call = some ⟨.tick now, .ready⟩) (hnobody : ∀ id, ¬ Doomed s id)
    (hfired : ∀ other tick toRun, s.calls other ≠ some ⟨tick, .fired toRun⟩)
    (hstep : s.changeTasks cron call (.tick now) chosen = some s') :
    Tracked cron initial s' (order ++ [call]) := by
  have hbefore := not_settled_of_calls hcall (id : ¬ Phase.ready.Settled)
  simp only [Scheduler.changeTasks] at hstep
  cases hstep
  by_cases hempty : tasksToRun cron now s.tasks = ∅
  · simp only [if_pos hempty, fire_eq_self hempty]
    have heffect : ∀ tasks, Represents s tasks → effect cron (.tick now) tasks = tasks := by
      intro tasks htasks
      obtain rfl := htasks.eq hnobody
      rw [effect, hempty, fire_eq_self hempty, removeRunOnce_empty]
    refine h.apply (advances_of_calls hcall rfl) hbefore ⟨_, rfl⟩ (fun toRun => Phase.noConfusion)
      ?_ ?_ (.inr ⟨rfl, rfl⟩)
    · intro tasks htasks id hid
      rw [heffect tasks htasks]
      exact htasks.kept id hid
    · exact fun tasks _ id hid => absurd hid (hnobody id)
  · simp only [if_neg hempty]
    generalize htoRun : tasksToRun cron now s.tasks = toRun
    have hadv : Advances s { s.enter call (.tick now) (.fired toRun) with
        tasks := fire cron now s.tasks } call (.tick now) (.fired toRun) :=
      advances_of_calls hcall rfl
    refine ⟨h.ordered.append hadv hbefore trivial, ?_,
      .inl ⟨call, _, _, hadv.calls_self, .inr ⟨toRun, rfl⟩⟩⟩
    rw [h.ordered.replay_appended hadv, effect, ← h.represents.eq hnobody, htoRun]
    constructor
    · intro id hid
      rw [lookup_removeRunOnce, if_neg]
      exact fun hmem => hid ⟨call, _, toRun, hadv.calls_self, hmem⟩
    · rintro id ⟨other, tick, toRun', hother, hmem⟩
      by_cases hself : other = call
      · subst hself
        rw [hadv.calls_self] at hother
        cases hother
        rw [lookup_removeRunOnce, if_pos hmem]
      · exact absurd ((hadv.calls_of_ne hself).symm.trans hother) (hfired other tick toRun')

lemma Tracked.change (h : Tracked cron initial s order)
    (hquiet : Undisturbed s (.change call chosen))
    (hstep : step cron s (.change call chosen) = some s') :
    ∃ order, Tracked cron initial s' order := by
  simp only [step] at hstep
  split at hstep
  · next op hcall =>
    have hbefore := not_settled_of_calls hcall (id : ¬ Phase.ready.Settled)
    have havoids : ∀ id, Doomed s id → ∃ removed, id ∈ removed ∧ op.Avoids removed := by
      rintro id ⟨other, tick, toRun, hother, hid⟩
      exact ⟨_, hid, hquiet op hcall other tick toRun hother⟩
    have hrejected : ∀ error, s.enter call op (.returned (.error error)) = s' →
        Tracked cron initial s' order := by
      rintro error rfl
      refine h.wait (advances_of_calls hcall rfl) hbefore ?_ rfl rfl
      rintro ⟨value, hvalue⟩
      cases hvalue
    cases op with
    | addTask task =>
      have hkey : ¬ Doomed s task.id := by
        intro hid
        obtain ⟨removed, hmem, hnot⟩ := havoids _ hid
        exact hnot hmem
      cases hstep
      exact ⟨_, h.apply (advances_of_calls hcall rfl) hbefore trivial (fun _ => Phase.noConfusion)
        (fun _ htasks _ hid => htasks.insert_kept hid)
        (fun _ htasks _ hid => htasks.insert_gone hkey hid) (.inl rfl)⟩
    | removeTask id =>
      simp only [Scheduler.changeTasks] at hstep
      split at hstep
      · cases hstep
        exact ⟨_, h.apply (advances_of_calls hcall rfl) hbefore trivial
          (fun _ => Phase.noConfusion) (fun _ htasks _ hid => htasks.erase_kept hid)
          (fun _ htasks _ hid => htasks.erase_gone hid) (.inl rfl)⟩
      · exact ⟨order, hrejected _ (Option.some_inj.mp hstep)⟩
    | toggleTask id enabled =>
      have hkey : ¬ Doomed s id := by
        intro hid
        obtain ⟨removed, hmem, hnot⟩ := havoids _ hid
        exact hnot hmem
      simp only [Scheduler.changeTasks] at hstep
      split at hstep
      · next task htask =>
        cases hstep
        have heffect : ∀ tasks, Represents s tasks →
            effect cron (.toggleTask id enabled) tasks =
              tasks.insert id { task with enabled } := by
          intro tasks htasks
          have hlookup : tasks.lookup id = some task := (htasks.kept id hkey).symm.trans htask
          simp only [effect, hlookup]
        refine ⟨_, h.apply (advances_of_calls hcall rfl) hbefore trivial
          (fun _ => Phase.noConfusion) ?_ ?_ (.inl rfl)⟩
        · intro tasks htasks other hother
          rw [heffect tasks htasks]
          exact htasks.insert_kept hother
        · intro tasks htasks other hother
          rw [heffect tasks htasks]
          exact htasks.insert_gone hkey hother
      · exact ⟨order, hrejected _ (Option.some_inj.mp hstep)⟩
    | listTasks =>
      simp only [Scheduler.changeTasks] at hstep
      split at hstep
      · cases hstep
        exact ⟨_, h.apply (advances_of_calls hcall rfl) hbefore ⟨_, rfl⟩
          (fun _ => Phase.noConfusion) (fun _ htasks id hid => htasks.kept id hid)
          (fun _ htasks id hid => htasks.gone id hid) (.inr ⟨rfl, rfl⟩)⟩
      · cases hstep
    | tick now =>
      have hfired : ∀ other tick toRun, s.calls other ≠ some ⟨tick, .fired toRun⟩ :=
        fun other tick toRun hother => hquiet _ hcall other tick toRun hother
      have hnobody : ∀ id, ¬ Doomed s id := by
        rintro id ⟨other, tick, toRun, hother, -⟩
        exact hfired other tick toRun hother
      exact ⟨_, h.tick hcall hnobody hfired hstep⟩
  · cases hstep

end Change

lemma Tracked.expire (h : Tracked cron initial s order)
    (hstep : step cron s (.expire call) = some s') : Tracked cron initial s' order := by
  simp only [step] at hstep
  split at hstep
  · next op toRun hcall =>
    cases hstep
    generalize hs' : ({ s.enter call op .saving with tasks := removeRunOnce toRun s.tasks } :
      Scheduler) = s'
    have hadv : Advances s s' call op .saving := by
      rw [← hs']
      exact advances_of_calls hcall rfl
    have htasks : s'.tasks = removeRunOnce toRun s.tasks := by rw [← hs']
    have hsettled : Settled s call := ⟨_, hcall, trivial⟩
    refine ⟨h.ordered.same hadv (iff_of_true trivial hsettled), ?_,
      .inl ⟨call, op, _, hadv.calls_self, .inl rfl⟩⟩
    rw [h.ordered.replay_same hadv]
    have hdoomed : ∀ id, Doomed s' id → Doomed s id := by
      intro id hid
      obtain ⟨other, tick, toRun', -, hother, hmem⟩ :=
        (hadv.doomed_iff fun _ => Phase.noConfusion).mp hid
      exact ⟨other, tick, toRun', hother, hmem⟩
    refine ⟨fun id hid => ?_, fun id hid => h.represents.gone id (hdoomed id hid)⟩
    rw [htasks, lookup_removeRunOnce]
    by_cases hmem : id ∈ tasksToRemove toRun
    · -- the task goes now, as it did when the tick took effect
      rw [if_pos hmem, h.represents.gone id ⟨call, op, toRun, hcall, hmem⟩]
    · rw [if_neg hmem]
      refine h.represents.kept id ?_
      rintro ⟨other, tick, toRun', hother, hmem'⟩
      refine hid ((hadv.doomed_iff fun _ => Phase.noConfusion).mpr
        ⟨other, tick, toRun', ?_, hother, hmem'⟩)
      rintro rfl
      rw [hcall] at hother
      cases hother
      exact hmem hmem'
  · cases hstep

lemma Tracked.save {chosen : Table.Order (List Char) ScheduledTask} {outcome : SaveOutcome}
    (h : Tracked cron initial s order) (hquiet : Undisturbed s (.save call chosen outcome))
    (hstep : step cron s (.save call chosen outcome) = some s') :
    Tracked cron initial s' order := by
  obtain rfl : outcome = .written := hquiet
  simp only [step] at hstep
  split at hstep
  · next op hcall =>
    split at hstep
    · next hlists =>
      cases hstep
      have hadv : Advances s { s.enter call op (.returned (saveReply op .written)) with
          file := fileAfter s.file chosen .written } call op (.returned (saveReply op .written)) :=
        advances_of_calls hcall rfl
      have hfired : ∀ tick toRun, s.calls call ≠ some ⟨tick, .fired toRun⟩ := by
        intro tick toRun hother
        rw [hcall] at hother
        cases hother
      refine ⟨h.ordered.same hadv (iff_of_true ⟨_, rfl⟩ ⟨_, hcall, trivial⟩), ?_, .inr ?_⟩
      · rw [h.ordered.replay_same hadv]
        exact h.represents.same
          (fun id => hadv.doomed_same (fun _ => Phase.noConfusion) hfired) rfl
      · have hread := fromStr_toStringPretty hlists
        change ((some (toStringPretty chosen)).bind fromStr).getD ∅ = s.tasks
        rw [Option.bind_some, hread, Option.getD_some]
    · cases hstep
  · cases hstep

lemma Tracked.step {label : Label} (h : Tracked cron initial s order) (hquiet : Undisturbed s label)
    (hstep : step cron s label = some s') : ∃ order, Tracked cron initial s' order := by
  cases label with
  | start call op readable => exact ⟨order, h.start hstep⟩
  | install call => exact ⟨order, h.install hquiet hstep⟩
  | change call chosen => exact h.change hquiet hstep
  | expire call => exact ⟨order, h.expire hstep⟩
  | save call chosen outcome => exact ⟨order, h.save hquiet hstep⟩

end Steps

/-! ## Whole runs -/

section Runs

variable {cron : CronCrate} {file : Option (List Char)} {labels : List Label} {s : Scheduler}

lemma tracked_new (file : Option (List Char)) :
    Tracked cron (decodedFile file) (Scheduler.new file) [] := by
  have hidle : ∀ call, (Scheduler.new file).calls call = none := fun _ => rfl
  refine ⟨⟨List.nodup_nil, fun call => ?_⟩, ⟨fun _ _ => rfl, ?_⟩, .inr rfl⟩
  · refine iff_of_false List.not_mem_nil ?_
    rintro ⟨c, hc, -⟩
    cases hc
  · rintro id ⟨call, op, toRun, hcall, -⟩
    cases hcall

lemma tracked_of_undisturbed (hquiet : Along (step cron) Undisturbed (Scheduler.new file) labels)
    (hrun : run (step cron) (Scheduler.new file) labels = some s) :
    ∃ order, Tracked cron (decodedFile file) s order := by
  refine run_invariant_of_along (fun s => ∃ order, Tracked cron (decodedFile file) s order) ?_
    ⟨[], tracked_new file⟩ hquiet hrun
  rintro u label u' ⟨order, htracked⟩ hlabel hstep
  exact htracked.step hlabel hstep

lemma not_doomed_of_completed (hdone : Completed s) (id : List Char) : ¬ Doomed s id := by
  rintro ⟨call, op, toRun, hcall, -⟩
  obtain ⟨reply, hreply⟩ := hdone call _ hcall
  cases hreply

/-- When all calls have returned, the file holds what memory holds. -/
lemma Tracked.decodedFile_eq {initial : TaskTable} {order : List Nat}
    (h : Tracked cron initial s order) (hdone : Completed s) : decodedFile s.file = s.tasks := by
  refine h.file.resolve_left ?_
  rintro ⟨call, op, phase, hcall, hphase⟩
  obtain ⟨reply, rfl⟩ := hdone call _ hcall
  rcases hphase with hsaving | ⟨toRun, hfired⟩
  · cases hsaving
  · cases hfired

end Runs

/-! ## One caller, and two -/

section Examples

/-- The call that a move belongs to. -/
def Label.call : Label → Nat
  | .start call _ _ => call
  | .install call => call
  | .change call _ => call
  | .expire call => call
  | .save call _ _ => call

variable {cron : CronCrate} {s s' : Scheduler} {other : Nat}

def someTask : ScheduledTask where
  id := ['a']
  cron := []
  goal := []
  sessionId := []
  replyTo := []
  enabled := true
  runOnce := false
  lastRun := none

end Examples

end RustyClaw.Cron
