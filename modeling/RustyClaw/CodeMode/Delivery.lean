import Mathlib.Tactic.Set
import RustyClaw.CodeMode.Service

/-!
# Delivery of terminal summaries

What the service is for, seen from outside: a cell runs, finishes with a terminal summary, and
leaves its session by a `wait` that returns that summary, unless it is aborted or a new cell
takes its place.  This is a `Ledger.Book` with one slot per session; `ServiceState.book` reads
it off a service state, and `serviceStep_spec` shows that every transition of the service is a
move of that book.

The moves hand out the right summary except in one window.  The host task records the terminal
phase (`hostUpdate`, `hostDeadline`, `hostChannelClosed`) and publishes the terminal summary
(`hostPublish`) in two critical sections, while a woken `wait` looks at the phase to decide
whether it removes the cell but returns the last *publication*.  A read inside that window
(`RacyRead`) removes the cell with an old running summary.  Along runs without such a read
every finished cell is accounted for, and a run with one never recovers from it.
-/

namespace RustyClaw.CodeMode

open Transition

variable {V : Type}

/-! ## Projections of the state updates -/

namespace ServiceState

variable (s : ServiceState V)

@[simp] lemma setSession_sessions (sessionId : String) (session : SessionState V) :
    (s.setSession sessionId session).sessions =
      Function.update s.sessions sessionId (some session) := rfl
@[simp] lemma setSession_hosts (sessionId : String) (session : SessionState V) :
    (s.setSession sessionId session).hosts = s.hosts := rfl
@[simp] lemma setSession_calls (sessionId : String) (session : SessionState V) :
    (s.setSession sessionId session).calls = s.calls := rfl
@[simp] lemma setSession_log (sessionId : String) (session : SessionState V) :
    (s.setSession sessionId session).log = s.log := rfl

@[simp] lemma setHost_sessions (host : HostId) (task : HostTask V) :
    (s.setHost host task).sessions = s.sessions := rfl
@[simp] lemma setHost_hosts (host : HostId) (task : HostTask V) :
    (s.setHost host task).hosts = Function.update s.hosts host (some task) := rfl
@[simp] lemma setHost_calls (host : HostId) (task : HostTask V) :
    (s.setHost host task).calls = s.calls := rfl
@[simp] lemma setHost_log (host : HostId) (task : HostTask V) :
    (s.setHost host task).log = s.log := rfl

@[simp] lemma setCall_sessions (call : CallId) (state : Call V) :
    (s.setCall call state).sessions = s.sessions := rfl
@[simp] lemma setCall_hosts (call : CallId) (state : Call V) :
    (s.setCall call state).hosts = s.hosts := rfl
@[simp] lemma setCall_calls (call : CallId) (state : Call V) :
    (s.setCall call state).calls = Function.update s.calls call state := rfl
@[simp] lemma setCall_log (call : CallId) (state : Call V) :
    (s.setCall call state).log = s.log := rfl

@[simp] lemma record_sessions (outcome : Outcome V) :
    (s.record outcome).sessions = s.sessions := rfl
@[simp] lemma record_hosts (outcome : Outcome V) : (s.record outcome).hosts = s.hosts := rfl
@[simp] lemma record_calls (outcome : Outcome V) : (s.record outcome).calls = s.calls := rfl
@[simp] lemma record_log (outcome : Outcome V) :
    (s.record outcome).log = s.log ++ [outcome] := rfl

end ServiceState

section

variable (s : ServiceState V) (task : HostTask V) (result : Except ToolError (ExecRunResult V))

@[simp] lemma releaseInitial_sessions : (releaseInitial s task result).sessions = s.sessions := by
  unfold releaseInitial
  split
  · split <;> rfl
  · rfl

@[simp] lemma releaseInitial_hosts : (releaseInitial s task result).hosts = s.hosts := by
  unfold releaseInitial
  split
  · split <;> rfl
  · rfl

@[simp] lemma releaseInitial_log : (releaseInitial s task result).log = s.log := by
  unfold releaseInitial
  split
  · split <;> rfl
  · rfl

/-- Releasing the initial call changes no call but an executing one, which returns. -/
lemma releaseInitial_calls (call : CallId) :
    (releaseInitial s task result).calls call = s.calls call ∨
      (∃ host, s.calls call = .executing host) ∧
        (releaseInitial s task result).calls call = .returned result := by
  unfold releaseInitial
  split
  · split
    · rename_i call' _ _ host hcall
      by_cases h : call = call'
      · subst h
        exact .inr ⟨⟨host, hcall⟩, by simp⟩
      · exact .inl (by simp [Function.update_of_ne h])
    · exact .inl rfl
  · exact .inl rfl

end

/-! ## The book of a service state -/

def slotOf : Option (ActiveCellHandle V) → Ledger.Slot String (ExecRunResult V)
  | none => .empty
  | some cell => if cell.isTerminal then .done cell.cellId cell.summary else .live cell.cellId

def ServiceState.slots (s : ServiceState V) (sessionId : String) :
    Ledger.Slot String (ExecRunResult V) :=
  slotOf ((s.sessions sessionId).bind SessionState.activeCell)

def ServiceState.book (s : ServiceState V) : Ledger.Book String String (ExecRunResult V) :=
  { slots := s.slots, log := s.log }

lemma slotOf_live {cell : ActiveCellHandle V} (h : cell.isTerminal = false) :
    slotOf (some cell) = .live cell.cellId := by simp [slotOf, h]

lemma slotOf_done {cell : ActiveCellHandle V} (h : cell.isTerminal = true) :
    slotOf (some cell) = .done cell.cellId cell.summary := by simp [slotOf, h]

/-- The summary of a job that is done is not a running one. -/
lemma slots_done_lifecycle {s : ServiceState V} {sessionId job : String}
    {summary : ExecRunResult V} (h : s.slots sessionId = .done job summary) :
    summary.lifecycle ≠ .running := by
  unfold ServiceState.slots slotOf at h
  split at h
  · cases h
  · split at h
    · rename_i cell _ hterminal
      cases h
      rw [ActiveCellHandle.summary_lifecycle, Ne, CellPhase.lifecycle_eq_running_iff]
      simpa [ActiveCellHandle.isTerminal] using hterminal
    · cases h

lemma slots_of_active {s : ServiceState V} {sessionId : String} {session : SessionState V}
    {cell : ActiveCellHandle V} (hsession : s.sessions sessionId = some session)
    (hcell : session.activeCell = some cell) : s.slots sessionId = slotOf (some cell) := by
  simp [ServiceState.slots, hsession, hcell]

/-- The slots after one session was written. -/
lemma slots_update {s s' : ServiceState V} {sessionId : String} {session : SessionState V}
    (h : s'.sessions = Function.update s.sessions sessionId (some session)) :
    s'.slots = Function.update s.slots sessionId (slotOf session.activeCell) := by
  funext k
  by_cases hk : k = sessionId
  · subst hk
    simp [ServiceState.slots, h]
  · simp [ServiceState.slots, h, Function.update_of_ne hk]

/-- Writing a session and logging entries is an update of the book. -/
lemma book_update {s s' : ServiceState V} {sessionId : String} {session : SessionState V}
    {entries : List (Outcome V)}
    (hsessions : s'.sessions = Function.update s.sessions sessionId (some session))
    (hlog : s'.log = s.log ++ entries) :
    s'.book = s.book.update sessionId (slotOf session.activeCell) entries := by
  simp only [ServiceState.book, Ledger.Book.update, slots_update hsessions, hlog]

/-- A session written with a cell of the same slot leaves the book as it is. -/
lemma book_eq_of_slot {s s' : ServiceState V} {sessionId : String} {session : SessionState V}
    (hsessions : s'.sessions = Function.update s.sessions sessionId (some session))
    (hslot : slotOf session.activeCell = s.slots sessionId) (hlog : s'.log = s.log) :
    s'.book = s.book := by
  simp only [ServiceState.book, slots_update hsessions, hlog, hslot, Function.update_eq_self]

lemma book_eq {s s' : ServiceState V} (hsessions : s'.sessions = s.sessions)
    (hlog : s'.log = s.log) : s'.book = s.book := by
  have hslots : s'.slots = s.slots := by
    funext k
    simp [ServiceState.slots, hsessions]
  simp [ServiceState.book, hslots, hlog]

/-! ## Well-formed service states -/

/-- A publication that a read may prefer is never ahead of the phase, and a terminal phase is
either waiting to be published or published for good. -/
structure Agrees (cell : ActiveCellHandle V) (task : HostTask V) : Prop where
  published : 0 < task.revision → cell.lastPublication ≠ none
  live : cell.isTerminal = false →
    (∀ summary, cell.lastPublication = some summary → summary.lifecycle = .running) ∧
      ∀ summary kind, task.pc = .publishing summary kind →
        summary.lifecycle = .running ∧ (kind = .progress ∨ kind = .pendingTool)
  terminal : cell.isTerminal = true →
    (∃ kind, task.pc = .publishing cell.summary kind ∧ (kind = .terminal ∨ kind = .hostError) ∧
      ∀ summary, cell.lastPublication = some summary → summary.lifecycle = .running) ∨
    (task.pc = .exited ∧ cell.lastPublication = some cell.summary)

def CallOk (hosts : HostId → Option (HostTask V)) : Call V → Prop
  | .waiting host cellId revision _ =>
    cellId = host.cellId ∧ ∃ task, hosts host = some task ∧ revision ≤ task.revision
  | .reading sessionId cellId true =>
    ∃ host task, host.sessionId = sessionId ∧ host.cellId = cellId ∧ hosts host = some task ∧
      0 < task.revision
  | _ => True

/-- The sequence number the next cell of a session gets. -/
def ServiceState.nextSeq (s : ServiceState V) (sessionId : String) : Nat :=
  (s.sessions sessionId).elim 0 SessionState.nextCellSeq

structure WellFormed (s : ServiceState V) : Prop where
  fresh : ∀ host, s.nextSeq host.sessionId ≤ host.seq → s.hosts host = none
  active : ∀ sessionId session cell, s.sessions sessionId = some session →
    session.activeCell = some cell → ∃ host task, session.hostHandle = some host ∧
      host.sessionId = sessionId ∧ host.cellId = cell.cellId ∧ s.hosts host = some task ∧
        Agrees cell task
  calls : ∀ call, CallOk s.hosts (s.calls call)
  named : ∀ sessionId cellId summary, .finished sessionId cellId summary ∈ s.log →
    ∃ n < s.nextSeq sessionId, cellId = cellName n

lemma nextSeq_setSession (s : ServiceState V) {sessionId : String} {session : SessionState V}
    (h : s.nextSeq sessionId ≤ session.nextCellSeq) (sessionId' : String) :
    s.nextSeq sessionId' ≤ (s.setSession sessionId session).nextSeq sessionId' := by
  by_cases hs : sessionId' = sessionId
  · subst hs
    simpa [ServiceState.nextSeq] using h
  · simp [ServiceState.nextSeq, Function.update_of_ne hs]

lemma nextSeq_of_session {s : ServiceState V} {sessionId : String} {session : SessionState V}
    (h : s.sessions sessionId = some session) : s.nextSeq sessionId = session.nextCellSeq := by
  simp [ServiceState.nextSeq, h]

lemma HostId.ext_of_cellId {host host' : HostId} (hsession : host.sessionId = host'.sessionId)
    (hcell : host.cellId = host'.cellId) : host = host' := by
  obtain ⟨sessionId, seq⟩ := host
  obtain ⟨sessionId', seq'⟩ := host'
  obtain rfl : sessionId = sessionId' := hsession
  obtain rfl : seq = seq' := cellName_injective hcell
  rfl

lemma wellFormed_init : WellFormed (ServiceState.init : ServiceState V) where
  fresh := by simp [ServiceState.init]
  active := by simp [ServiceState.init]
  calls := by simp [ServiceState.init, CallOk]
  named := by simp [ServiceState.init]

lemma CallOk.setHost {hosts : HostId → Option (HostTask V)} {host : HostId}
    {task task' : HostTask V} (htask : hosts host = some task)
    (hrevision : task.revision ≤ task'.revision) {call : Call V} (h : CallOk hosts call) :
    CallOk (Function.update hosts host (some task')) call := by
  cases call with
  | waiting host' cellId revision timed =>
    obtain ⟨hcell, task₀, htask₀, hle⟩ := h
    refine ⟨hcell, ?_⟩
    by_cases hh : host' = host
    · subst hh
      obtain rfl : task = task₀ := Option.some.inj (htask.symm.trans htask₀)
      exact ⟨task', by simp, Nat.le_trans hle hrevision⟩
    · exact ⟨task₀, by simpa [Function.update_of_ne hh] using htask₀, hle⟩
  | reading sessionId cellId preferPublication =>
    cases preferPublication with
    | false => trivial
    | true =>
      obtain ⟨host', task₀, hsession, hcell, htask₀, hpos⟩ := h
      by_cases hh : host' = host
      · subst hh
        obtain rfl : task = task₀ := Option.some.inj (htask.symm.trans htask₀)
        exact ⟨host', task', hsession, hcell, by simp, Nat.lt_of_lt_of_le hpos hrevision⟩
      · exact ⟨host', task₀, hsession, hcell, by simpa [Function.update_of_ne hh] using htask₀,
          hpos⟩
  | _ => trivial

/-- The host of an active cell is found under the name of the cell. -/
lemma WellFormed.task_of_active {s : ServiceState V} (hwf : WellFormed s) {host : HostId}
    {session : SessionState V} {cell : ActiveCellHandle V}
    (hfound : s.requireActiveCell host.sessionId host.cellId = .ok (session, cell)) :
    session.hostHandle = some host ∧ ∃ task, s.hosts host = some task ∧ Agrees cell task := by
  obtain ⟨hsession, hcell, hid⟩ := ServiceState.requireActiveCell_eq_ok.mp hfound
  obtain ⟨host', task, hhandle, hs, hc, htask, hagrees⟩ :=
    hwf.active _ _ _ hsession hcell
  obtain rfl : host' = host := HostId.ext_of_cellId hs (hc.trans hid)
  exact ⟨hhandle, task, htask, hagrees⟩

lemma WellFormed.of_eq {s s' : ServiceState V} (hwf : WellFormed s)
    (hsessions : s'.sessions = s.sessions) (hhosts : s'.hosts = s.hosts)
    (hcalls : ∀ call, CallOk s.hosts (s'.calls call)) (hlog : s'.log = s.log) :
    WellFormed s' where
  fresh := by
    simp only [ServiceState.nextSeq, hsessions, hhosts]
    exact hwf.fresh
  active := by
    rw [hsessions, hhosts]
    exact hwf.active
  calls := by
    rw [hhosts]
    exact hcalls
  named := by
    simp only [ServiceState.nextSeq, hsessions, hlog]
    exact hwf.named

lemma WellFormed.setCall {s : ServiceState V} (hwf : WellFormed s) (call : CallId)
    {state : Call V} (hstate : CallOk s.hosts state) : WellFormed (s.setCall call state) := by
  refine hwf.of_eq rfl rfl (fun call' => ?_) rfl
  by_cases h : call' = call
  · subst h
    simpa using hstate
  · simpa [Function.update_of_ne h] using hwf.calls call'

lemma WellFormed.record {s : ServiceState V} (hwf : WellFormed s) {outcome : Outcome V}
    (hnamed : ∀ sessionId cellId summary, outcome = .finished sessionId cellId summary →
      ∃ n < s.nextSeq sessionId, cellId = cellName n) : WellFormed (s.record outcome) where
  fresh := hwf.fresh
  active := hwf.active
  calls := hwf.calls
  named sessionId cellId summary h := by
    simp only [ServiceState.record_log, List.mem_append, List.mem_singleton] at h
    rcases h with h | h
    · exact hwf.named sessionId cellId summary h
    · exact hnamed sessionId cellId summary h.symm

lemma WellFormed.releaseInitial {s : ServiceState V} (hwf : WellFormed s) (task : HostTask V)
    (result : Except ToolError (ExecRunResult V)) :
    WellFormed (releaseInitial s task result) := by
  refine hwf.of_eq (by simp) (by simp) (fun call => ?_) (by simp)
  rcases releaseInitial_calls s task result call with h | ⟨-, h⟩
  · rw [h]
    exact hwf.calls call
  · rw [h]
    trivial

/-- A host task moves on; what it agreed on with its cell still holds. -/
lemma WellFormed.setHost {s : ServiceState V} (hwf : WellFormed s) {host : HostId}
    {task task' : HostTask V} (htask : s.hosts host = some task)
    (hrevision : task.revision ≤ task'.revision)
    (hagrees : ∀ session cell, s.requireActiveCell host.sessionId host.cellId =
      .ok (session, cell) → Agrees cell task → Agrees cell task') :
    WellFormed (s.setHost host task') where
  fresh host' hseq := by
    have hnone := hwf.fresh host' hseq
    have hh : host' ≠ host := by
      rintro rfl
      simp [hnone] at htask
    simpa [Function.update_of_ne hh] using hnone
  active sessionId session cell hsession hcell := by
    obtain ⟨host', task₀, hhandle, hs, hc, htask₀, hagrees₀⟩ :=
      hwf.active _ _ _ hsession hcell
    by_cases hh : host' = host
    · subst hh
      obtain rfl : task = task₀ := Option.some.inj (htask.symm.trans htask₀)
      refine ⟨host', task', hhandle, hs, hc, by simp, hagrees session cell ?_ hagrees₀⟩
      subst hs
      exact ServiceState.requireActiveCell_eq_ok.mpr ⟨hsession, hcell, hc.symm⟩
    · exact ⟨host', task₀, hhandle, hs, hc, by simpa [Function.update_of_ne hh] using htask₀,
        hagrees₀⟩
  calls call := (hwf.calls call).setHost htask hrevision
  named := hwf.named

/-- A host rewrites its own cell and moves on. -/
lemma WellFormed.setCell {s : ServiceState V} (hwf : WellFormed s)
    (session' : SessionState V) {host : HostId} {session : SessionState V} {cell cell' : ActiveCellHandle V}
    {task task' : HostTask V}
    (hfound : s.requireActiveCell host.sessionId host.cellId = .ok (session, cell))
    (htask : s.hosts host = some task) (hrevision : task.revision ≤ task'.revision)
    (hseq : session'.nextCellSeq = session.nextCellSeq)
    (hhandle : session'.hostHandle = session.hostHandle)
    (hcell : session'.activeCell = some cell') (hid : cell'.cellId = cell.cellId)
    (hagrees : Agrees cell' task') :
    WellFormed ((s.setSession host.sessionId session').setHost host task') where
  fresh host' hle := by
    obtain ⟨hsession, -, -⟩ := ServiceState.requireActiveCell_eq_ok.mp hfound
    have hnext := nextSeq_setSession s
      (Nat.le_of_eq ((nextSeq_of_session hsession).trans hseq.symm)) host'.sessionId
    have hnone : s.hosts host' = none := hwf.fresh host' (Nat.le_trans hnext hle)
    have hh : host' ≠ host := by
      rintro rfl
      simp [hnone] at htask
    simpa [Function.update_of_ne hh] using hnone
  active sessionId session₀ cell₀ hsession₀ hcell₀ := by
    obtain ⟨hsession, hcellOld, hidOld⟩ := ServiceState.requireActiveCell_eq_ok.mp hfound
    by_cases hs : sessionId = host.sessionId
    · subst hs
      simp only [ServiceState.setHost_sessions, ServiceState.setSession_sessions,
        Function.update_self, Option.some.injEq] at hsession₀
      subst hsession₀
      obtain rfl : cell' = cell₀ := Option.some.inj (hcell.symm.trans hcell₀)
      exact ⟨host, task', by rw [hhandle, (hwf.task_of_active hfound).1], rfl,
        by rw [hid, hidOld], by simp, hagrees⟩
    · simp only [ServiceState.setHost_sessions, ServiceState.setSession_sessions,
        Function.update_of_ne hs] at hsession₀
      obtain ⟨host', task₀, hhandle₀, hs₀, hc₀, htask₀, hagrees₀⟩ :=
        hwf.active _ _ _ hsession₀ hcell₀
      have hh : host' ≠ host := by
        rintro rfl
        exact hs hs₀.symm
      exact ⟨host', task₀, hhandle₀, hs₀, hc₀,
        by simpa [Function.update_of_ne hh] using htask₀, hagrees₀⟩
  calls call := (hwf.calls call).setHost htask hrevision
  named sessionId cellId summary h := by
    obtain ⟨hsession, -, -⟩ := ServiceState.requireActiveCell_eq_ok.mp hfound
    have hnext := nextSeq_setSession s
      (Nat.le_of_eq ((nextSeq_of_session hsession).trans hseq.symm)) sessionId
    obtain ⟨n, hn, hname⟩ := hwf.named sessionId cellId summary h
    exact ⟨n, Nat.lt_of_lt_of_le hn hnext, hname⟩

/-- A session loses its cell. -/
lemma WellFormed.clearCell {s : ServiceState V} (hwf : WellFormed s) {sessionId : String}
    {session : SessionState V} (session' : SessionState V)
    (hsession : s.sessions sessionId = some session) (hseq : session'.nextCellSeq = session.nextCellSeq) (hcell : session'.activeCell = none) :
    WellFormed (s.setSession sessionId session') where
  fresh host hle := by
    have hnext := nextSeq_setSession s
      (Nat.le_of_eq ((nextSeq_of_session hsession).trans hseq.symm)) host.sessionId
    exact hwf.fresh host (Nat.le_trans hnext hle)
  active sessionId' session₀ cell₀ hsession₀ hcell₀ := by
    by_cases hs : sessionId' = sessionId
    · subst hs
      simp only [ServiceState.setSession_sessions, Function.update_self,
        Option.some.injEq] at hsession₀
      subst hsession₀
      simp [hcell] at hcell₀
    · simp only [ServiceState.setSession_sessions, Function.update_of_ne hs] at hsession₀
      exact hwf.active _ _ _ hsession₀ hcell₀
  calls := hwf.calls
  named sessionId' cellId summary h := by
    have hnext := nextSeq_setSession s
      (Nat.le_of_eq ((nextSeq_of_session hsession).trans hseq.symm)) sessionId'
    obtain ⟨n, hn, hname⟩ := hwf.named sessionId' cellId summary h
    exact ⟨n, Nat.lt_of_lt_of_le hn hnext, hname⟩

/-! ## The race window -/

/-- The cell of the session is terminal and its host still holds the terminal summary. -/
def InPublicationGap (s : ServiceState V) (sessionId cellId : String) : Prop :=
  ∃ host task summary kind, host.sessionId = sessionId ∧ host.cellId = cellId ∧
    s.hosts host = some task ∧ task.pc = .publishing summary kind ∧
      (kind = .terminal ∨ kind = .hostError) ∧
        ∃ found, s.requireActiveCell sessionId cellId = .ok found

/-- A `wait` that was woken by an earlier publication reads its cell in the publication
gap. -/
def RacyRead (s : ServiceState V) : ServiceLabel V → Prop
  | .readCellSummary call =>
    ∃ sessionId cellId, s.calls call = .reading sessionId cellId true ∧
      InPublicationGap s sessionId cellId
  | _ => False

/-! ## Each transition is a move of the book -/

/-- Calls that have returned stay as they are, and a new delivery is some call's result. -/
structure KeepsReturned (s s' : ServiceState V) : Prop where
  keep : ∀ call result, s.calls call = .returned result → s'.calls call = .returned result
  delivered : ∀ sessionId cellId summary, .delivered sessionId cellId summary ∈ s'.log →
    .delivered sessionId cellId summary ∈ s.log ∨
      ∃ call, s'.calls call = .returned (.ok summary)

/-- What a transition has to satisfy: well-formedness is kept, the book makes a move that
hands out `ok` results, and a delivery is the result of a call. -/
structure StepSpec (ok : ExecRunResult V → ExecRunResult V → Prop) (s s' : ServiceState V) :
    Prop where
  wellFormed : WellFormed s'
  move : Ledger.Move ok s.book s'.book
  returned : KeepsReturned s s'

section Calls

variable {ok : ExecRunResult V → ExecRunResult V → Prop} {s s' : ServiceState V}

lemma move_update {sessionId : String} {session : SessionState V} {entries : List (Outcome V)}
    (hsessions : s'.sessions = Function.update s.sessions sessionId (some session))
    (hlog : s'.log = s.log ++ entries)
    (hmove : Ledger.Move ok s.book
      (s.book.update sessionId (slotOf session.activeCell) entries)) :
    Ledger.Move ok s.book s'.book := by
  rw [book_update hsessions hlog]
  exact hmove

lemma move_of_slot {sessionId : String} {session : SessionState V}
    (hsessions : s'.sessions = Function.update s.sessions sessionId (some session))
    (hslot : slotOf session.activeCell = s.slots sessionId) (hlog : s'.log = s.log) :
    Ledger.Move ok s.book s'.book := by
  rw [book_eq_of_slot hsessions hslot hlog]
  exact .quiet

/-- Entries other than deliveries do not concern the calls. -/
lemma KeepsReturned.of_log (entries : List (Outcome V)) (hlog : s'.log = s.log ++ entries)
    (hentries : ∀ sessionId cellId summary, .delivered sessionId cellId summary ∉ entries)
    (hkeep : ∀ call result, s.calls call = .returned result →
      s'.calls call = .returned result) : KeepsReturned s s' where
  keep := hkeep
  delivered sessionId cellId summary h := by
    rw [hlog, List.mem_append] at h
    exact .inl (h.resolve_right (hentries sessionId cellId summary))

/-- A call that has not returned yet may change. -/
lemma keep_setCall {call : CallId} {state : Call V}
    (hopen : ∀ result, s.calls call ≠ .returned result) (call' : CallId)
    (result : Except ToolError (ExecRunResult V)) (h : s.calls call' = .returned result) :
    (s.setCall call state).calls call' = .returned result := by
  have hne : call' ≠ call := by
    rintro rfl
    exact hopen result h
  simpa [Function.update_of_ne hne] using h

lemma keep_releaseInitial (task : HostTask V) (result : Except ToolError (ExecRunResult V))
    (call : CallId) (result' : Except ToolError (ExecRunResult V))
    (h : s.calls call = .returned result') :
    (releaseInitial s task result).calls call = .returned result' := by
  rcases releaseInitial_calls s task result call with heq | ⟨⟨host, hexec⟩, -⟩
  · exact heq.trans h
  · simp [h] at hexec

/-- A transition that leaves sessions and log alone is quiet. -/
lemma StepSpec.quiet (hwf : WellFormed s') (hsessions : s'.sessions = s.sessions)
    (hlog : s'.log = s.log)
    (hkeep : ∀ call result, s.calls call = .returned result →
      s'.calls call = .returned result) : StepSpec ok s s' where
  wellFormed := hwf
  move := by
    rw [book_eq hsessions hlog]
    exact .quiet
  returned := .of_log [] (by simpa using hlog) (by simp) hkeep

lemma StepSpec.setCall (hwf : WellFormed s) {call : CallId}
    (hopen : ∀ result, s.calls call ≠ .returned result) {state : Call V}
    (hstate : CallOk s.hosts state) : StepSpec ok s (s.setCall call state) :=
  .quiet (hwf.setCall call hstate) rfl rfl (keep_setCall hopen)

lemma agrees_new (host : HostId) (task : HostTask V) (notice : Option String)
    (hrevision : task.revision = 0) (hpc : task.pc = .polling) :
    Agrees (.new host.cellId notice) task where
  published h := by omega
  live _ := by simp [ActiveCellHandle.new, hpc]
  terminal h := by simp [ActiveCellHandle.new, ActiveCellHandle.isTerminal,
    CellPhase.isTerminal] at h

/-- A fresh cell and its host enter the session. -/
lemma WellFormed.startCell (hwf : WellFormed s) (host : HostId) {session : SessionState V}
    {task : HostTask V} {cell : ActiveCellHandle V}
    (hseq : host.seq = s.nextSeq host.sessionId)
    (hnext : session.nextCellSeq = host.seq + 1) (hhandle : session.hostHandle = some host)
    (hcell : session.activeCell = some cell) (hid : cell.cellId = host.cellId)
    (hagrees : Agrees cell task) :
    WellFormed ((s.setSession host.sessionId session).setHost host task) where
  fresh host' hle := by
    have hle' : (s.setSession host.sessionId session).nextSeq host'.sessionId ≤ host'.seq := hle
    have hmono := nextSeq_setSession s
      (show s.nextSeq host.sessionId ≤ session.nextCellSeq by omega) host'.sessionId
    have hnone : s.hosts host' = none := hwf.fresh host' (Nat.le_trans hmono hle')
    have hh : host' ≠ host := by
      rintro rfl
      have hself : (s.setSession host'.sessionId session).nextSeq host'.sessionId =
          session.nextCellSeq := by simp [ServiceState.nextSeq]
      omega
    simpa [Function.update_of_ne hh] using hnone
  active sessionId session₀ cell₀ hsession₀ hcell₀ := by
    by_cases hs : sessionId = host.sessionId
    · subst hs
      simp only [ServiceState.setHost_sessions, ServiceState.setSession_sessions,
        Function.update_self, Option.some.injEq] at hsession₀
      subst hsession₀
      obtain rfl : cell = cell₀ := Option.some.inj (hcell.symm.trans hcell₀)
      exact ⟨host, task, hhandle, rfl, hid.symm, by simp, hagrees⟩
    · simp only [ServiceState.setHost_sessions, ServiceState.setSession_sessions,
        Function.update_of_ne hs] at hsession₀
      obtain ⟨host', task₀, hhandle₀, hs₀, hc₀, htask₀, hagrees₀⟩ :=
        hwf.active _ _ _ hsession₀ hcell₀
      have hh : host' ≠ host := by
        rintro rfl
        exact hs hs₀.symm
      exact ⟨host', task₀, hhandle₀, hs₀, hc₀,
        by simpa [Function.update_of_ne hh] using htask₀, hagrees₀⟩
  calls call := by
    -- the host name was free, so no call refers to it yet
    have hnone : s.hosts host = none := hwf.fresh host (Nat.le_of_eq hseq.symm)
    have hcall := hwf.calls call
    simp only [ServiceState.setHost_calls, ServiceState.setSession_calls,
      ServiceState.setHost_hosts, ServiceState.setSession_hosts]
    cases hc : s.calls call with
    | waiting host' cellId revision timed =>
      rw [hc] at hcall
      obtain ⟨hcid, task₀, htask₀, hle⟩ := hcall
      refine ⟨hcid, task₀, ?_, hle⟩
      rw [Function.update_of_ne, htask₀]
      rintro rfl
      simp [hnone] at htask₀
    | reading sessionId cellId preferPublication =>
      rw [hc] at hcall
      cases preferPublication with
      | false => trivial
      | true =>
        obtain ⟨host', task₀, hs, hcid, htask₀, hpos⟩ := hcall
        refine ⟨host', task₀, hs, hcid, ?_, hpos⟩
        rw [Function.update_of_ne, htask₀]
        rintro rfl
        simp [hnone] at htask₀
    | _ => trivial
  named sessionId cellId summary h := by
    have hmono := nextSeq_setSession s
      (show s.nextSeq host.sessionId ≤ session.nextCellSeq by omega) sessionId
    obtain ⟨n, hn, hname⟩ := hwf.named sessionId cellId summary h
    exact ⟨n, Nat.lt_of_lt_of_le hn hmono, hname⟩

lemma getD_nextCellSeq (s : ServiceState V) (sessionId : String) :
    ((s.sessions sessionId).getD {}).nextCellSeq = s.nextSeq sessionId := by
  unfold ServiceState.nextSeq
  cases s.sessions sessionId <;> rfl

/-- The name of the next cell has not finished yet. -/
lemma WellFormed.name_fresh (hwf : WellFormed s) (sessionId : String)
    (summary : ExecRunResult V) :
    .finished sessionId (cellName ((s.sessions sessionId).getD {}).nextCellSeq) summary ∉
      s.log := by
  intro h
  obtain ⟨n, hn, hname⟩ := hwf.named _ _ _ h
  rw [getD_nextCellSeq] at hname
  have := cellName_injective hname
  omega

lemma startCell_wellFormed (hwf : WellFormed s) (call : CallId) (sessionId : String)
    (options : ExecuteOptions) :
    WellFormed (startCell s call sessionId ((s.sessions sessionId).getD {}) options) := by
  have hseq := getD_nextCellSeq s sessionId
  refine WellFormed.setCall ?_ call trivial
  exact hwf.startCell ⟨sessionId, _⟩ hseq rfl rfl rfl rfl
    (agrees_new _ _ _ rfl rfl)

lemma slots_eq_getD (s : ServiceState V) (sessionId : String) :
    s.slots sessionId = slotOf ((s.sessions sessionId).getD {}).activeCell := by
  unfold ServiceState.slots
  cases s.sessions sessionId <;> rfl

lemma execute_spec (hwf : WellFormed s) {call : CallId} {sessionId : String}
    {options : ExecuteOptions} (h : execute s call sessionId options = some s') :
    StepSpec ok s s' := by
  unfold execute at h
  split at h
  case h_2 => cases h
  case h_1 hunused =>
  have hopen : ∀ result, s.calls call ≠ .returned result := by simp [hunused]
  have hslot := slots_eq_getD s sessionId
  simp only at h
  split at h
  · rename_i cell hcell
    rw [hcell] at hslot
    split at h
    · rename_i hterminal
      cases h
      refine ⟨startCell_wellFormed (hwf.record (by simp)) call sessionId options,
        move_update rfl rfl ?_,
        .of_log _ rfl (by simp) (keep_setCall hopen)⟩
      exact .replace (hslot.trans (slotOf_done hterminal)) (hwf.name_fresh sessionId)
    · cases h
      exact .setCall hwf hopen trivial
  · rename_i hcell
    rw [hcell] at hslot
    cases h
    refine ⟨startCell_wellFormed hwf call sessionId options,
      move_update rfl (List.append_nil _).symm ?_,
      .of_log _ (List.append_nil _).symm (by simp) (keep_setCall hopen)⟩
    exact .start hslot (hwf.name_fresh sessionId)

lemma WellFormed.requestCancel (hwf : WellFormed s) (host : HostId) (reason : String) :
    WellFormed (requestCancel s host reason) := by
  unfold CodeMode.requestCancel
  split
  · rename_i task htask
    refine hwf.setHost htask (Nat.le_refl _) fun session cell hfound hagrees => ?_
    exact ⟨hagrees.published, hagrees.live, hagrees.terminal⟩
  · exact hwf

lemma requestCancel_frame (host : HostId) (reason : String) :
    (requestCancel s host reason).book = s.book ∧
      (requestCancel s host reason).calls = s.calls := by
  unfold requestCancel
  split
  · exact ⟨book_eq rfl rfl, rfl⟩
  · exact ⟨rfl, rfl⟩

lemma removeActiveCell_spec (hwf : WellFormed s) {sessionId : String}
    {session : SessionState V} (hsession : s.sessions sessionId = some session) :
    StepSpec ok s (removeActiveCell s sessionId session) ∧
      (removeActiveCell s sessionId session).calls = s.calls := by
  have hclear := hwf.clearCell { session with activeCell := none, hostHandle := none }
    hsession rfl rfl
  unfold removeActiveCell
  cases hcell : session.activeCell with
  | none =>
    refine ⟨⟨hclear, move_of_slot rfl ?_ rfl,
      .of_log _ (List.append_nil _).symm (by simp) fun _ _ h => h⟩, rfl⟩
    simp [ServiceState.slots, hsession, hcell]
  | some cell =>
    refine ⟨⟨hclear.record (by simp), move_update rfl rfl ?_,
      .of_log _ rfl (by simp) fun _ _ h => h⟩, rfl⟩
    have hslot := slots_of_active hsession hcell
    cases hterminal : cell.isTerminal with
    | true => exact .abortDone (hslot.trans (slotOf_done hterminal))
    | false => exact .abortLive (hslot.trans (slotOf_live hterminal))

lemma abortActiveCell_spec (hwf : WellFormed s) (sessionId reason : String) :
    StepSpec ok s (abortActiveCell s sessionId reason) ∧
      (abortActiveCell s sessionId reason).calls = s.calls := by
  unfold abortActiveCell
  split
  · exact ⟨.quiet hwf rfl rfl fun _ _ h => h, rfl⟩
  · rename_i session hsession
    obtain ⟨hspec, hcalls⟩ := removeActiveCell_spec hwf hsession
    split
    · rename_i host _
      obtain ⟨hbook, hsame⟩ :=
        requestCancel_frame (s := removeActiveCell s sessionId session) host reason
      have hlog : (requestCancel (removeActiveCell s sessionId session) host reason).log =
          (removeActiveCell s sessionId session).log := congrArg Ledger.Book.log hbook
      refine ⟨⟨hspec.wellFormed.requestCancel _ _, by rw [hbook]; exact hspec.move, ?_⟩,
        hsame.trans hcalls⟩
      refine ⟨by rw [hsame]; exact hspec.returned.keep, fun _ _ _ h => ?_⟩
      rw [hsame]
      exact hspec.returned.delivered _ _ _ (hlog ▸ h)
    · exact ⟨hspec, hcalls⟩

lemma executeFallback_spec (hwf : WellFormed s) {call : CallId}
    (h : executeFallback s call = some s') : StepSpec ok s s' := by
  unfold executeFallback at h
  split at h
  · split at h
    · split at h
      · rename_i host hexec _ task htask hinitial
        cases h
        obtain ⟨hspec, hcalls⟩ :=
          abortActiveCell_spec hwf host.sessionId hostExitedMessage
        have hopen : ∀ result, (abortActiveCell s host.sessionId hostExitedMessage).calls call ≠
            .returned result := by simp [hcalls, hexec]
        refine ⟨hspec.wellFormed.setCall call trivial, hspec.move,
          fun call' result h => keep_setCall hopen call' result (hspec.returned.keep _ _ h),
          fun sessionId cellId summary h => ?_⟩
        rcases hspec.returned.delivered _ _ _ h with hold | ⟨call', hcall'⟩
        · exact .inl hold
        · exact .inr ⟨call', keep_setCall hopen call' _ hcall'⟩
      · cases h
    · cases h
  · cases h

/-- A finished cell leaves its session with the summary that is returned. -/
lemma deliver_spec (hwf : WellFormed s) {sessionId : String} {session : SessionState V}
    {cell : ActiveCellHandle V} (hsession : s.sessions sessionId = some session)
    (hcell : session.activeCell = some cell) (hterminal : cell.isTerminal = true)
    {call : CallId} (hopen : ∀ result, s.calls call ≠ .returned result)
    {summary : ExecRunResult V} (hok : ok cell.summary summary) :
    StepSpec ok s (((s.setCall call (.returned (.ok summary))).setSession sessionId
      { session with activeCell := none, hostHandle := none }).record
        (.delivered sessionId cell.cellId summary)) := by
  have hcall := hwf.setCall call (show CallOk s.hosts (.returned (.ok summary)) from trivial)
  refine ⟨(hcall.clearCell { session with activeCell := none, hostHandle := none }
      hsession rfl rfl).record (by simp),
    move_update rfl rfl ?_, keep_setCall hopen,
    fun sessionId' cellId' summary' h => ?_⟩
  rotate_left
  · simp only [ServiceState.record_log, ServiceState.setSession_log, ServiceState.setCall_log,
      List.mem_append, List.mem_singleton] at h
    rcases h with h | h
    · exact .inl h
    · cases h
      exact .inr ⟨call, by simp⟩
  exact .deliver ((slots_of_active hsession hcell).trans (slotOf_done hterminal)) hok

lemma waitWithRequest_spec (hwf : WellFormed s) (hrefl : ∀ summary, ok summary summary)
    {call : CallId} {sessionId : String} {requested : Option String} {timed : Bool}
    (h : waitWithRequest s call sessionId requested timed = some s') : StepSpec ok s s' := by
  unfold waitWithRequest at h
  split at h
  case h_2 => cases h
  case h_1 hunused =>
  have hopen : ∀ result, s.calls call ≠ .returned result := by simp [hunused]
  simp only at h
  split at h
  · cases h
    exact .setCall hwf hopen trivial
  · rename_i session hsession
    split at h
    · cases h
      exact .setCall hwf hopen trivial
    · rename_i cell hcell
      split_ifs at h with hrequested hterminal
      · cases h
        exact .setCall hwf hopen trivial
      · cases h
        exact deliver_spec hwf hsession hcell hterminal hopen (hrefl _)
      · split at h
        · cases h
          exact .setCall hwf hopen trivial
        · rename_i host hhandle
          split at h
          · rename_i task htask
            cases h
            obtain ⟨host', task', hhandle', hs, hid, htask', -⟩ :=
              hwf.active _ _ _ hsession hcell
            obtain rfl : host = host' := Option.some.inj (hhandle.symm.trans hhandle')
            exact .setCall hwf hopen ⟨hid.symm, task, htask, Nat.le_refl _⟩
          · cases h

lemma waitWake_spec (hwf : WellFormed s) {call : CallId} (h : waitWake s call = some s') :
    StepSpec ok s s' := by
  unfold waitWake at h
  split at h
  · rename_i host cellId revision timed hcall
    split at h
    · rename_i task htask
      split_ifs at h with hrevision
      cases h
      have hok := hwf.calls call
      rw [hcall] at hok
      obtain ⟨rfl, task', htask', hle⟩ := hok
      obtain rfl : task = task' := Option.some.inj (htask.symm.trans htask')
      exact .setCall hwf (by simp [hcall]) ⟨host, task, rfl, rfl, htask, by omega⟩
    · cases h
  · cases h

lemma waitTimeout_spec (hwf : WellFormed s) {call : CallId} (h : waitTimeout s call = some s') :
    StepSpec ok s s' := by
  unfold waitTimeout at h
  split at h
  · rename_i hcall
    cases h
    exact .setCall hwf (by simp [hcall]) trivial
  · cases h

lemma dropCall_spec (hwf : WellFormed s) {call : CallId} (h : dropCall s call = some s') :
    StepSpec ok s s' := by
  unfold dropCall at h
  split at h
  case h_4 => cases h
  all_goals
    rename_i hcall
    cases h
    exact .setCall hwf (by simp [hcall]) trivial

/-- The summary a read of a finished cell returns: the terminal one, or in the publication
gap the last publication. -/
lemma read_terminal (hwf : WellFormed s) {call : CallId} {sessionId cellId : String}
    {preferPublication : Bool} {session : SessionState V} {cell : ActiveCellHandle V}
    (hcall : s.calls call = .reading sessionId cellId preferPublication)
    (hfound : s.requireActiveCell sessionId cellId = .ok (session, cell))
    (hterminal : cell.isTerminal = true) :
    cell.readSummary preferPublication = cell.summary ∧ ¬ RacyRead s (.readCellSummary call) ∨
      RacyRead s (.readCellSummary call) ∧
        (cell.readSummary preferPublication).lifecycle = .running := by
  cases preferPublication with
  | false =>
    refine .inl ⟨rfl, ?_⟩
    rintro ⟨_, _, hreading, -⟩
    simp [hcall] at hreading
  | true =>
    have hok := hwf.calls call
    rw [hcall] at hok
    obtain ⟨host, task, rfl, rfl, htask, hpos⟩ := hok
    obtain ⟨-, task', htask', hagrees⟩ := hwf.task_of_active hfound
    obtain rfl : task = task' := Option.some.inj (htask.symm.trans htask')
    obtain ⟨published, hpublished⟩ := Option.ne_none_iff_exists'.mp (hagrees.published hpos)
    have hread : cell.readSummary true = published := by
      simp [ActiveCellHandle.readSummary, hpublished]
    rw [hread]
    rcases hagrees.terminal hterminal with ⟨kind, hpc, hkind, hrunning⟩ | ⟨hpc, hlast⟩
    · exact .inr ⟨⟨_, _, hcall, host, task, _, kind, rfl, rfl, htask, hpc, hkind, _, hfound⟩,
        hrunning published hpublished⟩
    · rw [hpublished] at hlast
      refine .inl ⟨Option.some.inj hlast, ?_⟩
      rintro ⟨_, _, hreading, host₀, task₀, _, _, hs, hid, htask₀, hpc₀, -⟩
      rw [hcall] at hreading
      cases hreading
      obtain rfl : host₀ = host := HostId.ext_of_cellId hs hid
      obtain rfl : task = task₀ := Option.some.inj (htask.symm.trans htask₀)
      simp [hpc] at hpc₀

lemma readCellSummary_spec (hwf : WellFormed s) {call : CallId}
    (h : readCellSummary s call = some s') :
    StepSpec (fun result returned => result = returned ∨ RacyRead s (.readCellSummary call))
      s s' := by
  unfold readCellSummary at h
  split at h
  case h_2 => cases h
  case h_1 sessionId cellId preferPublication hcall =>
  have hopen : ∀ result, s.calls call ≠ .returned result := by simp [hcall]
  split at h
  · cases h
    exact .setCall hwf hopen trivial
  · rename_i session cell hfound
    obtain ⟨hsession, hcell, rfl⟩ := ServiceState.requireActiveCell_eq_ok.mp hfound
    simp only at h
    split_ifs at h with hterminal
    · cases h
      refine deliver_spec hwf hsession hcell hterminal hopen ?_
      rcases read_terminal hwf hcall hfound hterminal with ⟨hsummary, -⟩ | ⟨hracy, -⟩
      · exact .inl hsummary.symm
      · exact .inr hracy
    · cases h
      exact .setCall hwf hopen trivial

end Calls

section Hosts

variable {ok : ExecRunResult V → ExecRunResult V → Prop} {s s' : ServiceState V}

/-- The cell of a host that polls its driver is live. -/
lemma Agrees.live_of_polling {cell : ActiveCellHandle V} {task : HostTask V}
    (h : Agrees cell task) (hpc : task.pc = .polling) : cell.isTerminal = false := by
  cases hterminal : cell.isTerminal with
  | false => rfl
  | true =>
    rcases h.terminal hterminal with ⟨kind, hpublishing, -⟩ | ⟨hexited, -⟩
    · simp [hpc] at hpublishing
    · simp [hpc] at hexited

lemma requireActiveCell_congr (hsessions : s'.sessions = s.sessions) (sessionId cellId : String) :
    s'.requireActiveCell sessionId cellId = s.requireActiveCell sessionId cellId := by
  simp only [ServiceState.requireActiveCell, hsessions]

/-- A host whose cell is gone may do with itself what it likes. -/
lemma hostGone_spec (task' : HostTask V) (hwf : WellFormed s) {host : HostId}
    {task released : HostTask V} {err : ToolError} (htask : s.hosts host = some task)
    (hgone : s.requireActiveCell host.sessionId host.cellId = .error err)
    (hrevision : task.revision ≤ task'.revision)
    (result : Except ToolError (ExecRunResult V)) :
    StepSpec ok s ((releaseInitial s released result).setHost host task') := by
  refine .quiet ((hwf.releaseInitial released result).setHost (by simpa using htask) hrevision
    fun session cell hfound => ?_) (by simp) (by simp) (keep_releaseInitial released result)
  rw [requireActiveCell_congr (releaseInitial_sessions s released result), hgone] at hfound
  cases hfound

lemma failAndExit_spec (hwf : WellFormed s) {host : HostId} {task task' : HostTask V}
    {err err' : ToolError} (htask : s.hosts host = some task)
    (hgone : s.requireActiveCell host.sessionId host.cellId = .error err)
    (hrevision : task.revision ≤ task'.revision) :
    StepSpec ok s (failAndExit s host task' err') :=
  hostGone_spec { task' with initial := none, pc := .exited } hwf htask hgone
    hrevision _

/-- A polling host records a new phase in its cell. -/
lemma recordCell_spec (hwf : WellFormed s) {host : HostId} {session session' : SessionState V}
    {cell cell' : ActiveCellHandle V} {task task' : HostTask V}
    (hfound : s.requireActiveCell host.sessionId host.cellId = .ok (session, cell))
    (htask : s.hosts host = some task) (hrevision : task.revision ≤ task'.revision)
    (hseq : session'.nextCellSeq = session.nextCellSeq)
    (hhandle : session'.hostHandle = session.hostHandle)
    (hcell : session'.activeCell = some cell') (hid : cell'.cellId = cell.cellId)
    (hlive : cell.isTerminal = false) (hagrees : Agrees cell' task') :
    StepSpec ok s ((recordFinished (s.setSession host.sessionId session') host.sessionId
      cell').setHost host task') := by
  have hwf' := hwf.setCell _ hfound htask hrevision hseq hhandle hcell hid hagrees
  obtain ⟨hsession, hactive, hname⟩ := ServiceState.requireActiveCell_eq_ok.mp hfound
  have hslot : s.slots host.sessionId = .live cell.cellId :=
    (slots_of_active hsession hactive).trans (slotOf_live hlive)
  unfold recordFinished
  split_ifs with hterminal
  · refine ⟨hwf'.record ?_, move_update rfl rfl ?_,
      .of_log _ rfl (by simp) fun _ _ h => h⟩
    · rintro _ _ _ ⟨⟩
      -- the host of the cell exists, so its number was given out
      refine ⟨host.seq, Nat.lt_of_not_le fun hle => ?_, hid.trans hname⟩
      simpa using hwf'.fresh host hle
    rw [hcell, slotOf_done hterminal]
    exact .finish (by rw [hid]; exact hslot)
  · refine ⟨hwf', move_of_slot rfl ?_ rfl,
      .of_log _ (List.append_nil _).symm (by simp) fun _ _ h => h⟩
    rw [hcell, hslot, slotOf_live (by simpa using hterminal), hid]

/-- A cell whose phase just became terminal agrees with the host that holds its summary. -/
lemma agrees_finishing {cell cell' : ActiveCellHandle V} {task task' : HostTask V}
    {kind : PublicationKind} (hagrees : Agrees cell task) (hlive : cell.isTerminal = false)
    (hlast : cell'.lastPublication = cell.lastPublication)
    (hrevision : task'.revision = task.revision) (hterminal : cell'.isTerminal = true)
    (hpc : task'.pc = .publishing cell'.summary kind)
    (hkind : kind = .terminal ∨ kind = .hostError) : Agrees cell' task' where
  published := by
    rw [hlast, hrevision]
    exact hagrees.published
  live h := by simp [hterminal] at h
  terminal _ := by
    refine .inl ⟨kind, hpc, hkind, ?_⟩
    rw [hlast]
    exact (hagrees.live hlive).1

lemma hostError_spec (hwf : WellFormed s) {host : HostId} {task task' : HostTask V}
    {err : ToolError} (htask : s.hosts host = some task) (hpc : task.pc = .polling)
    (hrevision : task'.revision = task.revision) :
    StepSpec ok s (hostError s host task' err) := by
  unfold hostError
  split
  · rename_i hgone
    exact failAndExit_spec hwf htask hgone (Nat.le_of_eq hrevision.symm)
  · rename_i session cell hfound
    obtain ⟨-, task₀, htask₀, hagrees⟩ := hwf.task_of_active hfound
    obtain rfl : task = task₀ := Option.some.inj (htask.symm.trans htask₀)
    have hlive := hagrees.live_of_polling hpc
    exact recordCell_spec hwf hfound htask (Nat.le_of_eq hrevision.symm) rfl rfl rfl rfl hlive
      (agrees_finishing hagrees hlive rfl hrevision rfl rfl (.inr rfl))

/-- The next position of a host after an update agrees with the phase the update left. -/
lemma followUp_ok {cell : ActiveCellHandle V} {status : CellStatus V}
    {flushValue : Option (Option V)} {tracker tracker' : PublicationTracker} {elapsed : Bool}
    {pc : HostPc V}
    (hterminal : cell.isTerminal = true ↔ ∃ result, status = .terminal result)
    (h : followUp cell.snapshot status flushValue tracker elapsed = .ok (tracker', pc)) :
    (cell.isTerminal = true → pc = .publishing cell.summary .terminal) ∧
      (cell.isTerminal = false → ∀ summary kind, pc = .publishing summary kind →
        summary.lifecycle = .running ∧ (kind = .progress ∨ kind = .pendingTool)) := by
  have hrunning : cell.isTerminal = false → cell.snapshot.phase.lifecycle = .running :=
    (CellPhase.lifecycle_eq_running_iff cell.phase).mpr
  cases status with
  | terminal result =>
    cases h
    refine ⟨fun _ => rfl, fun hlive => ?_⟩
    simp [hterminal.mpr ⟨result, rfl⟩] at hlive
  | progress =>
    have hlive : cell.isTerminal = false := by simpa using hterminal
    refine ⟨fun ht => by simp [hlive] at ht, fun _ summary kind hpc => ?_⟩
    simp only [followUp] at h
    cases flushValue with
    | some value =>
      cases h
      cases hpc
      exact ⟨hrunning hlive, .inl rfl⟩
    | none =>
      simp only at h
      split_ifs at h
      · cases h
        cases hpc
        exact ⟨hrunning hlive, .inl rfl⟩
      · cases h
        cases hpc
  | pendingTool =>
    have hlive : cell.isTerminal = false := by simpa using hterminal
    refine ⟨fun ht => by simp [hlive] at ht, fun _ summary kind hpc => ?_⟩
    unfold followUp at h
    simp only at h
    split_ifs at h
    cases h
    cases hpc
    exact ⟨hrunning hlive, .inr rfl⟩
  | idle =>
    have hlive : cell.isTerminal = false := by simpa using hterminal
    refine ⟨fun ht => by simp [hlive] at ht, fun _ summary kind hpc => ?_⟩
    cases h
    cases hpc

lemma followUp_ne_error {cell : ActiveCellHandle V} {status : CellStatus V}
    {flushValue : Option (Option V)} {tracker : PublicationTracker} {elapsed : Bool}
    {err : ToolError} (hterminal : cell.isTerminal = true ↔ ∃ result, status = .terminal result) :
    followUp cell.snapshot status flushValue tracker elapsed ≠ .error err := by
  cases status with
  | pendingTool =>
    have hlive : cell.isTerminal = false := by simpa using hterminal
    have hrunning : cell.snapshot.lifecycle = .running :=
      (CellPhase.lifecycle_eq_running_iff cell.phase).mpr hlive
    simp [followUp, hrunning]
  | progress => cases flushValue <;> simp only [followUp] <;> grind
  | _ => simp [followUp]

lemma hostUpdate_spec (hwf : WellFormed s) {host : HostId} {elapsed : Bool}
    (h : hostUpdate s host elapsed = some s') : StepSpec ok s s' := by
  unfold hostUpdate at h
  split at h
  case h_1 => cases h
  case h_2 task htask =>
  split at h
  · rename_i update channel hpc hupdate
    simp only at h
    split at h
    · rename_i hgone
      cases h
      exact failAndExit_spec hwf htask hgone (Nat.le_refl _)
    · rename_i session cell hfound
      obtain ⟨-, task₀, htask₀, hagrees⟩ := hwf.task_of_active hfound
      obtain rfl : task = task₀ := Option.some.inj (htask.symm.trans htask₀)
      have hlive := hagrees.live_of_polling hpc
      have hterminal := ActiveCellHandle.recordDriverUpdate_isTerminal hlive update
      split at h
      · rename_i hfollow
        exact absurd hfollow (followUp_ne_error hterminal)
      · rename_i tracker pc hfollow
        cases h
        have hnext := followUp_ok hterminal hfollow
        refine recordCell_spec hwf hfound htask (Nat.le_refl _) rfl rfl rfl (by simp) hlive ?_
        cases hdone : (cell.recordDriverUpdate update).isTerminal with
        | true =>
          exact agrees_finishing hagrees hlive (by simp) rfl hdone (hnext.1 hdone) (.inl rfl)
        | false =>
          refine ⟨by simpa using hagrees.published, fun _ => ⟨?_, hnext.2 hdone⟩, fun ht => ?_⟩
          · simpa using (hagrees.live hlive).1
          · simp [hdone] at ht
  · rename_i err channel hpc _
    cases h
    exact hostError_spec hwf htask hpc rfl
  · cases h

/-- Steps of a polling host that touch nothing but its own task. -/
lemma setHost_spec (hwf : WellFormed s) {host : HostId} {task task' : HostTask V}
    (htask : s.hosts host = some task) (hrevision : task'.revision = task.revision)
    (hagrees : ∀ session cell, s.requireActiveCell host.sessionId host.cellId =
      .ok (session, cell) → Agrees cell task → Agrees cell task') :
    StepSpec ok s (s.setHost host task') :=
  .quiet (hwf.setHost htask (Nat.le_of_eq hrevision.symm) hagrees) rfl rfl fun _ _ h => h

lemma hostIdle_spec (hwf : WellFormed s) {host : HostId} {received : Nat} {elapsed : Bool}
    (h : hostIdle s host received elapsed = some s') : StepSpec ok s s' := by
  unfold hostIdle at h
  split at h
  case h_1 => cases h
  case h_2 task htask =>
  split at h
  · rename_i hpc _
    simp only at h
    split_ifs at h
    · split at h
      · rename_i hgone
        cases h
        exact failAndExit_spec hwf htask hgone (Nat.le_refl _)
      · rename_i session cell hfound
        cases h
        refine setHost_spec hwf htask rfl fun session' cell' hfound' hagrees => ?_
        obtain ⟨rfl, rfl⟩ : session = session' ∧ cell = cell' := by
          simpa using hfound.symm.trans hfound'
        have hlive := hagrees.live_of_polling hpc
        refine ⟨hagrees.published, fun _ => ⟨(hagrees.live hlive).1, ?_⟩, fun ht => ?_⟩
        · rintro summary kind hpublishing
          cases hpublishing
          exact ⟨(CellPhase.lifecycle_eq_running_iff cell.phase).mpr hlive, .inl rfl⟩
        · simp [hlive] at ht
    · cases h
      refine setHost_spec hwf htask rfl fun session cell _ hagrees => ?_
      exact ⟨hagrees.published, hagrees.live, hagrees.terminal⟩
  · cases h

lemma hostChannelClosed_spec (hwf : WellFormed s) {host : HostId}
    (h : hostChannelClosed s host = some s') : StepSpec ok s s' := by
  unfold hostChannelClosed at h
  split at h
  case h_1 => cases h
  case h_2 task htask =>
  split at h
  · rename_i hpc _
    cases h
    exact hostError_spec hwf htask hpc rfl
  · cases h

lemma hostDeadline_spec (hwf : WellFormed s) {host : HostId}
    (h : hostDeadline s host = some s') : StepSpec ok s s' := by
  unfold hostDeadline at h
  split at h
  case h_1 => cases h
  case h_2 task htask =>
  split at h
  · rename_i hpc
    simp only at h
    split at h
    · rename_i hgone
      cases h
      exact failAndExit_spec hwf htask hgone (Nat.le_refl _)
    · rename_i session cell hfound
      cases h
      obtain ⟨-, task₀, htask₀, hagrees⟩ := hwf.task_of_active hfound
      obtain rfl : task = task₀ := Option.some.inj (htask.symm.trans htask₀)
      have hlive := hagrees.live_of_polling hpc
      exact recordCell_spec hwf hfound htask (Nat.le_refl _) rfl rfl rfl rfl hlive
        (agrees_finishing hagrees hlive rfl rfl rfl rfl (.inl rfl))
  · cases h

/-- Publishing makes the last publication what the host held, and ends its task exactly when
the summary is the terminal one. -/
lemma agrees_publish {cell : ActiveCellHandle V} {task task' : HostTask V}
    {summary : ExecRunResult V} {kind : PublicationKind} (hagrees : Agrees cell task)
    (hpc : task.pc = .publishing summary kind)
    (hnext : task'.pc = if kind = .terminal ∨ kind = .hostError then .exited else .polling) :
    Agrees (cell.publish summary) task' where
  published _ := by simp [ActiveCellHandle.publish]
  live hlive := by
    obtain ⟨hrunning, hkind⟩ := (hagrees.live hlive).2 summary kind hpc
    refine ⟨?_, ?_⟩
    · intro published hpublished
      cases hpublished
      exact hrunning
    · rintro summary' kind' hpublishing
      rcases hkind with rfl | rfl <;> simp [hnext] at hpublishing
  terminal hterminal := by
    rcases hagrees.terminal hterminal with ⟨kind', hpc', hkind, -⟩ | ⟨hexited, -⟩
    · rw [hpc] at hpc'
      cases hpc'
      exact .inr ⟨by rw [hnext, if_pos hkind], rfl⟩
    · simp [hpc] at hexited

/-- A host publishes its summary and moves on; the initial call may be released with it. -/
lemma publish_spec (task' : HostTask V) (hwf : WellFormed s) {host : HostId}
    {session : SessionState V} {cell : ActiveCellHandle V} {task : HostTask V} {summary : ExecRunResult V}
    {kind : PublicationKind}
    (hfound : s.requireActiveCell host.sessionId host.cellId = .ok (session, cell))
    (htask : s.hosts host = some task) (hagrees : Agrees cell task)
    (hpc : task.pc = .publishing summary kind) (hrevision : task.revision ≤ task'.revision)
    (hnext : task'.pc = if kind = .terminal ∨ kind = .hostError then .exited else .polling)
    (hsessions : s'.sessions = Function.update s.sessions host.sessionId
      (some { session with activeCell := some (cell.publish summary) }))
    (hhosts : s'.hosts = Function.update s.hosts host (some task')) (hlog : s'.log = s.log)
    (hcalls : ∀ call, s'.calls call = s.calls call ∨ (∃ host, s.calls call = .executing host) ∧
      ∃ result, s'.calls call = .returned result) : StepSpec ok s s' := by
  obtain ⟨hsession, hactive, -⟩ := ServiceState.requireActiveCell_eq_ok.mp hfound
  have hwf' := hwf.setCell { session with activeCell := some (cell.publish summary) } hfound htask hrevision rfl rfl rfl rfl
    (agrees_publish hagrees hpc hnext)
  refine ⟨hwf'.of_eq hsessions hhosts (fun call => ?_) hlog, move_of_slot hsessions ?_ hlog,
    .of_log [] (by simpa using hlog) (by simp) fun call result h => ?_⟩
  rotate_right
  · rcases hcalls call with hcall | ⟨⟨_, hexec⟩, -⟩
    · exact hcall.trans h
    · simp [h] at hexec
  · rcases hcalls call with hcall | ⟨-, result, hcall⟩
    · rw [hcall]
      exact hwf'.calls call
    · rw [hcall]
      trivial
  · rw [slots_of_active hsession hactive]
    rfl

lemma hostPublish_spec (hwf : WellFormed s) {host : HostId}
    (h : hostPublish s host = some s') : StepSpec ok s s' := by
  unfold hostPublish at h
  split at h
  case h_1 => cases h
  case h_2 task htask =>
  split at h
  · rename_i summary kind hpc
    split at h
    · rename_i hgone
      split at h
      · cases h
        exact hostGone_spec { task with initial := none, pc := .exited } hwf htask
          hgone (Nat.le_refl _) _
      · cases h
        exact failAndExit_spec hwf htask hgone (Nat.le_refl _)
    · rename_i session cell hfound
      obtain ⟨-, task₀, htask₀, hagrees⟩ := hwf.task_of_active hfound
      obtain rfl : task = task₀ := Option.some.inj (htask.symm.trans htask₀)
      have hreleased : ∀ (s₀ : ServiceState V) (task₀ : HostTask V) result call,
          (releaseInitial s₀ task₀ result).calls call = s₀.calls call ∨
            (∃ host, s₀.calls call = .executing host) ∧
              ∃ result', (releaseInitial s₀ task₀ result).calls call = .returned result' :=
        fun s₀ task₀ result call =>
          (releaseInitial_calls s₀ task₀ result call).imp id fun ⟨hexec, h⟩ => ⟨hexec, result, h⟩
      simp only at h
      split at h
      · cases h
        exact publish_spec { task with revision := _, pc := .polling } hwf hfound
          htask hagrees hpc (Nat.le_succ _) rfl rfl rfl rfl fun call => .inl rfl
      · cases h
        exact publish_spec { task with revision := _, initial := none, pc := .polling }
          hwf hfound htask hagrees hpc (Nat.le_succ _) rfl (by simp) (by simp) (by simp)
          (hreleased _ _ _)
      all_goals
        cases h
        exact publish_spec { task with revision := _, initial := none, pc := .exited }
          hwf hfound htask hagrees hpc (Nat.le_succ _) rfl (by simp) (by simp) (by simp)
          (hreleased _ _ _)
  · cases h

lemma hostDies_spec (hwf : WellFormed s) {host : HostId} (h : hostDies s host = some s') :
    StepSpec ok s s' := by
  unfold hostDies at h
  split at h
  case h_1 => cases h
  case h_2 task htask =>
  split at h
  · rename_i hpc
    cases h
    refine setHost_spec hwf htask rfl fun session cell _ hagrees => ?_
    have hlive := hagrees.live_of_polling hpc
    exact ⟨hagrees.published, fun _ => ⟨(hagrees.live hlive).1, by simp⟩,
      fun ht => by simp [hlive] at ht⟩
  · cases h

lemma workerEmit_spec (hwf : WellFormed s) {host : HostId} {event : RuntimeEvent V}
    (h : workerEmit s host event = some s') : StepSpec ok s s' := by
  obtain ⟨task, htask, rfl⟩ := Option.map_eq_some_iff.mp h
  refine setHost_spec hwf htask rfl fun session cell _ hagrees => ?_
  exact ⟨hagrees.published, hagrees.live, hagrees.terminal⟩

end Hosts

/-! ## Runs -/

section Runs

variable {s s' : ServiceState V} {label : ServiceLabel V} {labels : List (ServiceLabel V)}

/-- Every transition of the service is a move of its book; only a racy read hands out a
summary that is not the one the cell finished with. -/
theorem serviceStep_spec (hwf : WellFormed s) (h : serviceStep s label = some s') :
    StepSpec (fun result returned => result = returned ∨ RacyRead s label) s s' := by
  cases label with
  | execute call sessionId options => exact execute_spec hwf h
  | executeFallback call => exact executeFallback_spec hwf h
  | waitWithRequest call sessionId requested timed =>
    exact waitWithRequest_spec hwf (fun _ => .inl rfl) h
  | waitWake call => exact waitWake_spec hwf h
  | waitTimeout call => exact waitTimeout_spec hwf h
  | readCellSummary call => exact readCellSummary_spec hwf h
  | dropCall call => exact dropCall_spec hwf h
  | abortActiveCell sessionId reason =>
    cases h
    exact (abortActiveCell_spec hwf sessionId reason).1
  | workerEmit host event => exact workerEmit_spec hwf h
  | hostUpdate host elapsed => exact hostUpdate_spec hwf h
  | hostIdle host received elapsed => exact hostIdle_spec hwf h
  | hostChannelClosed host => exact hostChannelClosed_spec hwf h
  | hostDeadline host => exact hostDeadline_spec hwf h
  | hostPublish host => exact hostPublish_spec hwf h
  | hostDies host => exact hostDies_spec hwf h

/-- What every state of every run satisfies: it is well formed, slots and log agree, only
terminal summaries were entered as finished, and a delivery is the result of a call. -/
structure Sound (s : ServiceState V) : Prop where
  wellFormed : WellFormed s
  consistent : s.book.Consistent
  finished : ∀ sessionId cellId summary, .finished sessionId cellId summary ∈ s.log →
    summary.lifecycle ≠ .running
  returned : ∀ sessionId cellId summary, .delivered sessionId cellId summary ∈ s.log →
    ∃ call, s.calls call = .returned (.ok summary)

lemma sound_init : Sound (ServiceState.init : ServiceState V) where
  wellFormed := wellFormed_init
  consistent := by
    constructor <;>
      simp [ServiceState.book, ServiceState.slots, ServiceState.init, slotOf]
  finished := by simp [ServiceState.init]
  returned := by simp [ServiceState.init]

theorem serviceStep_sound (hs : Sound s) (h : serviceStep s label = some s') : Sound s' where
  wellFormed := (serviceStep_spec hs.wellFormed h).wellFormed
  consistent := (serviceStep_spec hs.wellFormed h).move.consistent hs.consistent
  finished _ _ _ he :=
    (serviceStep_spec hs.wellFormed h).move.forall_finished
      (fun _ _ _ hdone => slots_done_lifecycle hdone) hs.finished he
  returned _ _ _ he := by
    have hkeeps := (serviceStep_spec hs.wellFormed h).returned
    rcases hkeeps.delivered _ _ _ he with hold | hnew
    · obtain ⟨call, hcall⟩ := hs.returned _ _ _ hold
      exact ⟨call, hkeeps.keep call _ hcall⟩
    · exact hnew

theorem run_sound (hrun : run serviceStep ServiceState.init labels = some s) : Sound s :=
  run_invariant _ (fun _ _ _ => serviceStep_sound) sound_init hrun

/-- The log only grows along a run. -/
lemma run_log_subset (hs : Sound s) (hrun : run serviceStep s labels = some s')
    {outcome : Outcome V} (h : outcome ∈ s.log) : outcome ∈ s'.log := by
  have hkeep := run_invariant
    (fun t : ServiceState V => Sound t ∧ outcome ∈ t.log)
    (fun t label t' ⟨ht, hmem⟩ hstep => ⟨serviceStep_sound ht hstep,
      (serviceStep_spec ht.wellFormed hstep).move.log_subset hmem⟩) ⟨hs, h⟩ hrun
  exact hkeep.2

/-- A racy read takes a finished cell out of its session and returns a running summary. -/
lemma racyRead_delivers (hwf : WellFormed s) (hracy : RacyRead s label)
    (h : serviceStep s label = some s') :
    ∃ sessionId cellId summary, .delivered sessionId cellId summary ∈ s'.log ∧
      summary.lifecycle = .running := by
  cases label with
  | readCellSummary call =>
    have hread : readCellSummary s call = some s' := h
    obtain ⟨_, _, hcall, host, task, summary, kind, rfl, rfl, htask, hpc, hkind,
      ⟨session, cell⟩, hfound⟩ := id hracy
    obtain ⟨-, task', htask', hagrees⟩ := hwf.task_of_active hfound
    obtain rfl : task = task' := Option.some.inj (htask.symm.trans htask')
    have hterminal : cell.isTerminal = true := by
      cases hlive : cell.isTerminal with
      | true => rfl
      | false =>
        have hnot := ((hagrees.live hlive).2 summary kind hpc).2
        rcases hkind with rfl | rfl <;> simp at hnot
    rcases read_terminal hwf hcall hfound hterminal with ⟨-, hnot⟩ | ⟨-, hrunning⟩
    · exact absurd hracy hnot
    · simp only [readCellSummary, hcall, hfound, hterminal, if_true, Option.some.injEq] at hread
      subst hread
      exact ⟨host.sessionId, host.cellId, cell.readSummary true, by simp, hrunning⟩
  | _ => exact absurd hracy (by simp [RacyRead])

/-- The cells of a state are accounted for.  No cell finished with two terminal summaries; a
summary delivered by a `wait` that removed its cell is the terminal summary of that cell; and
every finished cell is still in its session, was aborted or replaced, or its terminal summary
is the result of the call that removed it. -/
structure TerminalDelivery (s : ServiceState V) : Prop where
  unique : ∀ sessionId cellId summary summary', .finished sessionId cellId summary ∈ s.log →
    .finished sessionId cellId summary' ∈ s.log → summary = summary'
  genuine : ∀ sessionId cellId summary, .delivered sessionId cellId summary ∈ s.log →
    .finished sessionId cellId summary ∈ s.log
  settled : ∀ sessionId cellId summary, .finished sessionId cellId summary ∈ s.log →
    (∃ session cell, s.sessions sessionId = some session ∧ session.activeCell = some cell ∧
      cell.cellId = cellId ∧ cell.isTerminal = true ∧ cell.summary = summary) ∨
    .aborted sessionId cellId ∈ s.log ∨ .replaced sessionId cellId ∈ s.log ∨
    .delivered sessionId cellId summary ∈ s.log ∧
      ∃ call, s.calls call = .returned (.ok summary)

lemma active_of_slots_done {sessionId cellId : String} {summary : ExecRunResult V}
    (h : s.slots sessionId = .done cellId summary) :
    ∃ session cell, s.sessions sessionId = some session ∧ session.activeCell = some cell ∧
      cell.cellId = cellId ∧ cell.isTerminal = true ∧ cell.summary = summary := by
  unfold ServiceState.slots slotOf at h
  split at h
  · cases h
  · rename_i cell hcell
    obtain ⟨session, hsession, hactive⟩ := Option.bind_eq_some_iff.mp hcell
    split_ifs at h with hterminal
    cases h
    exact ⟨session, cell, hsession, hactive, rfl, hterminal, rfl⟩

lemma terminalDelivery_of_accounted (hs : Sound s) (h : s.book.Accounted) :
    TerminalDelivery s where
  unique := hs.consistent.unique
  genuine := h.genuine
  settled sessionId cellId summary hfinished := by
    rcases h.settled sessionId cellId summary hfinished with
      hslot | haborted | hreplaced | hdelivered
    · exact .inl (active_of_slots_done hslot)
    · exact .inr (.inl haborted)
    · exact .inr (.inr (.inl hreplaced))
    · exact .inr (.inr (.inr ⟨hdelivered, hs.returned _ _ _ hdelivered⟩))

/-- Terminal summaries are delivered in a run exactly when none of its reads is racy: no
`wait` that an earlier publication woke takes its turn between the step that makes its cell
terminal and the publication of the terminal summary. -/
theorem terminalDelivery_iff (hrun : run serviceStep ServiceState.init labels = some s) :
    TerminalDelivery s ↔
      Along serviceStep (fun t label => ¬ RacyRead t label) ServiceState.init labels := by
  constructor
  · intro hdelivery
    by_contra hracy
    obtain ⟨before, label, after, t, t', rfl, hbefore, hstep, hafter, hread⟩ :=
      exists_split_of_not_along hrun hracy
    have hsound := run_sound hbefore
    obtain ⟨sessionId, cellId, summary, hmem, hrunning⟩ :=
      racyRead_delivers hsound.wellFormed (not_not.mp hread) hstep
    have hkept := run_log_subset (serviceStep_sound hsound hstep) hafter hmem
    have hfinished := hdelivery.genuine sessionId cellId summary hkept
    exact (run_sound hrun).finished sessionId cellId summary hfinished hrunning
  · intro halong
    have hinv := run_invariant_of_along
      (fun t : ServiceState V => Sound t ∧ t.book.Accounted)
      (fun t label t' ⟨hsound, hacc⟩ hsafe hstep => by
        have hmove := (serviceStep_spec hsound.wellFormed hstep).move
        have hfaithful := hmove.mono fun result returned hok =>
          hok.resolve_right hsafe
        exact ⟨serviceStep_sound hsound hstep, hfaithful.accounted hsound.consistent hacc⟩)
      ⟨sound_init, by constructor <;> simp [ServiceState.book, ServiceState.init]⟩ halong hrun
    exact terminalDelivery_of_accounted hinv.1 hinv.2

/-! ## Two runs -/

/-- The host of the first cell of a session, and a program that flushes and completes. -/
def firstHost : HostId := { sessionId := "session", seq := 0 }

def demoOptions : ExecuteOptions :=
  { autoFlushMs := none, timeoutNotice := none, runtimeTimeoutMs := 1000 }

def completedResult : RuntimeTerminalResult Nat :=
  { returnValue := some 7, runtimeError := none, cancellationReason := none, storedValues := [] }

/-- The terminal summary is published before anyone waits. -/
def publishedFirst : List (ServiceLabel Nat) :=
  [.execute 0 "session" demoOptions,
    .workerEmit firstHost (.workerCompleted (.ok completedResult)),
    .hostUpdate firstHost false, .hostPublish firstHost,
    .waitWithRequest 1 "session" none true]

theorem terminalDelivery_publishedFirst :
    ∃ s, run serviceStep ServiceState.init publishedFirst = some s ∧ TerminalDelivery s := by
  have hsome : (run serviceStep ServiceState.init publishedFirst).isSome := by decide
  obtain ⟨s, hs⟩ := Option.isSome_iff_exists.mp hsome
  refine ⟨s, hs, (terminalDelivery_iff hs).mpr ?_⟩
  simp [publishedFirst, Along, RacyRead]

/-- `flush(); flush(); return 7` with a `wait` in between: the second flush wakes the `wait`,
and the program completes before the `wait` reads. -/
def wokenTooEarly : List (ServiceLabel Nat) :=
  [.execute 0 "session" demoOptions,
    .workerEmit firstHost (.flush 1 none), .hostUpdate firstHost false, .hostPublish firstHost,
    .waitWithRequest 1 "session" none true,
    .workerEmit firstHost (.flush 2 none), .hostUpdate firstHost false, .hostPublish firstHost,
    .waitWake 1,
    .workerEmit firstHost (.workerCompleted (.ok completedResult)),
    .hostUpdate firstHost false,
    .readCellSummary 1]

def isRunningDelivery : Outcome Nat → Bool
  | .delivered _ _ summary => summary.lifecycle = .running
  | _ => false

/-- The `wait` removes the completed cell and returns the summary of the second flush. -/
theorem not_terminalDelivery_wokenTooEarly :
    ¬ ∀ (labels : List (ServiceLabel Nat)) (s : ServiceState Nat),
      run serviceStep ServiceState.init labels = some s → TerminalDelivery s := by
  intro hall
  have hrun : ((run serviceStep ServiceState.init wokenTooEarly).map fun s =>
      s.log.any isRunningDelivery) = some true := by decide
  obtain ⟨s, hs, hany⟩ := Option.map_eq_some_iff.mp hrun
  obtain ⟨outcome, hmem, hrunning⟩ := List.any_eq_true.mp hany
  cases outcome with
  | delivered sessionId cellId summary =>
    have hfinished := (hall _ s hs).genuine sessionId cellId summary hmem
    exact (run_sound hs).finished _ _ _ hfinished (by simpa [isRunningDelivery] using hrunning)
  | _ => simp [isRunningDelivery] at hrunning

end Runs

end RustyClaw.CodeMode
