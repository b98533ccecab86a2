import RustyClaw.Library.Glyph
import RustyClaw.Library.Transition
import RustyClaw.Session.Manager

/-!
# The cancel guard of an ACP request

`handle_run` answers a request with a stream of events and hands a `CancelGuard` to the stream.
When the client goes away, or the last sender of the events is dropped, the guard is dropped too
and spawns a task that calls `cancel_session`.  The guard carries the id of the session and
nothing else, and it is made before the request is admitted: a request that is turned away has one
as well, and the guard of a request that has long ended waits for the next request, which takes
the place of its sender in the loop's output.

The model is one session with any number of requests.  A request has its number; `phase` says
where its task stands, `guard` where its guard or the cancellation that the guard spawned stands.
Every move is a part of the source between two points at which another task may run.  `hits`
remembers each time a cancellation reached somebody's work: the flag or the waiters of the step
that runs, the token of the shell command that runs, the code-mode cell.

`ownCancels` says when a cancellation belongs to its own request: in every run in which no guard is
dropped while another request works or has a cell, and no request begins to work while the
cancellation of another one is under way.  `not_ownCancels` is the run in which a request that was
turned away as busy stops the request that is being served.
-/

namespace RustyClaw.Acp

open Glyph Transition SessionManager Function

/-! ## What a request asks for -/

inductive ShellEscapeParseError where
  | emptyCommand
  deriving DecidableEq, Repr

/-- `parse_shell_escape`: the command after an exclamation mark. -/
def parseShellEscape (input : List Char) : Option (Except ShellEscapeParseError (List Char)) :=
  match input.dropWhile isWhitespace with
  | '!' :: command =>
    if (trim command).isEmpty then some (.error .emptyCommand) else some (.ok command)
  | _ => none

/-! ## The session and its requests -/

/-- Where the task that `handle_run` spawns for a request stands. -/
inductive Phase where
  | absent
  | spawned
  | shell
  /-- admitted, and about to look for the session's loop -/
  | admitted
  /-- waiting for the lock of the loop -/
  | waiting
  /-- holding the lock of the loop -/
  | inStep
  /-- the lock is free again, the foreground guard is not dropped yet -/
  | returning
  | ended
  deriving DecidableEq, Repr

/-- A `CancelGuard`, and after it is dropped the next action of the task it spawned. -/
inductive GuardState where
  | absent
  | alive
  | findTask
  /-- the foreground task that was found, by its request -/
  | cancelToken (request : Nat)
  | findAgent
  | setCancelled
  | notify
  | tryLock
  | abortCell
  | finished
  deriving DecidableEq, Repr

/-- The cancellation is spawned and not finished. -/
def GuardState.pending : GuardState → Bool
  | .absent | .alive | .finished => false
  | _ => true

/-- What the holder of the loop's lock does. -/
inductive Holder where
  /-- the request has the lock and has not called `step` -/
  | ready (request : Nat)
  /-- the request's step runs; the cancellation that has notified it -/
  | stepping (request : Nat) (notifiedBy : Option Nat)
  /-- the cancellation of the request has got the lock -/
  | cancelling (request : Nat)
  deriving DecidableEq, Repr

/-- `notify_waiters`. -/
def Holder.notify (canceller : Nat) : Holder → Holder
  | .stepping request _ => .stepping request (some canceller)
  | holder => holder

structure AcpSession where
  /-- the number of the next request -/
  next : Nat := 0
  task : Nat → List Char := fun _ => []
  phase : Nat → Phase := fun _ => .absent
  guard : Nat → GuardState := fun _ => .absent
  /-- the entry of the session in `foreground_tasks` -/
  foreground : Option (Nat × ForegroundTaskKind) := none
  /-- whether the session has an entry in `sessions` -/
  agent : Bool := false
  /-- the request whose sender the output of the loop holds -/
  output : Option Nat := none
  lock : Option Holder := none
  cancelled : Bool := false
  /-- the request whose step started the active code-mode cell -/
  cell : Option Nat := none
  /-- who cancelled, and whose work it was -/
  hits : List (Nat × Nat) := []

namespace AcpSession

variable (s : AcpSession) (request : Nat)

/-- The request whose step runs. -/
def stepping : Option Nat :=
  match s.lock with
  | some (.stepping request _) => some request
  | _ => none

/-- The request whose shell command runs. -/
def shell : Option Nat :=
  match s.foreground with
  | some (request, .shell) => some request
  | _ => none

/-- The cancellation of `request` reaches the work of `owner`, if there is any. -/
def hit (owner : Option Nat) : AcpSession :=
  { s with hits := owner.toList.map (request, ·) ++ s.hits }

def setPhase (phase : Phase) : AcpSession := { s with phase := update s.phase request phase }

def setGuard (guard : GuardState) : AcpSession := { s with guard := update s.guard request guard }

/-- `Drop` of the foreground guard of a request. -/
def dropForeground : AcpSession :=
  { s with foreground := s.foreground.filter fun task => task.1 ≠ request }

/-- The task of a request returns. -/
def endTask : AcpSession := (s.dropForeground request).setPhase request .ended

end AcpSession

/-! ## The moves -/

inductive AcpMove where
  /-- `handle_run` is called -/
  | run (task : List Char)
  | tryAcquire (request : Nat)
  /-- `get_or_create_session`; a new session may fail to build -/
  | getSession (request : Nat) (built : Bool)
  | lockAgent (request : Nat)
  | beginStep (request : Nat)
  /-- the step that runs executes `exec` -/
  | startCell
  /-- the cell comes to its end -/
  | endCell
  /-- the step that runs was notified while it waited for an `exec` -/
  | abortExec
  | endStep
  | endTask (request : Nat)
  /-- the last sender of the events of a request is dropped -/
  | streamEnds (request : Nat)
  /-- the client goes away -/
  | disconnect (request : Nat)
  /-- the next action of the cancellation that the guard of a request spawned -/
  | cancel (request : Nat)
  deriving DecidableEq, Repr

section Step

variable (shellEnabled : Bool)

def tryAcquire (s : AcpSession) (request : Nat) : AcpSession :=
  match parseShellEscape (s.task request) with
  | some _ =>
    if shellEnabled = false then s.endTask request
    else
      match s.foreground with
      | some _ => s.endTask request
      | none =>
        { s with foreground := some (request, .shell) }.setPhase request .shell
  | none =>
    match s.foreground with
    | some _ => s.endTask request
    | none => { s with foreground := some (request, .agent) }.setPhase request .admitted

/-- The actions of `cancel_session`, called for a request. -/
def cancelSession (s : AcpSession) (request : Nat) : Option AcpSession :=
  match s.guard request with
  | .findTask =>
    match s.foreground with
    | some (task, _) => some (s.setGuard request (.cancelToken task))
    | none => some (s.setGuard request .findAgent)
  | .cancelToken task =>
    -- The token of an agent task is observed by nobody.
    some ((s.hit request (s.shell.filter (· = task))).setGuard request .findAgent)
  | .findAgent =>
    if s.agent then some (s.setGuard request .setCancelled)
    else some (s.setGuard request .finished)
  | .setCancelled =>
    some (({ s with cancelled := true }.hit request s.stepping).setGuard request .notify)
  | .notify =>
    some (({ s with lock := s.lock.map (Holder.notify request) }.hit request s.stepping).setGuard
      request .tryLock)
  | .tryLock =>
    match s.lock with
    | some _ => some (s.setGuard request .finished)
    | none => some ({ s with lock := some (.cancelling request) }.setGuard request .abortCell)
  | .abortCell =>
    some (({ s with cell := none, lock := none }.hit request s.cell).setGuard request .finished)
  | _ => none

def acpStep (s : AcpSession) : AcpMove → Option AcpSession
  | .run task =>
    let phase := match parseShellEscape task with
      | some (.error _) => .ended
      | _ => .spawned
    some { s with
      next := s.next + 1
      task := update s.task s.next task
      phase := update s.phase s.next phase
      guard := update s.guard s.next .alive }
  | .tryAcquire request =>
    if s.phase request = .spawned then some (tryAcquire shellEnabled s request) else none
  | .getSession request built =>
    if s.phase request = .admitted then
      if s.agent then some (s.setPhase request .waiting)
      else if built then
        some ({ s with agent := true, output := some request }.setPhase request .waiting)
      else some (s.endTask request)
    else none
  | .lockAgent request =>
    if s.phase request = .waiting ∧ s.lock = none then
      some ({ s with lock := some (.ready request), output := some request }.setPhase request
        .inStep)
    else none
  | .beginStep request =>
    if s.phase request = .inStep ∧ s.lock = some (.ready request) then
      if (trim (s.task request)).isEmpty then
        some ({ s with lock := none }.setPhase request .returning)
      else some { s with lock := some (.stepping request none), cancelled := false }
    else none
  | .startCell =>
    match s.stepping, s.cell with
    | some request, none => some { s with cell := some request }
    | _, _ => none
  | .endCell => if s.cell = none then none else some { s with cell := none }
  | .abortExec =>
    match s.lock with
    | some (.stepping _ (some canceller)) => some ({ s with cell := none }.hit canceller s.cell)
    | _ => none
  | .endStep =>
    match s.stepping with
    | some request =>
      if s.phase request = .inStep then
        some ({ s with lock := none }.setPhase request .returning)
      else none
    | none => none
  | .endTask request =>
    if s.phase request = .returning ∨ s.phase request = .shell then some (s.endTask request)
    else none
  | .streamEnds request =>
    if s.guard request = .alive ∧ s.phase request = .ended ∧ s.output ≠ some request then
      some (s.setGuard request .findTask)
    else none
  | .disconnect request =>
    if s.guard request = .alive then some (s.setGuard request .findTask) else none
  | .cancel request => cancelSession s request

end Step

/-! ## Cancellations and their requests -/

/-- Nothing but the work of `request` is under way in the session. -/
def Alone (s : AcpSession) (request : Nat) : Prop :=
  (∀ other ∈ s.stepping, other = request) ∧ (∀ other ∈ s.shell, other = request) ∧
    ∀ other ∈ s.cell, other = request

/-- A guard is dropped only when no other request works or has a cell; a step begins only when no
other request's cancellation is under way, and a shell command only when no other request's
cancellation is about to look for the foreground task. -/
def Undisturbed (s : AcpSession) : AcpMove → Prop
  | .streamEnds request | .disconnect request => Alone s request
  | .beginStep request => ∀ other < s.next, (s.guard other).pending = true → other = request
  | .tryAcquire request =>
    parseShellEscape (s.task request) = none ∨ s.foreground ≠ none ∨
      ∀ other < s.next, s.guard other = .findTask → other = request
  | _ => True

/-- Where a cancellation is under way, nothing but its own request's work is there for it to
reach. -/
structure Apart (s : AcpSession) : Prop where
  fresh : ∀ request, s.next ≤ request → s.guard request = .absent ∧ s.phase request = .absent
  stepping : ∀ request, (s.guard request).pending = true → ∀ other ∈ s.stepping, other = request
  cell : ∀ request, (s.guard request).pending = true → ∀ other ∈ s.cell, other = request
  shell : ∀ request, s.guard request = .findTask → ∀ other ∈ s.shell, other = request
  /-- a token that was found stays the token of its own request -/
  token : ∀ request task, s.guard request = .cancelToken task →
    s.phase task ≠ .spawned ∧ s.phase task ≠ .absent ∧ (task ∈ s.shell → task = request)
  admitted : ∀ task ∈ s.foreground, s.phase task.1 ≠ .spawned ∧ s.phase task.1 ≠ .absent
  notified : ∀ request canceller, s.lock = some (.stepping request (some canceller)) →
    canceller = request ∧ ∀ other ∈ s.cell, other = request
  hits : ∀ hit ∈ s.hits, hit.1 = hit.2

lemma apart_init : Apart {} := by
  constructor <;> simp [GuardState.pending]

section Steps

variable {s s' : AcpSession} {request : Nat}

/-- The phases of requests that have begun do not matter to a cancellation. -/
lemma Apart.setPhase (h : Apart s) {phase : Phase} (hold : s.phase request ≠ .absent)
    (hnew : phase ≠ .spawned ∧ phase ≠ .absent) : Apart (s.setPhase request phase) := by
  have hphase : ∀ task, (s.phase task ≠ .spawned ∧ s.phase task ≠ .absent) →
      (s.setPhase request phase).phase task ≠ .spawned ∧
        (s.setPhase request phase).phase task ≠ .absent := by
    intro task htask
    by_cases heq : task = request
    · subst heq
      simpa [AcpSession.setPhase] using hnew
    · simpa [AcpSession.setPhase, update_of_ne heq] using htask
  refine ⟨fun other hother => ⟨(h.fresh other hother).1, ?_⟩, h.stepping, h.cell, h.shell, ?_, ?_,
    h.notified, h.hits⟩
  · have hne : other ≠ request := by
      rintro rfl
      exact hold (h.fresh other hother).2
    simpa [AcpSession.setPhase, update_of_ne hne] using (h.fresh other hother).2
  · intro other task hguard
    obtain ⟨hspawned, habsent, hshell⟩ := h.token other task hguard
    obtain ⟨hspawned', habsent'⟩ := hphase task ⟨hspawned, habsent⟩
    exact ⟨hspawned', habsent', hshell⟩
  · exact fun task htask => hphase task.1 (h.admitted task htask)

/-- Taking the foreground entry away leaves less for a cancellation to reach. -/
lemma Apart.dropForeground (h : Apart s) : Apart (s.dropForeground request) := by
  have hmem : ∀ task ∈ (s.dropForeground request).foreground, task ∈ s.foreground := by
    intro task htask
    exact (Option.mem_filter_iff.mp htask).1
  have hshell : ∀ other ∈ (s.dropForeground request).shell, other ∈ s.shell := by
    intro other hother
    unfold AcpSession.shell at hother
    split at hother
    · rename_i task hforeground
      have hold := hmem _ hforeground
      obtain rfl := Option.some.inj hother
      unfold AcpSession.shell
      rw [hold]
      rfl
    · cases hother
  refine ⟨h.fresh, h.stepping, h.cell, ?_, ?_, ?_, h.notified, h.hits⟩
  · exact fun other hguard task htask => h.shell other hguard task (hshell task htask)
  · intro other task hguard
    obtain ⟨hspawned, habsent, htoken⟩ := h.token other task hguard
    exact ⟨hspawned, habsent, fun hmem' => htoken (hshell task hmem')⟩
  · exact fun task htask => h.admitted task (hmem task htask)

lemma Apart.endTask (h : Apart s) (hold : s.phase request ≠ .absent) :
    Apart (s.endTask request) :=
  h.dropForeground.setPhase hold ⟨by decide, by decide⟩

/-- A cancellation goes on. -/
lemma Apart.setGuard (h : Apart s) {guard : GuardState} (hold : s.guard request ≠ .absent)
    (hpending : guard.pending = true → (s.guard request).pending = true)
    (hfind : guard ≠ .findTask) (htoken : ∀ task, guard ≠ .cancelToken task) :
    Apart (s.setGuard request guard) := by
  have hguard : ∀ other, (s.setGuard request guard).guard other =
      if other = request then guard else s.guard other := by
    intro other
    simp [AcpSession.setGuard, update_apply]
  have hstill : ∀ other, ((s.setGuard request guard).guard other).pending = true →
      (s.guard other).pending = true := by
    intro other hother
    rw [hguard] at hother
    split at hother
    · rename_i heq
      rw [heq]
      exact hpending hother
    · exact hother
  refine ⟨fun other hother => ⟨?_, (h.fresh other hother).2⟩,
    fun other hother => h.stepping other (hstill other hother),
    fun other hother => h.cell other (hstill other hother), ?_, ?_, h.admitted, h.notified,
    h.hits⟩
  · have hne : other ≠ request := by
      rintro rfl
      exact hold (h.fresh other hother).1
    rw [hguard, if_neg hne]
    exact (h.fresh other hother).1
  · intro other hother
    rw [hguard] at hother
    split at hother
    · exact absurd hother hfind
    · exact h.shell other hother
  · intro other task hother
    rw [hguard] at hother
    split at hother
    · exact absurd hother (htoken task)
    · exact h.token other task hother

/-- A cancellation that reaches work reaches the work of its own request. -/
lemma Apart.hit (h : Apart s) {owner : Option Nat} (howner : ∀ other ∈ owner, other = request) :
    Apart (s.hit request owner) := by
  refine ⟨h.fresh, h.stepping, h.cell, h.shell, h.token, h.admitted, h.notified, ?_⟩
  intro hit hmem
  rcases List.mem_append.mp hmem with hmem | hmem
  · obtain ⟨other, hother, rfl⟩ := List.mem_map.mp hmem
    exact (howner other (Option.mem_toList.mp hother)).symm
  · exact h.hits hit hmem

/-- A guard that is dropped while nobody else works spawns a cancellation that finds nobody
else. -/
lemma Apart.dropGuard (h : Apart s) (hguard : s.guard request = .alive)
    (halone : Alone s request) : Apart (s.setGuard request .findTask) := by
  obtain ⟨hstepping, hshell, hcell⟩ := halone
  have hupdate : ∀ other, (s.setGuard request .findTask).guard other =
      if other = request then .findTask else s.guard other := by
    intro other
    simp [AcpSession.setGuard, update_apply]
  refine ⟨fun other hother => ⟨?_, (h.fresh other hother).2⟩, ?_, ?_, ?_, ?_, h.admitted,
    h.notified, h.hits⟩
  · have hne : other ≠ request := by
      rintro rfl
      exact absurd (hguard.symm.trans (h.fresh other hother).1) (by decide)
    rw [hupdate, if_neg hne]
    exact (h.fresh other hother).1
  · intro other hother
    by_cases heq : other = request
    · exact fun task htask => (hstepping task htask).trans heq.symm
    · rw [hupdate, if_neg heq] at hother
      exact h.stepping other hother
  · intro other hother
    by_cases heq : other = request
    · exact fun task htask => (hcell task htask).trans heq.symm
    · rw [hupdate, if_neg heq] at hother
      exact h.cell other hother
  · intro other hother
    by_cases heq : other = request
    · exact fun task htask => (hshell task htask).trans heq.symm
    · rw [hupdate, if_neg heq] at hother
      exact h.shell other hother
  · intro other task hother
    by_cases heq : other = request
    · rw [hupdate, if_pos heq] at hother
      cases hother
    · rw [hupdate, if_neg heq] at hother
      exact h.token other task hother

/-- A new request: its guard is alive and its task has done nothing. -/
lemma Apart.run (h : Apart s) (task : List Char) {phase : Phase} :
    Apart { s with
      next := s.next + 1
      task := update s.task s.next task
      phase := update s.phase s.next phase
      guard := update s.guard s.next .alive } := by
  have hnew := h.fresh s.next (Nat.le_refl _)
  have hguard : ∀ other guard, update s.guard s.next .alive other = guard → guard ≠ .alive →
      s.guard other = guard := by
    intro other guard hother hne
    rw [update_apply] at hother
    split at hother
    · exact absurd hother.symm hne
    · exact hother
  have hstill : ∀ other, (update s.guard s.next .alive other).pending = true →
      (s.guard other).pending = true := by
    intro other hother
    rw [update_apply] at hother
    split at hother
    · cases hother
    · exact hother
  refine ⟨?_, fun other hother => h.stepping other (hstill other hother),
    fun other hother => h.cell other (hstill other hother),
    fun other hother => h.shell other (hguard other _ hother (by decide)), ?_, ?_, h.notified,
    h.hits⟩
  · intro other hother
    have hlt : s.next < other := hother
    have hne : other ≠ s.next := by omega
    show update s.guard s.next .alive other = _ ∧ update s.phase s.next phase other = _
    rw [update_of_ne hne, update_of_ne hne]
    exact h.fresh other (by omega)
  · intro other task hother
    obtain ⟨hspawned, habsent, hshell⟩ := h.token other task (hguard other _ hother (by simp))
    have hne : task ≠ s.next := by
      rintro rfl
      exact habsent hnew.2
    show update s.phase s.next phase task ≠ _ ∧ update s.phase s.next phase task ≠ _ ∧ _
    rw [update_of_ne hne]
    exact ⟨hspawned, habsent, hshell⟩
  · intro task htask
    have hne : task.1 ≠ s.next := fun heq => (h.admitted task htask).2 (heq ▸ hnew.2)
    show update s.phase s.next phase task.1 ≠ _ ∧ update s.phase s.next phase task.1 ≠ _
    rw [update_of_ne hne]
    exact h.admitted task htask

/-- A request is admitted; for a shell command this is where its work begins. -/
lemma Apart.admit (h : Apart s) (hphase : s.phase request = .spawned) {kind : ForegroundTaskKind}
    {phase : Phase} (hnew : phase ≠ .spawned ∧ phase ≠ .absent)
    (hshell : kind = .shell → ∀ other, s.guard other = .findTask → request = other) :
    Apart ({ s with foreground := some (request, kind) }.setPhase request phase) := by
  have hupdate : ∀ task, update s.phase request phase task =
      if task = request then phase else s.phase task := fun task => update_apply _ _ _ _
  have hmem : ∀ other, other ∈ AcpSession.shell
      ({ s with foreground := some (request, kind) }.setPhase request phase) →
      other = request ∧ kind = .shell := by
    intro other hother
    cases kind
    · cases hother
    · exact ⟨(Option.some.inj hother).symm, rfl⟩
  refine ⟨?_, h.stepping, h.cell, ?_, ?_, ?_, h.notified, h.hits⟩
  · intro other hother
    have hne : other ≠ request := by
      rintro rfl
      exact absurd (hphase.symm.trans (h.fresh other hother).2) (by decide)
    refine ⟨(h.fresh other hother).1, ?_⟩
    show update s.phase request phase other = _
    rw [hupdate, if_neg hne]
    exact (h.fresh other hother).2
  · intro other hguard task htask
    obtain ⟨rfl, hkind⟩ := hmem task htask
    exact hshell hkind other hguard
  · intro other task hguard
    obtain ⟨hspawned, habsent, -⟩ := h.token other task hguard
    have hne : task ≠ request := by
      rintro rfl
      exact hspawned hphase
    show update s.phase request phase task ≠ _ ∧ update s.phase request phase task ≠ _ ∧ _
    rw [hupdate, if_neg hne]
    exact ⟨hspawned, habsent, fun htask => absurd (hmem task htask).1 hne⟩
  · intro task htask
    obtain rfl := Option.some.inj htask
    show update s.phase request phase request ≠ _ ∧ update s.phase request phase request ≠ _
    rw [hupdate, if_pos rfl]
    exact hnew

lemma Apart.tryAcquire (h : Apart s) {shellEnabled : Bool} (hphase : s.phase request = .spawned)
    (hcondition : Undisturbed s (.tryAcquire request)) :
    Apart (tryAcquire shellEnabled s request) := by
  have hpresent : s.phase request ≠ .absent := by
    rw [hphase]
    decide
  unfold Acp.tryAcquire
  split
  · rename_i command hcommand
    split
    · exact h.endTask hpresent
    · split
      · exact h.endTask hpresent
      · rename_i hforeground
        refine h.admit hphase ⟨by decide, by decide⟩ fun _ other hguard => ?_
        rcases hcondition with hnone | hbusy | hfind
        · rw [hnone] at hcommand
          cases hcommand
        · exact absurd hforeground hbusy
        · by_cases hlt : other < s.next
          · exact (hfind other hlt hguard).symm
          · have habsent := (h.fresh other (Nat.le_of_not_lt hlt)).1
            rw [habsent] at hguard
            cases hguard
  · split
    · exact h.endTask hpresent
    · exact h.admit hphase ⟨by decide, by decide⟩ (by simp)

/-- Another holder of the lock, of which every cancellation under way may be. -/
lemma Apart.setLock (h : Apart s) {agent cancelled : Bool} {output : Option Nat}
    {lock : Option Holder}
    (hstepping : ∀ other, (s.guard other).pending = true →
      ∀ owner notifiedBy, lock = some (.stepping owner notifiedBy) → owner = other)
    (hnotified : ∀ owner canceller, lock = some (.stepping owner (some canceller)) →
      canceller = owner ∧ ∀ other ∈ s.cell, other = owner) :
    Apart { s with agent := agent, output := output, lock := lock, cancelled := cancelled } := by
  refine ⟨h.fresh, ?_, h.cell, h.shell, h.token, h.admitted, hnotified, h.hits⟩
  intro other hother owner howner
  unfold AcpSession.stepping at howner
  split at howner
  · rename_i owner' notifiedBy hlock
    obtain rfl := Option.some.inj howner
    exact hstepping other hother _ notifiedBy hlock
  · cases howner

lemma mem_stepping {owner : Nat} {notifiedBy : Option Nat}
    (hlock : s.lock = some (.stepping owner notifiedBy)) : owner ∈ s.stepping := by
  unfold AcpSession.stepping
  rw [hlock]
  rfl

lemma notify_eq_stepping {lock : Option Holder} {owner : Nat} {notifiedBy : Option Nat}
    (h : lock.map (Holder.notify request) = some (Holder.stepping owner notifiedBy)) :
    ∃ before, lock = some (Holder.stepping owner before) ∧ notifiedBy = some request := by
  obtain ⟨holder, hlock, hnotify⟩ := Option.map_eq_some_iff.mp h
  cases holder with
  | ready other => cases hnotify
  | cancelling other => cases hnotify
  | stepping other before =>
    cases hnotify
    exact ⟨before, hlock, rfl⟩

/-- Another cell: none, or one of the step that runs. -/
lemma Apart.setCell (h : Apart s) {cell : Option Nat}
    (hcell : ∀ other ∈ cell, other ∈ s.stepping) : Apart { s with cell := cell } := by
  refine ⟨h.fresh, h.stepping, ?_, h.shell, h.token, h.admitted, ?_, h.hits⟩
  · exact fun other hother owner howner => h.stepping other hother owner (hcell owner howner)
  · intro owner canceller hlock
    refine ⟨(h.notified owner canceller hlock).1, fun other hother => ?_⟩
    have hmem := hcell other hother
    have howner := mem_stepping hlock
    exact Option.mem_unique hmem howner

/-- What the guard of a request is while its cancellation is under way. -/
lemma present_of_pending (hpending : (s.guard request).pending = true) :
    s.guard request ≠ .absent := by
  intro habsent
  rw [habsent] at hpending
  cases hpending

lemma Apart.cancelSession (h : Apart s) (hstep : cancelSession s request = some s') :
    Apart s' := by
  unfold Acp.cancelSession at hstep
  split at hstep
  · rename_i hguard
    have hpending : (s.guard request).pending = true := by rw [hguard]; rfl
    split at hstep
    · rename_i task kind hforeground
      cases hstep
      -- The token that is found is the token of the command that runs, if one runs.
      have hadmitted := h.admitted _ hforeground
      have hshell := h.shell request hguard
      have hupdate : ∀ other, (s.setGuard request (.cancelToken task)).guard other =
          if other = request then .cancelToken task else s.guard other := by
        intro other
        simp [AcpSession.setGuard, update_apply]
      have hother : ∀ other, ((s.setGuard request (.cancelToken task)).guard other).pending =
          true → (s.guard other).pending = true := by
        intro other hother
        rw [hupdate] at hother
        split at hother
        · rename_i heq
          rw [heq]
          exact hpending
        · exact hother
      refine ⟨fun other hlt => ⟨?_, (h.fresh other hlt).2⟩,
        fun other hmem => h.stepping other (hother other hmem),
        fun other hmem => h.cell other (hother other hmem), ?_, ?_, h.admitted, h.notified,
        h.hits⟩
      · have hne : other ≠ request := by
          rintro rfl
          exact present_of_pending hpending (h.fresh other hlt).1
        rw [hupdate, if_neg hne]
        exact (h.fresh other hlt).1
      · intro other hfind
        rw [hupdate] at hfind
        split at hfind
        · cases hfind
        · exact h.shell other hfind
      · intro other task' htoken
        rw [hupdate] at htoken
        split at htoken
        · rename_i heq
          cases htoken
          exact ⟨hadmitted.1, hadmitted.2, fun hmem => (hshell task hmem).trans heq.symm⟩
        · exact h.token other task' htoken
    · cases hstep
      exact h.setGuard (present_of_pending hpending) (fun _ => hpending) (by simp) (by simp)
  · rename_i task hguard
    cases hstep
    have hpending : (s.guard request).pending = true := by rw [hguard]; rfl
    refine (h.hit ?_).setGuard (present_of_pending hpending) (fun _ => hpending) (by simp)
      (by simp)
    intro other hother
    obtain ⟨hmem, hsame⟩ := Option.mem_filter_iff.mp hother
    obtain rfl := of_decide_eq_true hsame
    exact (h.token request other hguard).2.2 hmem
  · rename_i hguard
    have hpending : (s.guard request).pending = true := by rw [hguard]; rfl
    split at hstep <;> cases hstep <;>
      exact h.setGuard (present_of_pending hpending) (fun _ => hpending) (by simp) (by simp)
  · rename_i hguard
    cases hstep
    have hpending : (s.guard request).pending = true := by rw [hguard]; rfl
    have hflag : Apart { s with cancelled := true } :=
      h.setLock (fun other hother owner notifiedBy hlock =>
        h.stepping other hother owner (mem_stepping hlock)) h.notified
    exact (hflag.hit (h.stepping request hpending)).setGuard (present_of_pending hpending)
      (fun _ => hpending) (by simp) (by simp)
  · rename_i hguard
    cases hstep
    have hpending : (s.guard request).pending = true := by rw [hguard]; rfl
    have hstepping := h.stepping request hpending
    have hlock : Apart { s with lock := s.lock.map (Holder.notify request) } := by
      refine h.setLock (fun other hother owner notifiedBy hnew => ?_)
        (fun owner canceller hnew => ?_)
      · obtain ⟨by', hold, -⟩ := notify_eq_stepping hnew
        exact h.stepping other hother owner (mem_stepping hold)
      · obtain ⟨by', hold, hby⟩ := notify_eq_stepping hnew
        obtain rfl := Option.some.inj hby
        have howner := hstepping owner (mem_stepping hold)
        exact ⟨howner.symm, fun other hother =>
          (h.cell canceller hpending other hother).trans howner.symm⟩
    exact (hlock.hit hstepping).setGuard (present_of_pending hpending) (fun _ => hpending)
      (by simp) (by simp)
  · rename_i hguard
    have hpending : (s.guard request).pending = true := by rw [hguard]; rfl
    split at hstep
    · cases hstep
      exact h.setGuard (present_of_pending hpending) (fun _ => hpending) (by simp) (by simp)
    · cases hstep
      have hlock : Apart { s with lock := some (.cancelling request) } :=
        h.setLock (by simp) (by simp)
      exact hlock.setGuard (present_of_pending hpending) (fun _ => hpending) (by simp) (by simp)
  · rename_i hguard
    cases hstep
    have hpending : (s.guard request).pending = true := by rw [hguard]; rfl
    have hcell : Apart { s with cell := none } := h.setCell (by simp)
    have hlock : Apart { s with cell := none, lock := none } := hcell.setLock (by simp) (by simp)
    exact (hlock.hit (h.cell request hpending)).setGuard (present_of_pending hpending)
      (fun _ => hpending) (by simp) (by simp)
  · cases hstep

lemma apart_step {shellEnabled : Bool} (h : Apart s) {move : AcpMove}
    (hcondition : Undisturbed s move) (hstep : acpStep shellEnabled s move = some s') :
    Apart s' := by
  cases move with
  | run task =>
    cases hstep
    exact h.run task
  | tryAcquire request =>
    simp only [acpStep] at hstep
    split at hstep <;> cases hstep
    rename_i hphase
    exact h.tryAcquire hphase hcondition
  | getSession request built =>
    simp only [acpStep] at hstep
    split at hstep <;> try cases hstep
    rename_i hphase
    have hpresent : s.phase request ≠ .absent := by rw [hphase]; decide
    split at hstep
    · cases hstep
      exact h.setPhase hpresent ⟨by decide, by decide⟩
    · split at hstep
      · cases hstep
        have hbuilt : Apart { s with agent := true, output := some request } :=
          h.setLock (fun other hother owner notifiedBy hlock =>
            h.stepping other hother owner (mem_stepping hlock)) h.notified
        exact hbuilt.setPhase hpresent ⟨by decide, by decide⟩
      · cases hstep
        exact h.endTask hpresent
  | lockAgent request =>
    simp only [acpStep] at hstep
    split at hstep <;> cases hstep
    rename_i hready
    have hpresent : s.phase request ≠ .absent := by rw [hready.1]; decide
    have hlock : Apart { s with lock := some (.ready request), output := some request } :=
      h.setLock (by simp) (by simp)
    exact hlock.setPhase hpresent ⟨by decide, by decide⟩
  | beginStep request =>
    simp only [acpStep] at hstep
    split at hstep <;> try cases hstep
    rename_i hready
    have hpresent : s.phase request ≠ .absent := by rw [hready.1]; decide
    split at hstep
    · cases hstep
      have hlock : Apart { s with lock := none } := h.setLock (by simp) (by simp)
      exact hlock.setPhase hpresent ⟨by decide, by decide⟩
    · cases hstep
      refine h.setLock (fun other hother owner notifiedBy hlock => ?_) (by simp)
      cases hlock
      by_cases hlt : other < s.next
      · exact (hcondition other hlt hother).symm
      · exact absurd (h.fresh other (Nat.le_of_not_lt hlt)).1 (present_of_pending hother)
  | startCell =>
    simp only [acpStep] at hstep
    split at hstep <;> cases hstep
    rename_i owner hstepping _
    refine h.setCell fun other hother => ?_
    obtain rfl := Option.some.inj hother
    exact hstepping
  | endCell =>
    simp only [acpStep] at hstep
    split at hstep <;> cases hstep
    exact h.setCell (by simp)
  | abortExec =>
    simp only [acpStep] at hstep
    split at hstep <;> cases hstep
    rename_i owner canceller hlock
    obtain ⟨rfl, hcell⟩ := h.notified owner canceller hlock
    have hnone : Apart { s with cell := none } := h.setCell (by simp)
    exact hnone.hit hcell
  | endStep =>
    simp only [acpStep] at hstep
    split at hstep <;> try cases hstep
    split at hstep <;> cases hstep
    rename_i hphase
    have hlock : Apart { s with lock := none } := h.setLock (by simp) (by simp)
    exact hlock.setPhase (by rw [hphase]; decide) ⟨by decide, by decide⟩
  | endTask request =>
    simp only [acpStep] at hstep
    split at hstep <;> cases hstep
    rename_i hphase
    refine h.endTask ?_
    rcases hphase with hphase | hphase <;> rw [hphase] <;> decide
  | streamEnds request =>
    simp only [acpStep] at hstep
    split at hstep <;> cases hstep
    rename_i hready
    exact h.dropGuard hready.1 hcondition
  | disconnect request =>
    simp only [acpStep] at hstep
    split at hstep <;> cases hstep
    rename_i hready
    exact h.dropGuard hready hcondition
  | cancel request => exact h.cancelSession hstep

end Steps

/-! ## The claim and its condition -/

instance (s : AcpSession) : ∀ move, Decidable (Undisturbed s move)
  | .streamEnds request | .disconnect request =>
    inferInstanceAs (Decidable ((∀ other ∈ s.stepping, other = request) ∧
      (∀ other ∈ s.shell, other = request) ∧ ∀ other ∈ s.cell, other = request))
  | .beginStep request =>
    inferInstanceAs (Decidable (∀ other < s.next, (s.guard other).pending = true →
      other = request))
  | .tryAcquire request =>
    have : Decidable (parseShellEscape (s.task request) = none) :=
      decidable_of_iff (parseShellEscape (s.task request)).isNone (by simp)
    inferInstanceAs (Decidable (parseShellEscape (s.task request) = none ∨ s.foreground ≠ none ∨
      ∀ other < s.next, s.guard other = .findTask → other = request))
  | .run _ | .getSession _ _ | .lockAgent _ | .startCell | .endCell | .abortExec | .endStep
  | .endTask _ | .cancel _ => isTrue trivial

/-- Where no guard is dropped while another request works or has a cell, and no request begins to
work while the cancellation of another one is under way, every cancellation reaches the work of
its own request only. -/
theorem ownCancels {shellEnabled : Bool} {moves : List AcpMove} {s : AcpSession}
    (hrun : run (acpStep shellEnabled) {} moves = some s)
    (hcondition : Along (acpStep shellEnabled) Undisturbed {} moves) :
    ∀ hit ∈ s.hits, hit.1 = hit.2 := by
  have hapart : Apart s :=
    run_invariant_of_along Apart (fun _ _ _ h hP hstep => apart_step h hP hstep) apart_init
      hcondition hrun
  exact hapart.hits

/-- A request that is served until its step runs. -/
def served (request : Nat) : List AcpMove :=
  [.tryAcquire request, .getSession request true, .lockAgent request, .beginStep request]

/-- The client of a request goes away in the middle of its step; the next request comes when the
cancellation is over. -/
def disconnected : List AcpMove :=
  [.run ['a']] ++ served 0 ++ [.disconnect 0] ++ List.replicate 5 (.cancel 0) ++
    [.endStep, .endTask 0, .cancel 0, .cancel 0, .run ['b']] ++ served 1

theorem ownCancels_disconnected :
    ∃ s, run (acpStep false) {} disconnected = some s ∧ s.hits = [(0, 0), (0, 0)] ∧
      ∀ hit ∈ s.hits, hit.1 = hit.2 := by
  have hhits : (run (acpStep false) {} disconnected).map AcpSession.hits =
      some [(0, 0), (0, 0)] := by
    decide +kernel
  obtain ⟨s, hrun, hs⟩ := Option.map_eq_some_iff.mp hhits
  exact ⟨s, hrun, hs, ownCancels hrun (by decide +kernel)⟩

/-- A request is turned away because another one is served; its stream ends. -/
def turnedAway : List AcpMove :=
  [.run ['a']] ++ served 0 ++ [.run ['b'], .tryAcquire 1, .streamEnds 1] ++
    List.replicate 4 (.cancel 1)

/-- The guard of the request that was turned away cancels the step of the other. -/
theorem not_ownCancels :
    ¬ ∀ (shellEnabled : Bool) (moves : List AcpMove) (s : AcpSession),
      run (acpStep shellEnabled) {} moves = some s → ∀ hit ∈ s.hits, hit.1 = hit.2 := by
  intro hclaim
  have hhits : (run (acpStep false) {} turnedAway).map AcpSession.hits = some [(1, 0)] := by
    decide +kernel
  obtain ⟨s, hrun, hs⟩ := Option.map_eq_some_iff.mp hhits
  exact absurd (hclaim false turnedAway s hrun (1, 0) (by rw [hs]; simp)) (by decide)

end RustyClaw.Acp
