import Mathlib.Data.List.Infix
import Mathlib.Logic.Function.Basic
import RustyClaw.Library.Transition

/-!
# The timer pump of the code-mode wrapper

`wrapper.js` runs a user program in an engine that has no timers of its own.  `setTimeout` enters
the callback into `timerCallbacks` and makes sure that a *pump* runs: an asynchronous loop that
asks the host for the next timer event and calls the callback of a timer that is due.  The promise
of the pump is kept in `timerPumpPromise`, and while it is there no other pump is started.  When
the user program has returned, the wrapper waits for that promise and then runs a pump of its own.

The model is the event loop: a queue of microtasks that are run one at a time, in order, to their
end.  The continuations of the wrapper's own `await`s are single jobs (`Job.pump`, `Job.main`,
`Job.settle`), with the number of turns of the queue that the language prescribes; a job of the
user program (`Job.user`) does whatever the run says.  Which timers are due is up to the run, too.

The pump promise outlives the loop: between the loop's last look at `timerCallbacks` and the
`.finally` that resets the promise other jobs run, and a timer that is set by one of them finds a
promise and no pump.  And a pump waits for the promise of the callback it has called, so a callback
that waits for another timer waits for ever.  `neverLosesWakeUp_of_undisturbed` says that these are
the only two ways to lose a wake-up.
-/

namespace RustyClaw.CodeMode.TimerPump

open Transition

/-! ## State -/

/-- The position of a timer in the registry. -/
abbrev TimerId := Nat

/-- `RecordedTimerCall`, without its times. -/
structure RecordedTimerCall where
  completed : Bool := false
  cleared : Bool := false
  deriving DecidableEq, Repr

/-- The pump that `ensureTimerPump` started, and the one that `waitForPendingTimers` runs. -/
inductive PumpId where
  | ensured | drain
  deriving DecidableEq, Repr

/-- What `__next_timer_event` resolves to. -/
inductive TimerEvent where
  | due (timer : TimerId)
  | idle | cancelled | disconnected
  deriving DecidableEq, Repr

/-- Where a pump is. -/
inductive PumpStage where
  | absent
  /-- it awaits `__next_timer_event` -/
  | awaitingEvent
  /-- the event has arrived, the loop is about to go on -/
  | resumed (event : TimerEvent)
  /-- it awaits the callback it has called -/
  | awaitingCallback (timer : TimerId)
  /-- the callback has returned or its promise has settled -/
  | callbackSettled (timer : TimerId) (ok : Bool)
  /-- `runTimerCallback` is over -/
  | callbackDone (ok : Bool)
  /-- the loop is over -/
  | left (ok : Bool)
  /-- `.catch` is over -/
  | caught
  deriving DecidableEq, Repr

/-- Where the wrapper itself is. -/
inductive MainStage where
  /-- it awaits the race of the user program and the timer failure -/
  | racing
  /-- the race is decided; `hops` jobs later it goes on -/
  | resuming (hops : Nat) (ok : Bool)
  /-- it awaits the promise of the pump that was started as this one -/
  | awaitingPump (generation : Nat)
  /-- it awaits the pump that it has started itself -/
  | draining
  /-- it is about to return its result -/
  | finishing
  | completed
  deriving DecidableEq, Repr

inductive Job where
  | user
  | pump (pump : PumpId)
  | main
  /-- the promise of a pump settles after `hops` more jobs -/
  | settle (hops generation : Nat)
  deriving DecidableEq, Repr

/-- The code on the stack of the engine. -/
inductive Frame where
  | idle
  | user
  | callback (pump : PumpId) (timer : TimerId)
  deriving DecidableEq, Repr

structure Wrapper where
  timers : List RecordedTimerCall := []
  timerCallbacks : List TimerId := []
  /-- `timerPumpPromise` is there -/
  pumpPromise : Bool := false
  /-- `timerPumpFailure` is there -/
  pumpFailure : Bool := false
  /-- how many pumps `ensureTimerPump` has started -/
  generation : Nat := 0
  pumps : PumpId → PumpStage := fun _ => .absent
  main : MainStage := .racing
  frame : Frame := .user
  jobs : List Job := []

namespace Wrapper

def enqueue (s : Wrapper) (job : Job) : Wrapper := { s with jobs := s.jobs ++ [job] }

def setPump (s : Wrapper) (pump : PumpId) (stage : PumpStage) : Wrapper :=
  { s with pumps := Function.update s.pumps pump stage }

/-- A pump gets to a place where its next step is a job. -/
def resumePump (s : Wrapper) (pump : PumpId) (stage : PumpStage) : Wrapper :=
  (s.setPump pump stage).enqueue (.pump pump)

/-! ## The registry -/

def registerTimeout (s : Wrapper) : Wrapper := { s with timers := s.timers ++ [{}] }

def clearTimer (s : Wrapper) (timer : TimerId) : Wrapper :=
  { s with timers := s.timers.modify timer fun call => { call with cleared := true } }

def markTimeoutCompleted (s : Wrapper) (timer : TimerId) : Wrapper :=
  { s with timers := s.timers.modify timer fun call => { call with completed := true } }

/-- The timer is neither cleared nor completed. -/
def isPending (s : Wrapper) (timer : TimerId) : Bool :=
  match s.timers[timer]? with
  | some call => !call.cleared && !call.completed
  | none => false

/-! ## The functions of the wrapper -/

/-- The loop of `runTimerPump` from its test on. -/
def runTimerPump (s : Wrapper) (pump : PumpId) : Wrapper :=
  if s.timerCallbacks = [] then s.resumePump pump (.left true)
  else s.setPump pump .awaitingEvent

def ensureTimerPump (s : Wrapper) : Wrapper :=
  if s.pumpPromise then s
  else ({ s with pumpPromise := true, generation := s.generation + 1 }).runTimerPump .ensured

def setTimeout (s : Wrapper) : Wrapper :=
  let timer := s.timers.length
  let s := s.registerTimeout
  ({ s with timerCallbacks := s.timerCallbacks ++ [timer] }).ensureTimerPump

def clearTimeout (s : Wrapper) (timer : TimerId) : Wrapper :=
  ({ s with timerCallbacks := s.timerCallbacks.filter (· ≠ timer) }).clearTimer timer

/-- The first of the two promises of the race settles. -/
def settleRace (s : Wrapper) (ok : Bool) : Wrapper :=
  if s.main = .racing then ({ s with main := .resuming 1 ok }).enqueue .main else s

/-- `waitForPendingTimers` behind its first `await`. -/
def drainTimers (s : Wrapper) : Wrapper :=
  if s.pumpFailure then ({ s with main := .finishing }).enqueue .main
  else ({ s with main := .draining }).runTimerPump .drain

def waitForPendingTimers (s : Wrapper) : Wrapper :=
  if s.pumpPromise then { s with main := .awaitingPump s.generation } else s.drainTimers

/-! ## Jobs -/

/-- `runTimerCallback` up to the call. -/
def runTimerCallback (s : Wrapper) (pump : PumpId) (timer : TimerId) : Wrapper :=
  if timer ∈ s.timerCallbacks then
    ({ s with
      timerCallbacks := s.timerCallbacks.filter (· ≠ timer)
      frame := .callback pump timer }).setPump pump (.awaitingCallback timer)
  else (s.markTimeoutCompleted timer).resumePump pump (.callbackDone true)

/-- The promise of the loop settles: `.catch` of an ensured pump, the `await` of the wrapper. -/
def pumpLeft (s : Wrapper) (pump : PumpId) (ok : Bool) : Wrapper :=
  match pump with
  | .ensured =>
    let s := if ok then s else ({ s with pumpFailure := true }).settleRace false
    s.resumePump .ensured .caught
  | .drain => ({ s with main := .finishing }).setPump .drain .absent |>.enqueue .main

def runPump (s : Wrapper) (pump : PumpId) : Wrapper :=
  match s.pumps pump with
  | .resumed (.due timer) => s.runTimerCallback pump timer
  | .resumed .idle => s.resumePump pump (.left true)
  | .resumed .cancelled | .resumed .disconnected => s.resumePump pump (.left false)
  | .callbackSettled timer ok => (s.markTimeoutCompleted timer).resumePump pump (.callbackDone ok)
  | .callbackDone ok => if ok then s.runTimerPump pump else s.resumePump pump (.left false)
  | .left ok => s.pumpLeft pump ok
  | .caught =>
    ({ s with pumpPromise := false }).setPump pump .absent |>.enqueue (.settle 2 s.generation)
  | .absent | .awaitingEvent | .awaitingCallback _ => s

def runMain (s : Wrapper) : Wrapper :=
  match s.main with
  | .resuming (hops + 1) ok => ({ s with main := .resuming hops ok }).enqueue .main
  | .resuming 0 true => s.waitForPendingTimers
  | .resuming 0 false | .finishing => { s with main := .completed }
  | .racing | .awaitingPump _ | .draining | .completed => s

def runJob (s : Wrapper) : Job → Wrapper
  | .user => { s with frame := .user }
  | .pump pump => s.runPump pump
  | .main => s.runMain
  | .settle (hops + 1) generation => s.enqueue (.settle hops generation)
  | .settle 0 generation => if s.main = .awaitingPump generation then s.drainTimers else s

end Wrapper

/-! ## The transition system -/

/-- How a callback returns to `runTimerCallback`: with a value or a settled promise, by throwing,
or with a promise that is not settled yet. -/
inductive CallbackResult where
  | settled (ok : Bool)
  | threw
  | pending
  deriving DecidableEq, Repr

inductive WrapperLabel where
  | runJob
  /-- what the code on the stack does: a timer, a continuation that can go on, the promise of a
  callback, the end of the user program -/
  | setTimeout
  | clearTimeout (timer : TimerId)
  | queueContinuation
  | settleCallback (pump : PumpId) (ok : Bool)
  | finishProgram (ok : Bool)
  /-- the stack is empty again -/
  | leaveUser
  | leaveCallback (result : CallbackResult)
  /-- the host resolves one of its promises -/
  | nextTimerEvent (pump : PumpId) (event : TimerEvent)
  | toolResult
  deriving DecidableEq, Repr

open Wrapper

/-- What `next_timer_event_json` may answer. -/
def Wrapper.mayAnswer (s : Wrapper) : TimerEvent → Bool
  | .due timer => s.isPending timer
  | .idle => (List.range s.timers.length).all fun timer => !s.isPending timer
  | .cancelled | .disconnected => true

def leaveCallback (s : Wrapper) (pump : PumpId) (timer : TimerId) : CallbackResult → Wrapper
  | .settled ok => s.resumePump pump (.callbackSettled timer ok)
  | .threw => (s.markTimeoutCompleted timer).resumePump pump (.callbackDone false)
  | .pending => s

def wrapperStep (s : Wrapper) (label : WrapperLabel) : Option Wrapper :=
  if s.main = .completed then none
  else match label, s.frame with
  | .runJob, .idle =>
    match s.jobs with
    | [] => none
    | job :: jobs => some (({ s with jobs := jobs }).runJob job)
  | .nextTimerEvent pump event, .idle =>
    if s.pumps pump = .awaitingEvent ∧ s.mayAnswer event = true then
      some (s.resumePump pump (.resumed event))
    else none
  | .toolResult, .idle => some (s.enqueue .user)
  | .leaveUser, .user => some { s with frame := .idle }
  | .leaveCallback result, .callback pump timer =>
    some (leaveCallback { s with frame := .idle } pump timer result)
  | _, .idle => none
  | .setTimeout, _ => some s.setTimeout
  | .clearTimeout timer, _ => some (s.clearTimeout timer)
  | .queueContinuation, _ => some (s.enqueue .user)
  | .settleCallback pump ok, frame =>
    match s.pumps pump with
    | .awaitingCallback timer =>
      if frame = .callback pump timer then none
      else some (s.resumePump pump (.callbackSettled timer ok))
    | _ => none
  | .finishProgram ok, _ => some (s.settleRace ok)
  | _, _ => none

/-! ## Wake-ups -/

/-- The stack and the queue are empty. -/
def Wrapper.Quiescent (s : Wrapper) : Prop := s.frame = .idle ∧ s.jobs = []

/-- A pump awaits the host for the next timer event. -/
def Wrapper.PumpActive (s : Wrapper) : Prop := ∃ pump, s.pumps pump = .awaitingEvent

/-- Whenever no microtask is runnable and a callback is registered that has neither been called nor
cleared, a pump is active. -/
def NeverLosesWakeUp (labels : List WrapperLabel) : Prop :=
  ∀ done rest s, labels = done ++ rest → run wrapperStep {} done = some s → s.Quiescent →
    s.timerCallbacks ≠ [] → s.main ≠ .completed → s.PumpActive

/-- The pump will not look at the timers again, and its promise is still there. -/
def PumpStage.leaving : PumpStage → Bool
  | .resumed .idle | .left true | .caught => true
  | _ => false

structure Undisturbed (labels : List WrapperLabel) : Prop where
  /-- until the user program has returned, no timer is set while the ensured pump is leaving -/
  inTime : ∀ done rest s, labels = done ++ .setTimeout :: rest →
    run wrapperStep {} done = some s → s.main = .racing → (s.pumps .ensured).leaving = false
  /-- when the microtasks have run out and a timer is registered, no pump awaits the promise of a
  callback, unless the other pump awaits the host -/
  settled : ∀ done rest s, labels = done ++ rest → run wrapperStep {} done = some s →
    s.Quiescent → s.timerCallbacks ≠ [] → s.main ≠ .completed →
      ∀ pump timer, s.pumps pump = .awaitingCallback timer →
        ∃ other, other ≠ pump ∧ s.pumps other = .awaitingEvent

/-! ## The invariant -/

/-- The next step of the pump is a job. -/
def PumpStage.queued : PumpStage → Bool
  | .resumed _ | .callbackSettled _ _ | .callbackDone _ | .left _ | .caught => true
  | .absent | .awaitingEvent | .awaitingCallback _ => false

/-- The timer whose callback the pump has called. -/
def PumpStage.called : PumpStage → Option TimerId
  | .awaitingCallback timer | .callbackSettled timer _ => some timer
  | _ => none

def MainStage.queued : MainStage → Bool
  | .resuming _ _ | .finishing => true
  | _ => false

/-- The invariant of the wrapper, while the jobs `running` have left the queue and are not over
yet. -/
structure Sound (running : List Job) (s : Wrapper) : Prop where
  pumpJob : ∀ pump, (s.pumps pump).queued = true → .pump pump ∈ running ++ s.jobs
  mainJob : s.main.queued = true → .main ∈ running ++ s.jobs
  promise : s.pumpPromise = true ↔ s.pumps .ensured ≠ .absent
  drainPump : s.pumps .drain ≠ .caught
  pending : ∀ timer ∈ s.timerCallbacks, s.isPending timer = true
  called : ∀ pump timer, (s.pumps pump).called = some timer →
    timer ∉ s.timerCallbacks ∧ timer < s.timers.length
  frame : ∀ pump timer, s.frame = .callback pump timer →
    s.pumps pump = .awaitingCallback timer
  /-- as long as the user program has not returned, a registered callback has a pump that will look
  at it -/
  racing : s.main = .racing → s.timerCallbacks ≠ [] →
    s.pumps .ensured ≠ .absent ∧ (s.pumps .ensured).leaving = false
  awaitingPump : ∀ generation, s.main = .awaitingPump generation →
    (generation = s.generation ∧ s.pumps .ensured ≠ .absent) ∨
      ∃ hops, .settle hops generation ∈ running ++ s.jobs
  draining : s.main = .draining → s.pumps .drain ≠ .absent

section Invariant

variable {s s' : Wrapper} {running : List Job} {job : Job} {pump : PumpId} {timer : TimerId}
  {stage : PumpStage} {label : WrapperLabel}

lemma sound_initial : Sound [] {} where
  pumpJob _ h := by cases h
  mainJob h := by cases h
  promise := by simp
  drainPump := by simp
  pending _ h := by cases h
  called _ _ h := by cases h
  frame _ _ h := by cases h
  racing _ h := absurd rfl h
  awaitingPump _ h := by cases h
  draining h := by cases h

/-! ### The queue -/

lemma Sound.enqueue (hs : Sound running s) (job : Job) : Sound running (s.enqueue job) where
  __ := hs
  pumpJob pump h := by
    have := hs.pumpJob pump h
    simp only [Wrapper.enqueue, List.mem_append] at this ⊢
    tauto
  mainJob h := by
    have := hs.mainJob h
    simp only [Wrapper.enqueue, List.mem_append] at this ⊢
    tauto
  awaitingPump generation h := by
    obtain hpump | ⟨hops, hjob⟩ := hs.awaitingPump generation h
    · exact .inl hpump
    · refine .inr ⟨hops, ?_⟩
      simp only [Wrapper.enqueue, List.mem_append] at hjob ⊢
      tauto

/-- A job leaves the queue. -/
lemma Sound.pop {jobs : List Job} (hs : Sound [] s) (hjobs : s.jobs = job :: jobs) :
    Sound [job] { s with jobs := jobs } where
  __ := hs
  pumpJob pump h := by simpa [hjobs] using hs.pumpJob pump h
  mainJob h := by simpa [hjobs] using hs.mainJob h
  awaitingPump generation h := by simpa [hjobs] using hs.awaitingPump generation h

/-- A job is over. -/
lemma Sound.drop (hs : Sound [job] s)
    (hpump : ∀ pump, job = .pump pump → (s.pumps pump).queued = true → .pump pump ∈ s.jobs)
    (hmain : job = .main → s.main.queued = true → .main ∈ s.jobs)
    (hsettle : ∀ hops generation, job = .settle hops generation →
      s.main = .awaitingPump generation → ∃ hops, .settle hops generation ∈ s.jobs) :
    Sound [] s where
  __ := hs
  pumpJob pump h := by
    have hmem := hs.pumpJob pump h
    simp only [List.cons_append, List.nil_append, List.mem_cons] at hmem
    exact hmem.elim (fun heq => hpump pump heq.symm h) id
  mainJob h := by
    have hmem := hs.mainJob h
    simp only [List.cons_append, List.nil_append, List.mem_cons] at hmem
    exact hmem.elim (fun heq => hmain heq.symm h) id
  awaitingPump generation h := by
    obtain hpump | ⟨hops, hmem⟩ := hs.awaitingPump generation h
    · exact .inl hpump
    · simp only [List.cons_append, List.nil_append, List.mem_cons] at hmem
      exact .inr (hmem.elim (fun heq => hsettle hops generation heq.symm h) fun hjob => ⟨hops, hjob⟩)

/-! ### Pumps -/

/-- A pump gets to another place.  The ensured pump does not turn away from a registered callback
while the user program runs. -/
lemma Sound.setPump (hs : Sound running s)
    (hpresent : pump = .ensured → s.pumps .ensured ≠ .absent)
    (hstage : stage = .absent → pump = .drain ∧ s.main ≠ .draining)
    (hcaught : stage = .caught → pump = .ensured)
    (hjob : stage.queued = true → .pump pump ∈ running ++ s.jobs)
    (hcalled : ∀ timer, stage.called = some timer →
      timer ∉ s.timerCallbacks ∧ timer < s.timers.length)
    (hframe : ∀ timer, s.frame = .callback pump timer → stage = .awaitingCallback timer)
    (hlook : pump = .ensured → s.main = .racing → s.timerCallbacks ≠ [] →
      stage.leaving = false) :
    Sound running (s.setPump pump stage) := by
  have hsame : (s.setPump pump stage).pumps pump = stage := Function.update_self ..
  have hother : ∀ other, other ≠ pump → (s.setPump pump stage).pumps other = s.pumps other :=
    fun other hne => Function.update_of_ne hne ..
  have hensured : pump = .ensured → stage ≠ .absent := by
    rintro rfl h
    exact absurd (hstage h).1 (by decide)
  constructor
  case pumpJob =>
    intro other h
    by_cases hother' : other = pump
    · subst hother'
      exact hjob (hsame ▸ h)
    · exact hs.pumpJob other (hother other hother' ▸ h)
  case mainJob => exact hs.mainJob
  case promise =>
    cases pump with
    | ensured =>
      show s.pumpPromise = true ↔ _
      simp [hsame, hensured rfl, hs.promise, hpresent rfl]
    | drain =>
      show s.pumpPromise = true ↔ _
      rw [hother .ensured (by decide), hs.promise]
  case drainPump =>
    cases pump with
    | ensured => rw [hother .drain (by decide)]; exact hs.drainPump
    | drain =>
      rw [hsame]
      intro h
      cases hcaught h
  case pending => exact hs.pending
  case called =>
    intro other timer h
    by_cases hother' : other = pump
    · subst hother'
      exact hcalled timer (hsame ▸ h)
    · exact hs.called other timer (hother other hother' ▸ h)
  case frame =>
    intro other timer h
    by_cases hother' : other = pump
    · subst hother'
      rw [hsame]
      exact hframe timer h
    · rw [hother other hother']
      exact hs.frame other timer h
  case racing =>
    intro hmain hne
    cases pump with
    | ensured =>
      rw [hsame]
      exact ⟨hensured rfl, hlook rfl hmain hne⟩
    | drain =>
      rw [hother .ensured (by decide)]
      exact hs.racing hmain hne
  case awaitingPump =>
    intro generation h
    obtain ⟨hgen, hp⟩ | hjob' := hs.awaitingPump generation h
    · refine .inl ⟨hgen, ?_⟩
      cases pump with
      | ensured =>
        rw [hsame]
        exact hensured rfl
      | drain => rwa [hother .ensured (by decide)]
    · exact .inr hjob'
  case draining =>
    intro h
    cases pump with
    | ensured =>
      rw [hother .drain (by decide)]
      exact hs.draining h
    | drain =>
      rw [hsame]
      exact fun hnone => (hstage hnone).2 h

lemma Sound.resumePump (hs : Sound running s)
    (hpresent : pump = .ensured → s.pumps .ensured ≠ .absent)
    (hstage : stage = .absent → pump = .drain ∧ s.main ≠ .draining)
    (hcaught : stage = .caught → pump = .ensured)
    (hcalled : ∀ timer, stage.called = some timer →
      timer ∉ s.timerCallbacks ∧ timer < s.timers.length)
    (hframe : ∀ timer, s.frame ≠ .callback pump timer)
    (hlook : pump = .ensured → s.main = .racing → s.timerCallbacks ≠ [] →
      stage.leaving = false) :
    Sound running (s.resumePump pump stage) :=
  (hs.enqueue (.pump pump)).setPump hpresent hstage hcaught (fun _ => by simp [Wrapper.enqueue])
    hcalled (fun timer h => absurd h (hframe timer)) hlook

/-- The job of a pump is over, and its next one is in the queue. -/
lemma Sound.dropPump (hs : Sound [.pump pump] s)
    (hjob : (s.pumps pump).queued = true → .pump pump ∈ s.jobs) : Sound [] s := by
  apply hs.drop
  · rintro _ ⟨⟩ h
    exact hjob h
  · exact fun h => by cases h
  · exact fun _ _ h => by cases h

lemma pump_mem_resumePump : .pump pump ∈ (s.resumePump pump stage).jobs := by
  simp [Wrapper.resumePump, Wrapper.enqueue]

/-! ### The registry -/

lemma isPending_append (hlt : timer < s.timers.length) (call : RecordedTimerCall) :
    ({ s with timers := s.timers ++ [call] } : Wrapper).isPending timer = s.isPending timer := by
  simp only [Wrapper.isPending, List.getElem?_append_left hlt]

lemma Wrapper.lt_length_of_isPending (h : s.isPending timer = true) : timer < s.timers.length := by
  by_contra hge
  rw [Wrapper.isPending, List.getElem?_eq_none (Nat.le_of_not_lt hge)] at h
  cases h

lemma isPending_modify {other : TimerId} (hne : other ≠ timer)
    (f : RecordedTimerCall → RecordedTimerCall) :
    ({ s with timers := s.timers.modify timer f } : Wrapper).isPending other =
      s.isPending other := by
  simp only [Wrapper.isPending, List.getElem?_modify_ne f s.timers (Ne.symm hne)]

/-- The callback of a timer is taken out of the registry. -/
lemma Sound.forget (hs : Sound running s) (timer : TimerId) :
    Sound running { s with timerCallbacks := s.timerCallbacks.filter (· ≠ timer) } where
  __ := hs
  pending other h := hs.pending other (List.mem_of_mem_filter h)
  called pump other h :=
    ⟨fun hmem => (hs.called pump other h).1 (List.mem_of_mem_filter hmem), (hs.called pump other h).2⟩
  racing hmain hne := hs.racing hmain fun hnil => hne (by simp [hnil])

/-- A timer that has no callback is marked. -/
lemma Sound.modifyTimer (hs : Sound running s) (hout : timer ∉ s.timerCallbacks)
    (f : RecordedTimerCall → RecordedTimerCall) :
    Sound running { s with timers := s.timers.modify timer f } where
  __ := hs
  pending other h := by
    have hne : other ≠ timer := by
      rintro rfl
      exact hout h
    rw [isPending_modify hne]
    exact hs.pending other h
  called pump other h := by simpa using hs.called pump other h

lemma Sound.clearTimeout (hs : Sound running s) (timer : TimerId) :
    Sound running (s.clearTimeout timer) :=
  (hs.forget timer).modifyTimer (by simp) _

/-- A timer is entered while the ensured pump is there. -/
lemma Sound.register (hs : Sound running s) (hpresent : s.pumps .ensured ≠ .absent)
    (hlook : s.main = .racing → (s.pumps .ensured).leaving = false) :
    Sound running { s with
      timers := s.timers ++ [{}]
      timerCallbacks := s.timerCallbacks ++ [s.timers.length] } where
  __ := hs
  pending timer h := by
    obtain h | h := List.mem_append.mp h
    · have hpending := hs.pending timer h
      exact (isPending_append (Wrapper.lt_length_of_isPending hpending) {}).trans hpending
    · obtain rfl := List.mem_singleton.mp h
      simp [Wrapper.isPending]
  called pump timer h := by
    obtain ⟨hout, hlt⟩ := hs.called pump timer h
    simp only [List.mem_append, List.mem_singleton, List.length_append, List.length_singleton]
    exact ⟨fun hmem => hmem.elim hout (Nat.ne_of_lt hlt), Nat.lt_succ_of_lt hlt⟩
  racing hmain _ := ⟨hpresent, hlook hmain⟩

/-- `ensureTimerPump` starts a pump. -/
lemma Sound.start (hs : Sound running s) (hpromise : s.pumpPromise = false) :
    Sound running (({ s with
      pumpPromise := true
      generation := s.generation + 1 } : Wrapper).setPump .ensured .awaitingEvent) := by
  have habsent : s.pumps .ensured = .absent := by
    by_contra hpresent
    rw [hs.promise.mpr hpresent] at hpromise
    cases hpromise
  constructor
  case pumpJob =>
    intro pump h
    cases pump with
    | ensured => cases h
    | drain => exact hs.pumpJob .drain h
  case mainJob => exact hs.mainJob
  case promise => simp [Wrapper.setPump]
  case drainPump => exact hs.drainPump
  case pending => exact hs.pending
  case called =>
    intro pump timer h
    cases pump with
    | ensured => cases h
    | drain => exact hs.called .drain timer h
  case frame =>
    intro pump timer h
    cases pump with
    | ensured =>
      have hstage := hs.frame .ensured timer h
      rw [habsent] at hstage
      cases hstage
    | drain => exact hs.frame .drain timer h
  case racing => exact fun _ _ => ⟨by simp [Wrapper.setPump], rfl⟩
  case awaitingPump =>
    intro generation h
    obtain ⟨-, hpresent⟩ | hjob := hs.awaitingPump generation h
    · exact absurd habsent hpresent
    · exact .inr hjob
  case draining => exact hs.draining

/-- A new timer is looked at by the pump that is there, or by the one that is started. -/
lemma Sound.setTimeout (hs : Sound running s)
    (hlook : s.main = .racing → (s.pumps .ensured).leaving = false) :
    Sound running s.setTimeout := by
  unfold Wrapper.setTimeout Wrapper.registerTimeout Wrapper.ensureTimerPump
  by_cases hpromise : s.pumpPromise = true
  · rw [if_pos hpromise]
    exact hs.register (hs.promise.mp hpromise) hlook
  · rw [if_neg hpromise, Wrapper.runTimerPump, if_neg (by simp)]
    apply (hs.start (by simpa using hpromise)).register
    · simp [Wrapper.setPump]
    · exact fun _ => rfl

/-! ### The wrapper itself -/

/-- The wrapper gets to another place behind the race. -/
lemma Sound.setMain (hs : Sound running s) (main : MainStage) (hracing : main ≠ .racing)
    (hjob : main.queued = true → .main ∈ running ++ s.jobs)
    (hawaiting : ∀ generation, main = .awaitingPump generation →
      generation = s.generation ∧ s.pumps .ensured ≠ .absent)
    (hdraining : main = .draining → s.pumps .drain ≠ .absent) :
    Sound running { s with main := main } where
  __ := hs
  mainJob := hjob
  racing h := absurd h hracing
  awaitingPump generation h := .inl (hawaiting generation h)
  draining := hdraining

/-- The wrapper gets to a place where its next step is a job. -/
lemma Sound.resumeMain (hs : Sound running s) (main : MainStage) (hmain : main.queued = true) :
    Sound running (({ s with main := main } : Wrapper).enqueue .main) := by
  apply (hs.enqueue .main).setMain main
  · rintro rfl
    cases hmain
  · exact fun _ => by simp [Wrapper.enqueue]
  · rintro generation rfl
    cases hmain
  · rintro rfl
    cases hmain

lemma Sound.settleRace (hs : Sound running s) (ok : Bool) : Sound running (s.settleRace ok) := by
  unfold Wrapper.settleRace
  by_cases hmain : s.main = .racing
  · rw [if_pos hmain]
    exact hs.resumeMain _ rfl
  · rwa [if_neg hmain]

@[simp] lemma settleRace_pumps (ok : Bool) : (s.settleRace ok).pumps = s.pumps := by
  unfold Wrapper.settleRace
  split <;> rfl

@[simp] lemma settleRace_frame (ok : Bool) : (s.settleRace ok).frame = s.frame := by
  unfold Wrapper.settleRace
  split <;> rfl

lemma settleRace_main_ne_racing (ok : Bool) : (s.settleRace ok).main ≠ .racing := by
  unfold Wrapper.settleRace
  by_cases hmain : s.main = .racing
  · rw [if_pos hmain]
    simp [Wrapper.enqueue]
  · rwa [if_neg hmain]

/-! ### Jobs -/

lemma Wrapper.frame_ne_callback (hframe : s.frame = .idle) : s.frame ≠ .callback pump timer := by
  rw [hframe]
  simp

lemma Sound.setFrame (hs : Sound running s) (frame : Frame)
    (hframe : ∀ pump timer, frame = .callback pump timer →
      s.pumps pump = .awaitingCallback timer) : Sound running { s with frame := frame } where
  __ := hs
  frame := hframe

lemma Sound.runTimerPump (hs : Sound running s) (hframe : s.frame = .idle)
    (hpresent : pump = .ensured → s.pumps .ensured ≠ .absent) :
    Sound running (s.runTimerPump pump) := by
  unfold Wrapper.runTimerPump
  by_cases hnil : s.timerCallbacks = []
  · rw [if_pos hnil]
    apply hs.resumePump hpresent (by simp) (by simp)
    · exact fun _ h => by cases h
    · exact fun _ => Wrapper.frame_ne_callback hframe
    · exact fun _ _ hne => absurd hnil hne
  · rw [if_neg hnil]
    apply hs.setPump hpresent (by simp) (by simp)
    · exact fun h => by cases h
    · exact fun _ h => by cases h
    · exact fun _ h => absurd h (Wrapper.frame_ne_callback hframe)
    · exact fun _ _ _ => rfl

lemma pump_mem_runTimerPump (h : ((s.runTimerPump pump).pumps pump).queued = true) :
    .pump pump ∈ (s.runTimerPump pump).jobs := by
  unfold Wrapper.runTimerPump at h ⊢
  by_cases hnil : s.timerCallbacks = []
  · rw [if_pos hnil]
    exact pump_mem_resumePump
  · rw [if_neg hnil] at h
    simp [Wrapper.setPump, PumpStage.queued] at h

lemma runTimerPump_pumps_ne_absent : (s.runTimerPump pump).pumps pump ≠ .absent := by
  unfold Wrapper.runTimerPump
  split <;> simp [Wrapper.resumePump, Wrapper.enqueue, Wrapper.setPump]

lemma Sound.runTimerCallback (hs : Sound [.pump pump] s) (hframe : s.frame = .idle)
    (hpresent : s.pumps pump ≠ .absent) (timer : TimerId) :
    Sound [] (s.runTimerCallback pump timer) := by
  have hensured : pump = .ensured → s.pumps .ensured ≠ .absent := by
    rintro rfl
    exact hpresent
  unfold Wrapper.runTimerCallback
  by_cases hmem : timer ∈ s.timerCallbacks
  · rw [if_pos hmem]
    have hset : Sound [.pump pump] (({ s with
        timerCallbacks := s.timerCallbacks.filter (· ≠ timer) } : Wrapper).setPump pump
          (.awaitingCallback timer)) := by
      apply (hs.forget timer).setPump hensured (by simp) (by simp)
      · exact fun h => by cases h
      · rintro _ ⟨⟩
        exact ⟨by simp, Wrapper.lt_length_of_isPending (hs.pending timer hmem)⟩
      · exact fun _ h => absurd h (Wrapper.frame_ne_callback hframe)
      · exact fun _ _ _ => rfl
    apply (hset.setFrame (.callback pump timer) _).dropPump
    · intro h
      simp [Wrapper.setPump, PumpStage.queued] at h
    · rintro _ _ ⟨⟩
      exact Function.update_self ..
  · rw [if_neg hmem]
    refine Sound.dropPump ?_ fun _ => pump_mem_resumePump
    apply (hs.modifyTimer hmem _).resumePump hensured (by simp) (by simp)
    · exact fun _ h => by cases h
    · exact fun _ => Wrapper.frame_ne_callback hframe
    · exact fun _ _ _ => rfl

/-- The ensured pump resets its promise. -/
lemma Sound.reset (hs : Sound [.pump .ensured] s) (hstage : s.pumps .ensured = .caught) :
    Sound [] ((({ s with pumpPromise := false } : Wrapper).setPump .ensured .absent).enqueue
      (.settle 2 s.generation)) := by
  have hnotMem : ∀ other, other ≠ .pump .ensured → other ∈ [.pump .ensured] ++ s.jobs →
      other ∈ s.jobs ++ [.settle 2 s.generation] := by
    intro other hne hmem
    simp only [List.cons_append, List.nil_append, List.mem_cons] at hmem
    exact List.mem_append_left _ (hmem.resolve_left hne)
  constructor
  case pumpJob =>
    intro pump h
    cases pump with
    | ensured => cases h
    | drain => exact hnotMem _ (by simp) (hs.pumpJob .drain h)
  case mainJob => exact fun h => hnotMem _ (by simp) (hs.mainJob h)
  case promise => simp [Wrapper.setPump, Wrapper.enqueue]
  case drainPump => exact hs.drainPump
  case pending => exact hs.pending
  case called =>
    intro pump timer h
    cases pump with
    | ensured => cases h
    | drain => exact hs.called .drain timer h
  case frame =>
    intro pump timer h
    have hcallback := hs.frame pump timer h
    cases pump with
    | ensured =>
      rw [hstage] at hcallback
      cases hcallback
    | drain => exact hcallback
  case racing =>
    intro hmain hne
    have hleaving := (hs.racing hmain hne).2
    rw [hstage] at hleaving
    cases hleaving
  case awaitingPump =>
    intro generation h
    obtain ⟨rfl, -⟩ | ⟨hops, hjob⟩ := hs.awaitingPump generation h
    · exact .inr ⟨2, by simp [Wrapper.enqueue]⟩
    · exact .inr ⟨hops, hnotMem _ (by simp) hjob⟩
  case draining => exact hs.draining

/-- The promise of the loop of a pump has settled. -/
lemma Sound.pumpLeft {ok : Bool} (hs : Sound [.pump pump] s) (hstage : s.pumps pump = .left ok) :
    Sound [] (s.pumpLeft pump ok) := by
  have hframe : ∀ timer, s.frame ≠ .callback pump timer := by
    intro timer h
    have hcallback := hs.frame pump timer h
    rw [hstage] at hcallback
    cases hcallback
  cases pump with
  | drain =>
    have hset : Sound [.pump .drain]
        ((({ s with main := .finishing } : Wrapper).enqueue .main).setPump .drain .absent) := by
      apply (hs.resumeMain .finishing rfl).setPump (by simp) _ (by simp)
      · exact fun h => by cases h
      · exact fun _ h => by cases h
      · exact fun timer h => absurd h (hframe timer)
      · exact fun h => by cases h
      · exact fun _ => ⟨rfl, fun h => by cases h⟩
    exact hset.dropPump fun h => by cases h
  | ensured =>
    have hpresent : s.pumps .ensured ≠ .absent := by
      rw [hstage]
      simp
    refine Sound.dropPump ?_ fun _ => pump_mem_resumePump
    cases ok with
    | true =>
      apply hs.resumePump (fun _ => hpresent) (by simp) (by simp)
      · exact fun _ h => by cases h
      · exact hframe
      · intro _ hmain hne
        have hleaving := (hs.racing hmain hne).2
        rw [hstage] at hleaving
        cases hleaving
    | false =>
      have hfailed : Sound [.pump .ensured] { s with pumpFailure := true } := { hs with }
      apply (hfailed.settleRace false).resumePump (fun _ => ?_) (by simp) (by simp)
      · exact fun _ h => by cases h
      · simpa using hframe
      · exact fun _ hmain => absurd hmain (settleRace_main_ne_racing false)
      · simpa using hpresent

lemma Sound.runPump (hs : Sound [.pump pump] s) (hframe : s.frame = .idle) :
    Sound [] (s.runPump pump) := by
  unfold Wrapper.runPump
  have hidle : ∀ timer, s.frame ≠ .callback pump timer :=
    fun _ => Wrapper.frame_ne_callback hframe
  have hpresent : s.pumps pump ≠ .absent → pump = .ensured → s.pumps .ensured ≠ .absent := by
    rintro h rfl
    exact h
  cases hstage : s.pumps pump with
  | absent | awaitingEvent | awaitingCallback =>
    apply hs.dropPump
    rw [hstage]
    exact fun h => by cases h
  | resumed event =>
    have hpresent := hpresent (by simp [hstage])
    cases event with
    | due timer => exact hs.runTimerCallback hframe (by simp [hstage]) timer
    | idle =>
      refine Sound.dropPump ?_ fun _ => pump_mem_resumePump
      apply hs.resumePump hpresent (by simp) (by simp)
      · exact fun _ h => by cases h
      · exact hidle
      · rintro rfl hmain hne
        -- a pump that has been told that there is no timer has found none
        have hleaving := (hs.racing hmain hne).2
        rw [hstage] at hleaving
        cases hleaving
    | cancelled | disconnected =>
      refine Sound.dropPump ?_ fun _ => pump_mem_resumePump
      apply hs.resumePump hpresent (by simp) (by simp)
      · exact fun _ h => by cases h
      · exact hidle
      · exact fun _ _ _ => rfl
  | callbackSettled timer ok =>
    have hcalled := hs.called pump timer (by simp [hstage, PumpStage.called])
    refine Sound.dropPump ?_ fun _ => pump_mem_resumePump
    apply (hs.modifyTimer hcalled.1 _).resumePump (hpresent (by simp [hstage])) (by simp) (by simp)
    · exact fun _ h => by cases h
    · exact hidle
    · exact fun _ _ _ => rfl
  | callbackDone ok =>
    have hpresent := hpresent (by simp [hstage])
    cases ok with
    | true => exact (hs.runTimerPump hframe hpresent).dropPump pump_mem_runTimerPump
    | false =>
      refine Sound.dropPump ?_ fun _ => pump_mem_resumePump
      apply hs.resumePump hpresent (by simp) (by simp)
      · exact fun _ h => by cases h
      · exact hidle
      · exact fun _ _ _ => rfl
  | left ok => exact hs.pumpLeft hstage
  | caught =>
    cases pump with
    | ensured => exact hs.reset hstage
    | drain => exact absurd hstage hs.drainPump

lemma runTimerPump_setMain (main : MainStage) :
    ({ s with main := main } : Wrapper).runTimerPump pump =
      { s.runTimerPump pump with main := main } := by
  unfold Wrapper.runTimerPump
  by_cases hnil : s.timerCallbacks = []
  · rw [if_pos hnil, if_pos hnil]
    rfl
  · rw [if_neg hnil, if_neg hnil]
    rfl

/-- The wrapper runs a pump of its own, or gives up. -/
lemma Sound.drainTimers (hs : Sound [job] s) (hjob : ∀ pump, job ≠ .pump pump)
    (hframe : s.frame = .idle) : Sound [] s.drainTimers := by
  unfold Wrapper.drainTimers
  by_cases hfailure : s.pumpFailure = true
  · rw [if_pos hfailure]
    apply (hs.resumeMain .finishing rfl).drop
    · exact fun pump heq => absurd heq (hjob pump)
    · exact fun _ _ => by simp [Wrapper.enqueue]
    · exact fun _ _ _ h => by cases h
  · rw [if_neg hfailure, runTimerPump_setMain]
    have hrun : Sound [job] (s.runTimerPump .drain) := hs.runTimerPump hframe (by simp)
    apply (hrun.setMain .draining (by simp) (fun h => by cases h) (fun _ h => by cases h)
      (fun _ => runTimerPump_pumps_ne_absent)).drop
    · exact fun pump heq => absurd heq (hjob pump)
    · exact fun _ h => by cases h
    · exact fun _ _ _ h => by cases h

/-- The job of the wrapper is over, and its next one is in the queue. -/
lemma Sound.dropMain (hs : Sound [.main] s) (hjob : s.main.queued = true → .main ∈ s.jobs) :
    Sound [] s := by
  apply hs.drop
  · exact fun _ h => by cases h
  · exact fun _ => hjob
  · exact fun _ _ h => by cases h

lemma Sound.complete (hs : Sound [.main] s) : Sound [] { s with main := .completed } :=
  (hs.setMain .completed (by simp) (fun h => by cases h) (fun _ h => by cases h)
    (fun h => by cases h)).dropMain fun h => by cases h

lemma Sound.runMain (hs : Sound [.main] s) (hframe : s.frame = .idle) : Sound [] s.runMain := by
  unfold Wrapper.runMain
  cases hmain : s.main with
  | racing | awaitingPump | draining | completed =>
    apply hs.dropMain
    rw [hmain]
    exact fun h => by cases h
  | finishing => exact hs.complete
  | resuming hops ok =>
    cases hops with
    | succ hops => exact (hs.resumeMain _ rfl).dropMain fun _ => by simp [Wrapper.enqueue]
    | zero =>
      cases ok with
      | false => exact hs.complete
      | true =>
        show Sound [] s.waitForPendingTimers
        unfold Wrapper.waitForPendingTimers
        by_cases hpromise : s.pumpPromise = true
        · rw [if_pos hpromise]
          apply (hs.setMain (.awaitingPump s.generation) (by simp) (fun h => by cases h) _
            (fun h => by cases h)).dropMain fun h => by cases h
          rintro _ ⟨⟩
          exact ⟨rfl, hs.promise.mp hpromise⟩
        · rw [if_neg hpromise]
          exact hs.drainTimers (by simp) hframe

lemma Sound.runJob (hs : Sound [job] s) (hframe : s.frame = .idle) : Sound [] (s.runJob job) := by
  cases job with
  | user =>
    apply (hs.setFrame .user fun _ _ h => by cases h).drop
    · exact fun _ h => by cases h
    · exact fun h => by cases h
    · exact fun _ _ h => by cases h
  | pump pump => exact hs.runPump hframe
  | main => exact hs.runMain hframe
  | settle hops generation =>
    cases hops with
    | succ hops =>
      apply (hs.enqueue (.settle hops generation)).drop
      · exact fun _ h => by cases h
      · exact fun h => by cases h
      · rintro _ _ ⟨⟩ -
        exact ⟨hops, by simp [Wrapper.enqueue]⟩
    | zero =>
      show Sound [] (if s.main = .awaitingPump generation then s.drainTimers else s)
      by_cases hmain : s.main = .awaitingPump generation
      · rw [if_pos hmain]
        exact hs.drainTimers (by simp) hframe
      · rw [if_neg hmain]
        apply hs.drop
        · exact fun _ h => by cases h
        · exact fun h => by cases h
        · rintro _ _ ⟨⟩ h
          exact absurd h hmain

/-! ### Steps -/

lemma Sound.leaveCallback (hs : Sound [] s) (hframe : s.frame = .callback pump timer)
    (result : CallbackResult) :
    Sound [] (TimerPump.leaveCallback { s with frame := .idle } pump timer result) := by
  have hstage := hs.frame pump timer hframe
  have hcalled := hs.called pump timer (by simp [hstage, PumpStage.called])
  have hpresent : pump = .ensured → s.pumps .ensured ≠ .absent := by
    rintro rfl
    simp [hstage]
  have hidle := hs.setFrame .idle fun _ _ h => by cases h
  cases result with
  | settled ok =>
    apply hidle.resumePump hpresent (by simp) (by simp)
    · rintro _ ⟨⟩
      exact hcalled
    · exact fun _ h => by cases h
    · exact fun _ _ _ => rfl
  | threw =>
    apply (hidle.modifyTimer hcalled.1 _).resumePump hpresent (by simp) (by simp)
    · exact fun _ h => by cases h
    · exact fun _ h => by cases h
    · exact fun _ _ _ => rfl
  | pending => exact hidle

/-- The host tells a pump that there is no timer only when no callback is registered. -/
lemma Sound.timerCallbacks_eq_nil_of_idle (hs : Sound running s)
    (hidle : s.mayAnswer .idle = true) : s.timerCallbacks = [] := by
  refine List.eq_nil_iff_forall_not_mem.mpr fun timer hmem => ?_
  have hpending := hs.pending timer hmem
  have hnone := List.all_eq_true.mp hidle timer
    (List.mem_range.mpr (Wrapper.lt_length_of_isPending hpending))
  simp [hpending] at hnone

lemma Sound.nextTimerEvent (hs : Sound [] s) (hframe : s.frame = .idle) {event : TimerEvent}
    (hstage : s.pumps pump = .awaitingEvent) (hanswer : s.mayAnswer event = true) :
    Sound [] (s.resumePump pump (.resumed event)) := by
  apply hs.resumePump _ (by simp) (by simp)
  · exact fun _ h => by cases h
  · exact fun _ => Wrapper.frame_ne_callback hframe
  · intro _ _ hne
    cases event with
    | idle => exact absurd (hs.timerCallbacks_eq_nil_of_idle hanswer) hne
    | due | cancelled | disconnected => rfl
  · rintro rfl
    simp [hstage]

lemma Sound.settleCallback (hs : Sound [] s) {ok : Bool}
    (hstage : s.pumps pump = .awaitingCallback timer) (hframe : s.frame ≠ .callback pump timer) :
    Sound [] (s.resumePump pump (.callbackSettled timer ok)) := by
  apply hs.resumePump _ (by simp) (by simp)
  · rintro _ ⟨⟩
    exact hs.called pump timer (by simp [hstage, PumpStage.called])
  · intro other h
    have hother := hs.frame pump other h
    rw [hstage] at hother
    cases hother
    exact hframe h
  · exact fun _ _ _ => rfl
  · rintro rfl
    simp [hstage]

/-- Every step preserves the invariant, unless a timer is set behind the back of the ensured pump
while the user program runs. -/
theorem Sound.step (hs : Sound [] s)
    (hlook : label = .setTimeout → s.main = .racing → (s.pumps .ensured).leaving = false)
    (h : wrapperStep s label = some s') : Sound [] s' := by
  unfold wrapperStep at h
  by_cases hmain : s.main = .completed
  · rw [if_pos hmain] at h
    cases h
  rw [if_neg hmain] at h
  cases label with
  | runJob =>
    cases hframe : s.frame with
    | idle =>
      cases hjobs : s.jobs with
      | nil => simp [hframe, hjobs] at h
      | cons job jobs =>
        simp only [hframe, hjobs, Option.some.injEq] at h
        subst h
        simpa only [hframe] using (hs.pop hjobs).runJob hframe
    | user | callback => simp [hframe] at h
  | setTimeout =>
    cases hframe : s.frame with
    | idle => simp [hframe] at h
    | user | callback =>
      simp only [hframe, Option.some.injEq] at h
      subst h
      exact hs.setTimeout (hlook rfl)
  | clearTimeout timer =>
    cases hframe : s.frame with
    | idle => simp [hframe] at h
    | user | callback =>
      simp only [hframe, Option.some.injEq] at h
      subst h
      exact hs.clearTimeout timer
  | queueContinuation =>
    cases hframe : s.frame with
    | idle => simp [hframe] at h
    | user | callback =>
      simp only [hframe, Option.some.injEq] at h
      subst h
      exact hs.enqueue .user
  | settleCallback pump ok =>
    cases hstage : s.pumps pump with
    | awaitingCallback timer =>
      cases hframe : s.frame with
      | idle => simp [hframe] at h
      | user | callback =>
        simp only [hframe, hstage] at h
        split at h
        · cases h
        · rename_i hother
          cases h
          exact hs.settleCallback hstage (hframe ▸ hother)
    | _ => cases hframe : s.frame <;> simp [hframe, hstage] at h
  | finishProgram ok =>
    cases hframe : s.frame with
    | idle => simp [hframe] at h
    | user | callback =>
      simp only [hframe, Option.some.injEq] at h
      subst h
      exact hs.settleRace ok
  | leaveUser =>
    cases hframe : s.frame with
    | user =>
      simp only [hframe, Option.some.injEq] at h
      subst h
      exact hs.setFrame .idle fun _ _ h => by cases h
    | idle | callback => simp [hframe] at h
  | leaveCallback result =>
    cases hframe : s.frame with
    | callback pump timer =>
      simp only [hframe, Option.some.injEq] at h
      subst h
      exact hs.leaveCallback hframe result
    | idle | user => simp [hframe] at h
  | nextTimerEvent pump event =>
    cases hframe : s.frame with
    | idle =>
      simp only [hframe] at h
      split at h
      · rename_i hguard
        cases h
        exact hs.nextTimerEvent hframe hguard.1 hguard.2
      · cases h
    | user | callback => simp [hframe] at h
  | toolResult =>
    cases hframe : s.frame with
    | idle =>
      simp only [hframe, Option.some.injEq] at h
      subst h
      exact hs.enqueue .user
    | user | callback => simp [hframe] at h

/-- In a quiescent state a registered callback has a pump that awaits the host or a callback. -/
lemma Sound.exists_waiting (hs : Sound [] s) (hquiet : s.Quiescent) (hne : s.timerCallbacks ≠ [])
    (hmain : s.main ≠ .completed) :
    ∃ pump, s.pumps pump = .awaitingEvent ∨ ∃ timer, s.pumps pump = .awaitingCallback timer := by
  obtain ⟨-, hjobs⟩ := hquiet
  -- a pump that is there and has no job waits for something
  have hwaits : ∀ pump, s.pumps pump ≠ .absent →
      s.pumps pump = .awaitingEvent ∨ ∃ timer, s.pumps pump = .awaitingCallback timer := by
    intro pump hpresent
    have hnone : (s.pumps pump).queued ≠ true := by
      intro hqueued
      have hjob := hs.pumpJob pump hqueued
      rw [hjobs] at hjob
      cases hjob
    cases hstage : s.pumps pump with
    | absent => exact absurd hstage hpresent
    | awaitingEvent => exact .inl rfl
    | awaitingCallback timer => exact .inr ⟨timer, rfl⟩
    | _ =>
      rw [hstage] at hnone
      exact absurd rfl hnone
  have hnoMain : s.main.queued ≠ true := by
    intro hqueued
    have hjob := hs.mainJob hqueued
    rw [hjobs] at hjob
    cases hjob
  cases hstage : s.main with
  | racing => exact ⟨.ensured, hwaits _ (hs.racing hstage hne).1⟩
  | awaitingPump generation =>
    obtain ⟨-, hpresent⟩ | ⟨hops, hjob⟩ := hs.awaitingPump generation hstage
    · exact ⟨.ensured, hwaits _ hpresent⟩
    · rw [hjobs] at hjob
      cases hjob
  | draining => exact ⟨.drain, hwaits _ (hs.draining hstage)⟩
  | completed => exact absurd hstage hmain
  | resuming | finishing =>
    rw [hstage] at hnoMain
    exact absurd rfl hnoMain

/-- The invariant holds wherever a run gets along which no timer is set behind the back of the
ensured pump. -/
lemma Undisturbed.sound {labels done rest : List WrapperLabel} (h : Undisturbed labels)
    (hsplit : labels = done ++ rest) (hrun : run wrapperStep {} done = some s) : Sound [] s := by
  refine run_invariant_of_along (Sound [])
    (P := fun s label => label = .setTimeout → s.main = .racing →
      (s.pumps .ensured).leaving = false)
    (fun _ _ _ hs hlook hstep => hs.step hlook hstep) sound_initial ?_ hrun
  rw [along_iff_forall_split hrun]
  rintro pre _ post before rfl hbefore rfl hmain
  exact h.inTime pre (post ++ rest) before (by simp [hsplit]) hbefore hmain

end Invariant

/-! ## The result -/

/-- No wake-up is lost, if no timer is set while the ensured pump is leaving and no pump is kept
from the host by a callback. -/
theorem neverLosesWakeUp_of_undisturbed {labels : List WrapperLabel} (h : Undisturbed labels) :
    NeverLosesWakeUp labels := by
  intro done rest s hsplit hrun hquiet hne hmain
  have hs := h.sound hsplit hrun
  obtain ⟨pump, hevent | ⟨timer, hcallback⟩⟩ := hs.exists_waiting hquiet hne hmain
  · exact ⟨pump, hevent⟩
  · obtain ⟨other, -, hevent⟩ :=
      h.settled done rest s hsplit hrun hquiet hne hmain pump timer hcallback
    exact ⟨other, hevent⟩

section Runs

variable {labels : List WrapperLabel}

/-- A check of every state that a run goes through. -/
lemma undisturbed_of_inits
    (h : labels.inits.all fun done => (run wrapperStep {} done).all fun s =>
      !(s.pumps .ensured).leaving && (s.frame != .idle || s.jobs != [] ||
        (s.pumps .ensured).called.isNone && (s.pumps .drain).called.isNone)) :
    Undisturbed labels := by
  have hcheck : ∀ done rest s, labels = done ++ rest → run wrapperStep {} done = some s →
      (s.pumps .ensured).leaving = false ∧
        (s.frame = .idle → s.jobs = [] → ∀ pump, (s.pumps pump).called = none) := by
    intro done rest s hsplit hrun
    have hmem : done ∈ labels.inits := (List.mem_inits _ _).mpr ⟨rest, hsplit.symm⟩
    have hdone := List.all_eq_true.mp h done hmem
    simp only [hrun, Option.all_some, Bool.and_eq_true, Bool.or_eq_true, Bool.not_eq_true',
      bne_iff_ne, Option.isNone_iff_eq_none] at hdone
    obtain ⟨hleaving, hcalled⟩ := hdone
    refine ⟨hleaving, fun hframe hjobs pump => ?_⟩
    obtain ⟨hensured, hdrain⟩ := hcalled.resolve_left (by simp [hframe, hjobs])
    cases pump with
    | ensured => exact hensured
    | drain => exact hdrain
  constructor
  case inTime => exact fun done rest s hsplit hrun _ => (hcheck done _ s hsplit hrun).1
  case settled =>
    intro done rest s hsplit hrun hquiet _ _ pump timer hstage
    have hnone := (hcheck done rest s hsplit hrun).2 hquiet.1 hquiet.2 pump
    rw [hstage] at hnone
    cases hnone

/-- Two timers in a row. -/
theorem neverLosesWakeUp_of_undisturbed_twice :
    NeverLosesWakeUp [.setTimeout, .leaveUser, .nextTimerEvent .ensured (.due 0), .runJob,
      .queueContinuation, .leaveCallback (.settled true), .runJob, .setTimeout, .leaveUser,
      .runJob, .runJob, .nextTimerEvent .ensured (.due 1), .runJob] :=
  neverLosesWakeUp_of_undisturbed (undisturbed_of_inits (by decide))

/-- `await sleep(0); await null; await null; await sleep(0)`, where `sleep` is the promise that a
timer resolves: the second timer is set when the loop of the pump is over and its promise is still
there. -/
def lateTimer : List WrapperLabel :=
  [.setTimeout, .leaveUser, .nextTimerEvent .ensured (.due 0), .runJob, .queueContinuation,
    .leaveCallback (.settled true), .runJob, .queueContinuation, .leaveUser, .runJob, .runJob,
    .queueContinuation, .leaveUser, .runJob, .runJob, .setTimeout, .leaveUser, .runJob, .runJob,
    .runJob, .runJob, .runJob]

/-- `setTimeout(async () => { await sleep(0) }, 0)`: the pump waits for the callback, and the
callback for the pump. -/
def nestedTimer : List WrapperLabel :=
  [.setTimeout, .leaveUser, .nextTimerEvent .ensured (.due 0), .runJob, .setTimeout,
    .leaveCallback .pending]

lemma not_neverLosesWakeUp_of_run
    (h : (run wrapperStep {} labels).any fun s =>
      s.frame == .idle && s.jobs == [] && s.timerCallbacks != [] && s.main == .racing &&
        s.pumps .ensured != .awaitingEvent && s.pumps .drain != .awaitingEvent) :
    ¬ NeverLosesWakeUp labels := by
  intro hnever
  obtain ⟨s, hrun, hs⟩ := (Option.any_eq_true ..).mp h
  simp only [Bool.and_eq_true, beq_iff_eq, bne_iff_ne] at hs
  obtain ⟨⟨⟨⟨⟨hframe, hjobs⟩, hne⟩, hmain⟩, hensured⟩, hdrain⟩ := hs
  obtain ⟨pump, hevent⟩ :=
    hnever labels [] s (by simp) hrun ⟨hframe, hjobs⟩ hne (by simp [hmain])
  cases pump with
  | ensured => exact hensured hevent
  | drain => exact hdrain hevent

theorem not_neverLosesWakeUp :
    ¬ NeverLosesWakeUp lateTimer ∧ ¬ NeverLosesWakeUp nestedTimer :=
  ⟨not_neverLosesWakeUp_of_run (by decide), not_neverLosesWakeUp_of_run (by decide)⟩

end Runs

end RustyClaw.CodeMode.TimerPump
