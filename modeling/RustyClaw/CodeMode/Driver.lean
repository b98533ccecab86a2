import Mathlib.Tactic.Set
import RustyClaw.CodeMode.Cell
import RustyClaw.Library.Transition

/-!
# Collecting driver updates

`CellDriver::next_update` collects the events of the worker in a buffer that lives only as long
as the call, and hands them over at the first event that ends a batch.  This file runs the driver
against its channel: the worker sends events and hangs up, the host calls `next_update` with
or without an idle timeout, and a running call takes events, waits, times out or finds the
channel closed.  The order of these moves is the interleaving of the worker's thread with the
host task.

What an update is for is stated as `Lossless`: the events of everything returned so far, and
then the buffer of the running call, are the events received so far.  A call that ends a batch
hands its buffer over.  The three other exits do not: an idle timeout returns an update
with no events, and a failed worker or a closed channel end the call with an error, so each of
them forgets the events of the batch it interrupts (`lossless_iff_bufferEmpty`).

`Cell.nextUpdate` is the same call read in one piece; `run_next_update` connects the two.
-/

namespace RustyClaw.CodeMode

open Transition

variable {V : Type}

/-! ## The driver and its channel -/

/-- How a call of `next_update` ends: with an update, with the error of a worker that
failed, or with the error for a closed channel, which depends on the cancel flag. -/
inductive DriverReturn (V : Type) where
  | updated (update : DriverUpdate V)
  | workerFailed (error : ToolError)
  | channelClosed (cancelled : Bool)

def DriverReturn.result : DriverReturn V → Except ToolError (DriverUpdate V)
  | .updated update => .ok update
  | .workerFailed error => .error error
  | .channelClosed true => .error (.executionFailed "Code mode cell execution was cancelled.")
  | .channelClosed false => .error (.executionFailed "Worker thread unexpectedly terminated.")

/-- The completion of the worker is not one of the events of an update: the status of the
last update stands for it. -/
def CellStatus.completion : CellStatus V → List (RuntimeEvent V)
  | .terminal result => [.workerCompleted (.ok result)]
  | _ => []

/-- The events the end of a call tells the host about. -/
def DriverReturn.events : DriverReturn V → List (RuntimeEvent V)
  | .updated update => update.events ++ update.status.completion
  | .workerFailed (.executionFailed message) => [.workerCompleted (.error message)]
  | .workerFailed _ | .channelClosed _ => []

/-- A running call of `next_update`: its `idle_timeout`, its `events`, and whether it has
drained the channel and waits. -/
structure DriverCall (V : Type) where
  idleTimeout : Option Nat
  events : List (RuntimeEvent V)
  waiting : Bool

/-- The driver with the worker's end of the channel; `received` and `returned` are what has
happened so far. -/
structure DriverState (V : Type) where
  channel : List (RuntimeEvent V)
  closed : Bool
  cancelFlag : Bool
  call : Option (DriverCall V)
  received : List (RuntimeEvent V)
  returned : List (DriverReturn V)

namespace DriverState

/-- A driver before its worker has sent anything. -/
def start : DriverState V :=
  { channel := []
    closed := false
    cancelFlag := false
    call := none
    received := []
    returned := [] }

def finish (s : DriverState V) (result : DriverReturn V) : DriverState V :=
  { s with call := none, returned := s.returned ++ [result] }

def buffer (s : DriverState V) : List (RuntimeEvent V) :=
  match s.call with
  | some call => call.events
  | none => []

def handedOver (s : DriverState V) : List (RuntimeEvent V) :=
  s.returned.flatMap DriverReturn.events

/-- What the updates carried and what is still buffered are the events received, in order. -/
def Lossless (s : DriverState V) : Prop := s.handedOver ++ s.buffer = s.received

@[simp] lemma finish_buffer (s : DriverState V) (result : DriverReturn V) :
    (s.finish result).buffer = [] := rfl
@[simp] lemma finish_received (s : DriverState V) (result : DriverReturn V) :
    (s.finish result).received = s.received := rfl
@[simp] lemma finish_handedOver (s : DriverState V) (result : DriverReturn V) :
    (s.finish result).handedOver = s.handedOver ++ result.events := by
  simp [handedOver, finish]

lemma lossless_finish_iff (s : DriverState V) (result : DriverReturn V) :
    (s.finish result).Lossless ↔ s.handedOver ++ result.events = s.received := by
  rw [Lossless, finish_handedOver, finish_buffer, List.append_nil, finish_received]

end DriverState

/-! ## The moves -/

inductive DriverMove (V : Type) where
  /-- The worker sends an event. -/
  | emit (event : RuntimeEvent V)
  /-- The last sender of the channel is dropped. -/
  | hangUp
  | requestCancel
  | nextUpdate (idleTimeout : Option Nat)
  /-- The call receives the next event, by `try_recv` or by `recv`. -/
  | receive
  /-- The call finds the channel empty and waits. -/
  | wait
  /-- The idle timeout of the waiting call fires, whether or not an event has come by then. -/
  | idle
  /-- The waiting call learns that no event can come any more. -/
  | disconnected

/-- The running call has `event` classified. -/
def receiveEvent (s : DriverState V) (call : DriverCall V) (event : RuntimeEvent V) :
    DriverState V :=
  let s := { s with received := s.received ++ [event] }
  match classifyEvent call.events event with
  | .error error => s.finish (.workerFailed error)
  | .ok (_, some update) => s.finish (.updated update)
  | .ok (events, none) => { s with call := some { call with events := events, waiting := false } }

def driverStep (s : DriverState V) : DriverMove V → Option (DriverState V)
  | .emit event =>
    if s.closed then none else some { s with channel := s.channel ++ [event] }
  | .hangUp => some { s with closed := true }
  | .requestCancel => some { s with cancelFlag := true }
  | .nextUpdate idleTimeout =>
    match s.call with
    | some _ => none
    | none =>
      some { s with call := some { idleTimeout := idleTimeout, events := [], waiting := false } }
  | .receive =>
    match s.call, s.channel with
    | some call, event :: channel => some (receiveEvent { s with channel := channel } call event)
    | _, _ => none
  | .wait =>
    match s.call, s.channel with
    | some call, [] => some { s with call := some { call with waiting := true } }
    | _, _ => none
  | .idle =>
    match s.call with
    | some call =>
      if call.waiting ∧ call.idleTimeout.isSome then
        some (s.finish (.updated { events := [], status := .idle }))
      else none
    | none => none
  | .disconnected =>
    match s.call, s.channel with
    | some call, [] =>
      if call.waiting ∧ s.closed then some (s.finish (.channelClosed s.cancelFlag)) else none
    | _, _ => none

/-! ## What a received event becomes -/

lemma classifyEvent_update {events rest : List (RuntimeEvent V)} {event : RuntimeEvent V}
    {update : DriverUpdate V} (h : classifyEvent events event = .ok (rest, some update)) :
    update.events ++ update.status.completion = events ++ [event] := by
  cases event with
  | text | notification | toolCallDone => cases h
  | flush | waitingForTimer | toolCallRequested =>
    cases h
    exact List.append_nil _
  | workerCompleted result =>
    cases result with
    | error => cases h
    | ok =>
      cases h
      rfl

lemma classifyEvent_collect {events rest : List (RuntimeEvent V)} {event : RuntimeEvent V}
    (h : classifyEvent events event = .ok (rest, none)) : rest = events ++ [event] := by
  cases event with
  | text | notification | toolCallDone =>
    cases h
    rfl
  | flush | waitingForTimer | toolCallRequested => cases h
  | workerCompleted result => cases result <;> cases h

/-- Only a failed worker makes the classification fail. -/
lemma classifyEvent_error {events : List (RuntimeEvent V)} {event : RuntimeEvent V}
    {error : ToolError} (h : classifyEvent events event = .error error) :
    ∃ message, event = .workerCompleted (.error message) ∧ error = .executionFailed message := by
  cases event with
  | text | notification | toolCallDone | flush | waitingForTimer | toolCallRequested => cases h
  | workerCompleted result =>
    cases result with
    | ok => cases h
    | error message =>
      cases h
      exact ⟨message, rfl, rfl⟩

section

variable {s : DriverState V} {call : DriverCall V} {event : RuntimeEvent V}

lemma receiveEvent_error {error : ToolError}
    (h : classifyEvent call.events event = .error error) :
    receiveEvent s call event =
      { s with received := s.received ++ [event] }.finish (.workerFailed error) := by
  simp only [receiveEvent, h]

lemma receiveEvent_update {events : List (RuntimeEvent V)} {update : DriverUpdate V}
    (h : classifyEvent call.events event = .ok (events, some update)) :
    receiveEvent s call event =
      { s with received := s.received ++ [event] }.finish (.updated update) := by
  simp only [receiveEvent, h]

lemma receiveEvent_collect {events : List (RuntimeEvent V)}
    (h : classifyEvent call.events event = .ok (events, none)) :
    receiveEvent s call event =
      { s with
        received := s.received ++ [event]
        call := some { call with events := events, waiting := false } } := by
  simp only [receiveEvent, h]

end

/-- Handing over and buffering account for the received event, unless it is the failure of
the worker and finds events in the buffer. -/
lemma lossless_receiveEvent {s : DriverState V} {call : DriverCall V} (hcall : s.call = some call)
    (hs : s.Lossless) (event : RuntimeEvent V) :
    (receiveEvent s call event).Lossless ↔
      ∀ message, event = .workerCompleted (.error message) → call.events = [] := by
  have hbuffer : s.buffer = call.events := by simp [DriverState.buffer, hcall]
  have hs : s.handedOver ++ call.events = s.received := hbuffer ▸ hs
  cases hclass : classifyEvent call.events event with
  | error error =>
    obtain ⟨message, rfl, rfl⟩ := classifyEvent_error hclass
    rw [receiveEvent_error hclass]
    have hiff : s.handedOver ++ [RuntimeEvent.workerCompleted (.error message)] =
        s.received ++ [.workerCompleted (.error message)] ↔ call.events = [] := by
      rw [← hs, List.append_left_inj, List.self_eq_append_right]
    refine (DriverState.lossless_finish_iff _ _).trans (hiff.trans ?_)
    simp
  | ok outcome =>
    obtain ⟨rest, _ | update⟩ := outcome
    · rw [receiveEvent_collect hclass]
      obtain rfl := classifyEvent_collect hclass
      refine iff_of_true ?_ ?_
      · show s.handedOver ++ (call.events ++ [event]) = s.received ++ [event]
        rw [← hs, List.append_assoc]
      · rintro message rfl
        cases hclass
    · rw [receiveEvent_update hclass]
      have hcarried := classifyEvent_update hclass
      refine iff_of_true ?_ ?_
      · refine (DriverState.lossless_finish_iff _ _).mpr ?_
        show s.handedOver ++ (update.events ++ update.status.completion) = s.received ++ [event]
        rw [hcarried, ← hs, List.append_assoc]
      · rintro message rfl
        cases hclass

/-! ## Losing no event -/

/-- The exits that forget the buffer are only taken with an empty one: the idle timeout, a
worker that failed, and a closed channel. -/
def BufferEmptyAtExit (s : DriverState V) : DriverMove V → Prop
  | .receive =>
    ∀ message channel, s.channel = .workerCompleted (.error message) :: channel → s.buffer = []
  | .idle | .disconnected => s.buffer = []
  | _ => True

/-- A call that ends without carrying events forgets its buffer. -/
lemma lossless_finish {s : DriverState V} (hs : s.Lossless) {result : DriverReturn V}
    (hresult : result.events = []) : (s.finish result).Lossless ↔ s.buffer = [] := by
  rw [DriverState.lossless_finish_iff, hresult, List.append_nil, ← hs,
    List.self_eq_append_right]

lemma lossless_step {s s' : DriverState V} {move : DriverMove V} (hs : s.Lossless)
    (hstep : driverStep s move = some s') : s'.Lossless ↔ BufferEmptyAtExit s move := by
  cases move with
  | emit event =>
    simp only [driverStep, Option.ite_none_left_eq_some, Option.some.injEq] at hstep
    obtain ⟨-, rfl⟩ := hstep
    exact iff_of_true hs trivial
  | hangUp | requestCancel =>
    cases hstep
    exact iff_of_true hs trivial
  | nextUpdate idleTimeout =>
    refine iff_of_true ?_ trivial
    cases hcall : s.call with
    | some call => simp [driverStep, hcall] at hstep
    | none =>
      simp only [driverStep, hcall, Option.some.injEq] at hstep
      subst hstep
      simpa [DriverState.Lossless, DriverState.buffer, DriverState.handedOver, hcall] using hs
  | receive =>
    cases hcall : s.call with
    | none => simp [driverStep, hcall] at hstep
    | some call =>
      cases hchannel : s.channel with
      | nil => simp [driverStep, hcall, hchannel] at hstep
      | cons event channel =>
        simp only [driverStep, hcall, hchannel, Option.some.injEq] at hstep
        subst hstep
        have hbuffer : s.buffer = call.events := by simp [DriverState.buffer, hcall]
        have hs' : ({ s with channel := channel, call := some call } : DriverState V).Lossless := by
          simpa [DriverState.Lossless, DriverState.buffer, DriverState.handedOver, hcall] using hs
        rw [lossless_receiveEvent rfl hs']
        simp only [BufferEmptyAtExit, hchannel, hbuffer, List.cons.injEq]
        constructor
        · rintro h message _ ⟨rfl, -⟩
          exact h message rfl
        · rintro h message rfl
          exact h message channel ⟨rfl, rfl⟩
  | wait =>
    refine iff_of_true ?_ trivial
    cases hcall : s.call with
    | none => simp [driverStep, hcall] at hstep
    | some call =>
      cases hchannel : s.channel with
      | cons event channel => simp [driverStep, hcall, hchannel] at hstep
      | nil =>
        simp only [driverStep, hcall, hchannel, Option.some.injEq] at hstep
        subst hstep
        simpa [DriverState.Lossless, DriverState.buffer, DriverState.handedOver, hcall] using hs
  | idle =>
    cases hcall : s.call with
    | none => simp [driverStep, hcall] at hstep
    | some call =>
      simp only [driverStep, hcall, Option.ite_none_right_eq_some, Option.some.injEq] at hstep
      obtain ⟨-, rfl⟩ := hstep
      exact lossless_finish hs rfl
  | disconnected =>
    cases hcall : s.call with
    | none => simp [driverStep, hcall] at hstep
    | some call =>
      cases hchannel : s.channel with
      | cons event channel => simp [driverStep, hcall, hchannel] at hstep
      | nil =>
        simp only [driverStep, hcall, hchannel, Option.ite_none_right_eq_some,
          Option.some.injEq] at hstep
        obtain ⟨-, rfl⟩ := hstep
        exact lossless_finish hs rfl

lemma lossless_start : (DriverState.start : DriverState V).Lossless := rfl

/-- Along a run of the driver no event is lost exactly when each exit that forgets the buffer
finds it empty. -/
theorem lossless_iff_bufferEmpty {moves : List (DriverMove V)} {t : DriverState V}
    (hrun : run driverStep .start moves = some t) :
    (∀ pre post u, moves = pre ++ post → run driverStep .start pre = some u → u.Lossless) ↔
      Along driverStep BufferEmptyAtExit .start moves :=
  forall_states_iff_along (fun _ => True) (fun _ _ _ _ _ => trivial)
    (fun _ _ _ _ hs hstep => lossless_step hs hstep) trivial lossless_start hrun

/-- A text and a flush, then a text that waits for its batch when the worker completes. -/
def completedRun : List (DriverMove Unit) :=
  [.emit (.text 0 "a"), .emit (.flush 1 none), .nextUpdate (some 100), .receive, .receive,
    .nextUpdate none, .wait, .emit (.text 2 "b"), .receive,
    .emit (.workerCompleted (.ok ⟨none, none, none, []⟩)), .receive]

theorem lossless_iff_bufferEmpty_completed :
    ∃ u, run driverStep .start completedRun = some u ∧ u.Lossless := by
  have hexits : Along driverStep BufferEmptyAtExit .start completedRun := by
    refine .cons trivial rfl <| .cons trivial rfl <| .cons trivial rfl <| .cons ?_ rfl <|
      .cons ?_ rfl <| .cons trivial rfl <| .cons trivial rfl <| .cons trivial rfl <|
      .cons ?_ rfl <| .cons trivial rfl <| .cons ?_ rfl trivial
    all_goals
      rintro message channel ⟨⟩
  have hsplit : completedRun = completedRun ++ [] := (List.append_nil _).symm
  exact ⟨_, rfl, (lossless_iff_bufferEmpty rfl).mpr hexits _ _ _ hsplit rfl⟩

/-- A text received before the idle timeout fires is in no update, and neither is one
received before the worker fails. -/
theorem not_lossless_idle :
    (∃ u : DriverState Unit, run driverStep .start
      [.nextUpdate (some 100), .emit (.text 0 "a"), .receive, .wait, .idle] = some u ∧
      ¬ u.Lossless) ∧
    ∃ u : DriverState Unit, run driverStep .start
      [.nextUpdate none, .emit (.text 0 "a"), .receive,
        .emit (.workerCompleted (.error "out of memory")), .receive] = some u ∧ ¬ u.Lossless :=
  ⟨⟨_, rfl, nofun⟩, ⟨_, rfl, nofun⟩⟩

def DriverMove.emitted : DriverMove V → List (RuntimeEvent V)
  | .emit event => [event]
  | _ => []

lemma received_append_channel_step {s s' : DriverState V} {move : DriverMove V}
    (hstep : driverStep s move = some s') :
    s'.received ++ s'.channel = s.received ++ s.channel ++ move.emitted := by
  cases move with
  | emit event =>
    simp only [driverStep, Option.ite_none_left_eq_some, Option.some.injEq] at hstep
    obtain ⟨-, rfl⟩ := hstep
    exact (List.append_assoc _ _ _).symm
  | hangUp | requestCancel =>
    cases hstep
    exact (List.append_nil _).symm
  | nextUpdate idleTimeout =>
    simp only [driverStep] at hstep
    split at hstep <;> cases hstep
    exact (List.append_nil _).symm
  | receive =>
    simp only [driverStep] at hstep
    split at hstep <;> cases hstep
    rename_i call event channel _ hchannel
    have hreceive (u : DriverState V) : (receiveEvent u call event).received ++
        (receiveEvent u call event).channel = u.received ++ event :: u.channel := by
      unfold receiveEvent
      split <;> exact List.append_assoc u.received [event] u.channel
    rw [hreceive, hchannel]
    exact (List.append_nil _).symm
  | wait =>
    simp only [driverStep] at hstep
    split at hstep <;> cases hstep
    exact (List.append_nil _).symm
  | idle =>
    simp only [driverStep] at hstep
    split at hstep
    · simp only [Option.ite_none_right_eq_some, Option.some.injEq] at hstep
      obtain ⟨-, rfl⟩ := hstep
      exact (List.append_nil _).symm
    · cases hstep
  | disconnected =>
    simp only [driverStep] at hstep
    split at hstep
    · simp only [Option.ite_none_right_eq_some, Option.some.injEq] at hstep
      obtain ⟨-, rfl⟩ := hstep
      exact (List.append_nil _).symm
    · cases hstep

/-- Receiving takes the events out of the channel in the order the worker has sent them. -/
lemma received_append_channel {moves : List (DriverMove V)} {s t : DriverState V}
    (hrun : run driverStep s moves = some t) :
    t.received ++ t.channel =
      s.received ++ s.channel ++ moves.flatMap DriverMove.emitted := by
  induction moves generalizing s with
  | nil =>
    cases hrun
    exact (List.append_nil _).symm
  | cons move moves ih =>
    obtain ⟨s', hstep, htail⟩ := run_cons_eq_some.mp hrun
    rw [ih htail, received_append_channel_step hstep, List.flatMap_cons, List.append_assoc]

/-! ## The call in one piece -/

/-- A call that drains the channel ends as `nextUpdate` says, and leaves in the channel what
it says. -/
lemma run_receive_of_nextUpdate {s : DriverState V} {call : DriverCall V}
    {channel rest : List (RuntimeEvent V)} {result : Except ToolError (DriverUpdate V)}
    (hcall : s.call = some call) (hchannel : s.channel = channel)
    (h : nextUpdate call.events channel = some (result, rest)) :
    ∃ n t ending, run driverStep s (List.replicate n .receive) = some t ∧ t.call = none ∧
      t.channel = rest ∧ t.returned = s.returned ++ [ending] ∧ ending.result = result := by
  induction channel generalizing s call with
  | nil => cases h
  | cons event channel ih =>
    have hstep : driverStep s .receive =
        some (receiveEvent { s with channel := channel } call event) := by
      simp only [driverStep, hcall, hchannel]
    rw [nextUpdate] at h
    cases hclass : classifyEvent call.events event with
    | error error =>
      rw [hclass] at h
      cases h
      refine ⟨1, _, .workerFailed error, run_cons_eq_some.mpr ⟨_, hstep, rfl⟩, ?_⟩
      rw [receiveEvent_error hclass]
      exact ⟨rfl, rfl, rfl, rfl⟩
    | ok outcome =>
      obtain ⟨events, _ | update⟩ := outcome
      · rw [hclass] at h
        rw [receiveEvent_collect hclass] at hstep
        set u : DriverState V :=
          { s with
            channel := channel
            received := s.received ++ [event]
            call := some { call with events := events, waiting := false } }
        have hcall' : u.call = some { call with events := events, waiting := false } := rfl
        obtain ⟨n, t, ending, hrun, hrest⟩ := ih hcall' rfl h
        exact ⟨n + 1, t, ending, run_cons_eq_some.mpr ⟨_, hstep, hrun⟩, hrest⟩
      · rw [hclass] at h
        cases h
        refine ⟨1, _, .updated update, run_cons_eq_some.mpr ⟨_, hstep, rfl⟩, ?_⟩
        rw [receiveEvent_update hclass]
        exact ⟨rfl, rfl, rfl, rfl⟩

end RustyClaw.CodeMode
