import Mathlib.Logic.Function.Basic
import RustyClaw.Library.Transition

/-!
# Resetting a session

`reset_session` asks the running step of a session to stop, does not wait for it, takes the
session's entry out of the `sessions` map and, still holding the map's lock, deletes the
transcript.  A loop that somebody holds keeps its context and appends its turns to the transcript
as before, and a call of `get_or_create_session` that found no entry goes on building a loop and
inserts it when it gets the lock.

The model is one session: its entry, its transcript and any number of loops, calls and resets.  An
*era* ends when a reset deletes the transcript; every loop carries the era in which it loaded the
transcript, and every turn the loop that ended it.

`resetFinal` says when a reset is final: in every run in which a loop appends turns and is
inserted only in the era in which it was made.  `not_resetFinal` is the run in which the old loop
ends its turn after the reset, and the next loop loads it.
-/

namespace RustyClaw.Reset

open Transition Function

variable {Turn : Type}

/-! ## The session -/

/-- A loop, and the era in which it was made. -/
structure LoopId where
  number : Nat
  era : Nat
  deriving DecidableEq, Repr

/-- A turn, and the loop that ended it. -/
structure EndedTurn (Turn : Type) where
  endedBy : LoopId
  turn : Turn
  deriving DecidableEq, Repr

/-- What an `AgentLoop` has of the dialogue. -/
structure LoopContext (Turn : Type) where
  /-- the turns that were loaded when the loop was made -/
  loaded : List (EndedTurn Turn) := []
  dialogueHistory : List (EndedTurn Turn) := []
  currentTurn : Option Turn := none
  /-- the turn that `end_turn` has appended to the transcript and not yet to the history -/
  ending : Option Turn := none
  deriving DecidableEq, Repr

/-- How far a call of `get_or_create_session` that found no entry has come. -/
inductive Building where
  | started
  | built (loop : LoopId)
  deriving DecidableEq, Repr

/-- How far a `reset_session` that has the map's lock has come. -/
inductive Resetting where
  | entryRemoved
  | transcriptRemoved
  deriving DecidableEq, Repr

structure Session (Turn : Type) where
  entry : Option LoopId := none
  /-- the transcript, when there is one -/
  transcript : Option (List (EndedTurn Turn)) := none
  /-- how many resets have deleted the transcript -/
  era : Nat := 0
  /-- the reset that holds the lock of the map -/
  resetting : Option Resetting := none
  /-- how many loops were made -/
  made : Nat := 0
  context : LoopId → LoopContext Turn := fun _ => {}
  /-- the calls that build a loop -/
  building : Nat → Option Building := fun _ => none
  /-- the loops that calls have returned, each with the era at the time -/
  returned : List (LoopId × Nat) := []

/-! ## The moves -/

inductive ResetMove (Turn : Type) where
  /-- `sessions.remove`, when the reset has got the lock; the cancellation before it asks the
  running step to stop and changes nothing here -/
  | removeEntry
  /-- `remove_session_artifacts` -/
  | removeTranscript
  | resetReturns
  /-- the first part of `get_or_create_session` -/
  | lookUp (call : Nat)
  /-- `build_agent_session` makes a loop and loads the transcript -/
  | build (call : Nat)
  | insert (call : Nat)
  | startTurn (loop : LoopId) (turn : Turn)
  /-- the first half of `end_turn`: `written` tells whether appending to the file succeeds -/
  | appendTurn (loop : LoopId) (written : Bool)
  /-- the second half -/
  | pushTurn (loop : LoopId)
  deriving DecidableEq, Repr

namespace Session

variable (s : Session Turn) (loop : LoopId)

def setContext (context : LoopContext Turn) : Session Turn :=
  { s with context := update s.context loop context }

/-- `append_turn`, which makes the file if there is none. -/
def appendTurn (turn : EndedTurn Turn) (written : Bool) : Session Turn :=
  if written then { s with transcript := some (s.transcript.getD [] ++ [turn]) } else s

/-- A call returns a loop. -/
def return_ : Session Turn := { s with returned := (loop, s.era) :: s.returned }

end Session

def resetStep (s : Session Turn) : ResetMove Turn → Option (Session Turn)
  | .removeEntry =>
    if s.resetting = none then some { s with entry := none, resetting := some .entryRemoved }
    else none
  | .removeTranscript =>
    if s.resetting = some .entryRemoved then
      some { s with
        transcript := none, era := s.era + 1, resetting := some .transcriptRemoved }
    else none
  | .resetReturns =>
    if s.resetting = some .transcriptRemoved then some { s with resetting := none } else none
  | .lookUp call =>
    if s.resetting = none ∧ s.building call = none then
      match s.entry with
      | some loop => some (s.return_ loop)
      | none => some { s with building := update s.building call (some .started) }
    else none
  | .build call =>
    if s.building call = some .started then
      let loop : LoopId := { number := s.made, era := s.era }
      let turns := s.transcript.getD []
      some { s with
        made := s.made + 1
        context := update s.context loop { loaded := turns, dialogueHistory := turns }
        building := update s.building call (some (.built loop)) }
    else none
  | .insert call =>
    match s.building call with
    | some (.built loop) =>
      if s.resetting = none then
        some ({ s with
          entry := some loop, building := update s.building call none }.return_ loop)
      else none
    | _ => none
  | .startTurn loop turn =>
    if loop.number < s.made ∧ (s.context loop).ending.isNone then
      some (s.setContext loop { s.context loop with currentTurn := some turn })
    else none
  | .appendTurn loop written =>
    match (s.context loop).currentTurn, (s.context loop).ending with
    | some turn, none =>
      some ((s.appendTurn { endedBy := loop, turn := turn } written).setContext loop
        { s.context loop with currentTurn := none, ending := some turn })
    | _, _ => none
  | .pushTurn loop =>
    match (s.context loop).ending with
    | some turn =>
      some (s.setContext loop { s.context loop with
        dialogueHistory := (s.context loop).dialogueHistory ++ [{ endedBy := loop, turn := turn }]
        ending := none })
    | none => none

/-! ## Finality -/

/-- No loop that a call returned has a turn of a loop that was made before the last reset that had
come to its end by then, and no loop has loaded a turn of a loop that was made before a reset it
came after itself. -/
structure Final (s : Session Turn) : Prop where
  returned : ∀ loop era, (loop, era) ∈ s.returned →
    ∀ turn ∈ (s.context loop).dialogueHistory, era ≤ turn.endedBy.era
  loaded : ∀ loop, ∀ turn ∈ (s.context loop).loaded, loop.era ≤ turn.endedBy.era

/-- A loop appends a turn, and is inserted, in the era in which it was made. -/
def OwnEra (s : Session Turn) : ResetMove Turn → Prop
  | .appendTurn loop _ => loop.era = s.era
  | .insert call => ∀ loop, s.building call = some (.built loop) → loop.era = s.era
  | _ => True

/-- What a run keeps: eras are not mixed. -/
structure Unmixed (s : Session Turn) : Prop where
  transcript : ∀ turn ∈ s.transcript.getD [], turn.endedBy.era = s.era
  entry : ∀ loop ∈ s.entry, loop.era = s.era
  resetting : s.resetting ≠ none → s.entry = none
  history : ∀ loop, ∀ turn ∈ (s.context loop).dialogueHistory, turn.endedBy.era = loop.era
  loaded : ∀ loop, ∀ turn ∈ (s.context loop).loaded, turn.endedBy.era = loop.era
  returned : ∀ loop era, (loop, era) ∈ s.returned → loop.era = era

section Steps

variable {s s' : Session Turn} {loop : LoopId}

lemma unmixed_init : Unmixed ({} : Session Turn) := by
  constructor <;> simp

/-- A loop whose context changes keeps to the turns of its era. -/
lemma Unmixed.setContext (h : Unmixed s) {context : LoopContext Turn}
    (hhistory : ∀ turn ∈ context.dialogueHistory, turn.endedBy.era = loop.era)
    (hloaded : ∀ turn ∈ context.loaded, turn.endedBy.era = loop.era) :
    Unmixed (s.setContext loop context) := by
  refine ⟨h.transcript, h.entry, h.resetting, ?_, ?_, h.returned⟩
  · intro other
    show ∀ turn ∈ (update s.context loop context other).dialogueHistory, _
    by_cases heq : other = loop
    · rw [heq, update_self]
      exact hhistory
    · rw [update_of_ne heq]
      exact h.history other
  · intro other
    show ∀ turn ∈ (update s.context loop context other).loaded, _
    by_cases heq : other = loop
    · rw [heq, update_self]
      exact hloaded
    · rw [update_of_ne heq]
      exact h.loaded other

/-- A loop of this era is returned. -/
lemma Unmixed.return_ (h : Unmixed s) (hloop : loop.era = s.era) : Unmixed (s.return_ loop) := by
  refine ⟨h.transcript, h.entry, h.resetting, h.history, h.loaded, ?_⟩
  intro other era hmem
  rcases List.mem_cons.mp hmem with heq | hmem
  · cases heq
    exact hloop
  · exact h.returned other era hmem

/-- A turn of a loop of this era is appended to the transcript. -/
lemma Unmixed.appendTurn (h : Unmixed s) {turn : EndedTurn Turn}
    (hturn : turn.endedBy.era = s.era) {written : Bool} : Unmixed (s.appendTurn turn written) := by
  unfold Session.appendTurn
  split
  · refine ⟨fun other hother => ?_, h.entry, h.resetting, h.history, h.loaded, h.returned⟩
    rcases List.mem_append.mp hother with hother | hother
    · exact h.transcript other hother
    · rw [List.mem_singleton.mp hother]
      exact hturn
  · exact h

lemma unmixed_step (h : Unmixed s) {move : ResetMove Turn} (hown : OwnEra s move)
    (hstep : resetStep s move = some s') : Unmixed s' := by
  cases move with
  | removeEntry =>
    simp only [resetStep] at hstep
    split at hstep <;> cases hstep
    exact ⟨h.transcript, by simp, fun _ => rfl, h.history, h.loaded, h.returned⟩
  | removeTranscript =>
    simp only [resetStep] at hstep
    split at hstep <;> cases hstep
    rename_i hresetting
    have hentry : s.entry = none := h.resetting (by rw [hresetting]; simp)
    refine ⟨by simp, ?_, fun _ => hentry, h.history, h.loaded, h.returned⟩
    show ∀ loop ∈ s.entry, _
    rw [hentry]
    simp
  | resetReturns =>
    simp only [resetStep] at hstep
    split at hstep <;> cases hstep
    exact ⟨h.transcript, h.entry, fun hne => absurd rfl hne, h.history, h.loaded, h.returned⟩
  | lookUp call =>
    simp only [resetStep] at hstep
    split at hstep <;> try cases hstep
    split at hstep <;> cases hstep
    · rename_i loop hentry
      exact h.return_ (h.entry loop hentry)
    · exact ⟨h.transcript, h.entry, h.resetting, h.history, h.loaded, h.returned⟩
  | build call =>
    simp only [resetStep] at hstep
    split at hstep <;> cases hstep
    have hmade : Unmixed (s.setContext { number := s.made, era := s.era }
        { loaded := s.transcript.getD [], dialogueHistory := s.transcript.getD [] }) :=
      h.setContext h.transcript h.transcript
    exact ⟨hmade.transcript, hmade.entry, hmade.resetting, hmade.history, hmade.loaded,
      hmade.returned⟩
  | insert call =>
    simp only [resetStep] at hstep
    split at hstep <;> try cases hstep
    rename_i loop hbuilt
    split at hstep <;> cases hstep
    rename_i hfree
    have hloop : loop.era = s.era := hown loop hbuilt
    have hentry : Unmixed { s with
        entry := some loop, building := update s.building call none } := by
      refine ⟨h.transcript, ?_, fun hne => absurd hfree hne, h.history, h.loaded, h.returned⟩
      intro other hother
      cases hother
      exact hloop
    exact hentry.return_ hloop
  | startTurn loop turn =>
    simp only [resetStep] at hstep
    split at hstep <;> cases hstep
    exact h.setContext (h.history loop) (h.loaded loop)
  | appendTurn loop written =>
    simp only [resetStep] at hstep
    split at hstep <;> cases hstep
    rename_i turn hturn _
    have hloop : loop.era = s.era := hown
    have happend : Unmixed (s.appendTurn { endedBy := loop, turn := turn } written) :=
      h.appendTurn hloop
    exact happend.setContext (h.history loop) (h.loaded loop)
  | pushTurn loop =>
    simp only [resetStep] at hstep
    split at hstep <;> cases hstep
    refine h.setContext (fun t ht => ?_) (h.loaded loop)
    rcases List.mem_append.mp ht with ht | ht
    · exact h.history loop t ht
    · rw [List.mem_singleton.mp ht]

lemma Unmixed.final (h : Unmixed s) : Final s where
  returned loop era hmem turn hturn := by
    have hloop := h.returned loop era hmem
    have hhistory := h.history loop turn hturn
    omega
  loaded loop turn hturn := Nat.le_of_eq (h.loaded loop turn hturn).symm

end Steps

/-- Where every loop appends its turns and is inserted in the era in which it was made, a reset is
final. -/
theorem resetFinal {moves : List (ResetMove Turn)} {s : Session Turn}
    (hrun : run resetStep {} moves = some s) (hown : Along resetStep OwnEra {} moves) :
    Final s := by
  have hunmixed : Unmixed s :=
    run_invariant_of_along Unmixed (fun _ _ _ h hP hstep => unmixed_step h hP hstep)
      unmixed_init hown hrun
  exact hunmixed.final

/-- The first loop of a session is made and starts a turn. -/
def firstTurn : List (ResetMove Nat) :=
  [.lookUp 0, .build 0, .insert 0, .startTurn ⟨0, 0⟩ 7]

def endTurn (loop : LoopId) : List (ResetMove Nat) := [.appendTurn loop true, .pushTurn loop]

def reset : List (ResetMove Nat) := [.removeEntry, .removeTranscript, .resetReturns]

def nextLoop : List (ResetMove Nat) := [.lookUp 1, .build 1, .insert 1]

instance (s : Session Turn) : ∀ move : ResetMove Turn, Decidable (OwnEra s move)
  | .appendTurn loop _ => inferInstanceAs (Decidable (loop.era = s.era))
  | .insert call =>
    match h : s.building call with
    | some (.built loop) => decidable_of_iff (loop.era = s.era) (by simp [OwnEra, h])
    | some .started => isTrue (by simp [OwnEra, h])
    | none => isTrue (by simp [OwnEra, h])
  | .removeEntry | .removeTranscript | .resetReturns | .lookUp _ | .build _ | .startTurn _ _
  | .pushTurn _ => isTrue trivial

/-- The turn ends before the reset. -/
theorem resetFinal_idle :
    ∃ s, run resetStep {} (firstTurn ++ endTurn ⟨0, 0⟩ ++ reset ++ nextLoop) = some s ∧
      Final s := by
  have hreturned : (run resetStep {} (firstTurn ++ endTurn ⟨0, 0⟩ ++ reset ++ nextLoop)).map
      (·.returned) = some [(⟨1, 1⟩, 1), (⟨0, 0⟩, 0)] := by
    decide
  obtain ⟨s, hrun, -⟩ := Option.map_eq_some_iff.mp hreturned
  exact ⟨s, hrun, resetFinal hrun (by decide)⟩

/-- The turn ends after the reset, and the next loop loads it. -/
theorem not_resetFinal :
    ¬ ∀ (moves : List (ResetMove Nat)) (s : Session Nat), run resetStep {} moves = some s →
      Final s := by
  intro hclaim
  have hloaded : (run resetStep {} (firstTurn ++ reset ++ endTurn ⟨0, 0⟩ ++ nextLoop)).map
      (fun s => (s.context ⟨1, 1⟩).loaded) = some [⟨⟨0, 0⟩, 7⟩] := by
    decide
  obtain ⟨s, hrun, hs⟩ := Option.map_eq_some_iff.mp hloaded
  have hera := (hclaim _ s hrun).loaded ⟨1, 1⟩ ⟨⟨0, 0⟩, 7⟩ (by rw [hs]; simp)
  exact absurd hera (by decide)

end RustyClaw.Reset
