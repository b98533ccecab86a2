import RustyClaw.Library.Json
import RustyClaw.Library.Repetition

/-!
# The repeated-action guard

In autopilot mode every tool outcome is recorded.  Three equal actions in a row (same tool, same
arguments, same success) give a reflection warning, and from the second such triple on the
autopilot melts down.

Nothing resets the strikes, which are a `u8`: the addition wraps in a build without overflow checks
and panics in one with them.  Over a whole run the window of the guard detects the repetitions that
there are (`detections_eq_repeats`), so the counter is right, and every detection after the threshold
a meltdown, exactly when there are fewer than 256 of them (`escalates_iff`).
-/

namespace RustyClaw

inductive ExecutionGuardSignal where
  | reflectionWarning | autopilotMeltdown
  deriving DecidableEq, Repr

namespace ExecutionGuardSignal

def signal : ExecutionGuardSignal → String
  | .reflectionWarning => "reflection_warning"
  | .autopilotMeltdown => "autopilot_meltdown"

def message : ExecutionGuardSignal → String
  | .reflectionWarning => "[System Warning] 检测到你正在重复执行相同的错误动作。请立即停止当前尝试，反思失败原因，并提出全新的解决路径。"
  | .autopilotMeltdown => "[System Error] 检测到深度死循环，反思无效。"

end ExecutionGuardSignal

/-- `action_history` holds the keys of at most three actions; `reflection_strike` is a `u8`. -/
structure ExecutionGuardState where
  actionHistory : List String := []
  reflectionStrike : UInt8 := 0

/-- The key of an action: tool, arguments as compact JSON, and whether it failed. -/
def actionKey (callName : String) (callArgs : Json Char) (isError : Bool) : String :=
  s!"{callName}:{String.ofList callArgs.render}:{isError}"

/-- `ExecutionGuardState::record_action_outcome`. -/
def ExecutionGuardState.recordActionOutcome (guard : ExecutionGuardState) (callName : String)
    (callArgs : Json Char) (isError : Bool) :
    ExecutionGuardState × Option ExecutionGuardSignal :=
  let key := actionKey callName callArgs isError
  let pushed := guard.actionHistory ++ [key]
  let history := if 3 < pushed.length then pushed.tail else pushed
  if history.length = 3 ∧ history.all (· = key) then
    let strike := guard.reflectionStrike + 1
    ({ actionHistory := [], reflectionStrike := strike },
      some (if 2 ≤ strike then .autopilotMeltdown else .reflectionWarning))
  else ({ guard with actionHistory := history }, none)

/-! ## Runs -/

/-- An action with its outcome, as the guard is told of it. -/
structure ToolAction where
  callName : String
  callArgs : Json Char
  isError : Bool

def ToolAction.key (action : ToolAction) : String :=
  actionKey action.callName action.callArgs action.isError

namespace ExecutionGuardState

def record (guard : ExecutionGuardState) (action : ToolAction) :
    ExecutionGuardState × Option ExecutionGuardSignal :=
  guard.recordActionOutcome action.callName action.callArgs action.isError

/-- The guard after the actions. -/
def after (guard : ExecutionGuardState) (actions : List ToolAction) : ExecutionGuardState :=
  actions.foldl (fun g action => (g.record action).1) guard

/-- The signals that the actions give, one after the other. -/
def signals (guard : ExecutionGuardState) : List ToolAction → List (Option ExecutionGuardSignal)
  | [] => []
  | action :: actions => (guard.record action).2 :: (guard.record action).1.signals actions

end ExecutionGuardState

/-- The guard of an agent that has taken these actions: it starts from its default. -/
def guardAfter (actions : List ToolAction) : ExecutionGuardState :=
  ExecutionGuardState.after {} actions

/-- How often the same action was detected three times in a row. -/
def detections (actions : List ToolAction) : ℕ :=
  (ExecutionGuardState.signals {} actions).countP Option.isSome

/-- From two strikes on every detection is a meltdown, and the strikes are the detections there
were. -/
structure Escalates (actions : List ToolAction) : Prop where
  meltdown : ∀ earlier later action, earlier ++ later ++ [action] <+: actions →
    2 ≤ (guardAfter earlier).reflectionStrike →
    ((guardAfter (earlier ++ later)).record action).2.isSome = true →
    ((guardAfter (earlier ++ later)).record action).2 = some .autopilotMeltdown
  counted : ∀ earlier, earlier <+: actions →
    (guardAfter earlier).reflectionStrike.toNat = detections earlier

/-! ## What the window detects -/

open Repetition

namespace ExecutionGuardState

variable {guard : ExecutionGuardState} {action : ToolAction} {actions : List ToolAction}

/-- The action history is a sliding window of three keys. -/
lemma record_eq (guard : ExecutionGuardState) (action : ToolAction) :
    guard.record action =
      bif (slide 3 guard.actionHistory action.key).2 then
        ({ actionHistory := (slide 3 guard.actionHistory action.key).1
           reflectionStrike := guard.reflectionStrike + 1 },
          some (if 2 ≤ guard.reflectionStrike + 1 then .autopilotMeltdown
            else .reflectionWarning))
      else ({ guard with actionHistory := (slide 3 guard.actionHistory action.key).1 }, none) := by
  unfold record recordActionOutcome slide ToolAction.key
  extract_lets key pushed kept
  by_cases hhit : kept.length = 3 ∧ kept.all (· = key) = true
  · rw [if_pos hhit, if_pos hhit]
    rfl
  · rw [if_neg hhit, if_neg hhit]
    rfl

lemma isSome_record :
    (guard.record action).2.isSome = (slide 3 guard.actionHistory action.key).2 := by
  rw [record_eq]
  cases (slide 3 guard.actionHistory action.key).2 <;> rfl

lemma actionHistory_record :
    (guard.record action).1.actionHistory = (slide 3 guard.actionHistory action.key).1 := by
  rw [record_eq]
  cases (slide 3 guard.actionHistory action.key).2 <;> rfl

lemma reflectionStrike_record :
    (guard.record action).1.reflectionStrike =
      guard.reflectionStrike
        + UInt8.ofNat (slide 3 guard.actionHistory action.key).2.toNat := by
  rw [record_eq]
  cases (slide 3 guard.actionHistory action.key).2 with
  | false => exact (UInt8.add_zero _).symm
  | true => rfl

lemma countP_signals (guard : ExecutionGuardState) (actions : List ToolAction) :
    (guard.signals actions).countP Option.isSome
      = hits 3 guard.actionHistory (actions.map ToolAction.key) := by
  induction actions generalizing guard with
  | nil => rfl
  | cons action actions ih =>
    rw [signals, List.countP_cons, ih, isSome_record, actionHistory_record, List.map_cons, hits,
      Nat.add_comm]
    congr 1
    cases (slide 3 guard.actionHistory action.key).2 <;> rfl

/-- The counter counts, up to what a `u8` holds. -/
lemma reflectionStrike_after (guard : ExecutionGuardState) (actions : List ToolAction) :
    (guard.after actions).reflectionStrike =
      guard.reflectionStrike
        + UInt8.ofNat (hits 3 guard.actionHistory (actions.map ToolAction.key)) := by
  induction actions generalizing guard with
  | nil => exact (UInt8.add_zero _).symm
  | cons action actions ih =>
    have hstep : guard.after (action :: actions) = (guard.record action).1.after actions := rfl
    rw [hstep, ih, actionHistory_record, reflectionStrike_record, List.map_cons, hits,
      UInt8.ofNat_add, UInt8.add_assoc]

end ExecutionGuardState

/-- **The guard detects every repetition.**  A block of equal actions is detected once for every
three of them. -/
theorem detections_eq_repeats (actions : List ToolAction) :
    detections actions = repeats 3 (actions.map ToolAction.key) := by
  rw [detections, ExecutionGuardState.countP_signals]
  exact hits_nil_eq_repeats (by omega) _

lemma detections_append (earlier later : List ToolAction) :
    detections earlier ≤ detections (earlier ++ later) := by
  simp only [detections, ExecutionGuardState.countP_signals, List.map_append, hits_append]
  exact Nat.le_add_right _ _

lemma detections_mono {earlier actions : List ToolAction} (h : earlier <+: actions) :
    detections earlier ≤ detections actions := by
  obtain ⟨later, rfl⟩ := h
  exact detections_append earlier later

lemma guardAfter_concat (earlier : List ToolAction) (action : ToolAction) :
    guardAfter (earlier ++ [action]) = ((guardAfter earlier).record action).1 := by
  simp [guardAfter, ExecutionGuardState.after]

lemma strike_guardAfter (actions : List ToolAction) :
    (guardAfter actions).reflectionStrike = UInt8.ofNat (detections actions) := by
  rw [guardAfter, ExecutionGuardState.reflectionStrike_after, detections,
    ExecutionGuardState.countP_signals]
  exact UInt8.zero_add _

lemma toNat_strike_guardAfter (actions : List ToolAction) :
    (guardAfter actions).reflectionStrike.toNat = detections actions % 256 := by
  rw [strike_guardAfter, UInt8.toNat_ofNat']

/-- A detection gives a meltdown exactly when the counter, with the new strike, reads two or
more. -/
lemma signal_of_isSome {guard : ExecutionGuardState} {action : ToolAction}
    (h : (guard.record action).2.isSome = true) :
    (guard.record action).2 = some .autopilotMeltdown ↔
      2 ≤ (guard.record action).1.reflectionStrike := by
  rw [ExecutionGuardState.isSome_record] at h
  rw [ExecutionGuardState.record_eq, h, cond_true]
  simp only
  split_ifs with hstrike <;> simp [hstrike]

/-! ## When the guard escalates -/

/-- The counter is right only while it does not wrap. -/
lemma Escalates.detections_lt {actions : List ToolAction} (h : Escalates actions) :
    detections actions < 256 := by
  rw [← h.counted actions List.prefix_rfl]
  exact UInt8.toNat_lt _

/-- **The guard escalates, until the strikes wrap.**  Every detection after the second is a meltdown
and the strikes are counted right exactly when the blocks of equal actions, three to a detection,
give fewer than 256 detections. -/
theorem escalates_iff (actions : List ToolAction) :
    Escalates actions ↔ repeats 3 (actions.map ToolAction.key) < 256 := by
  rw [← detections_eq_repeats]
  constructor
  · exact Escalates.detections_lt
  · intro hfew
    have hcounted : ∀ earlier, earlier <+: actions →
        (guardAfter earlier).reflectionStrike.toNat = detections earlier := by
      intro earlier hearlier
      rw [toNat_strike_guardAfter]
      exact Nat.mod_eq_of_lt ((detections_mono hearlier).trans_lt hfew)
    refine ⟨?_, hcounted⟩
    intro earlier later action hrun hstrike hsome
    have hearlier : earlier <+: earlier ++ later ++ [action] := by
      rw [List.append_assoc]
      exact List.prefix_append _ _
    rw [signal_of_isSome hsome, ← guardAfter_concat, UInt8.le_iff_toNat_le, hcounted _ hrun]
    rw [UInt8.le_iff_toNat_le, hcounted _ (hearlier.trans hrun)] at hstrike
    exact hstrike.trans (detections_mono hearlier)

/-- An agent that lists the same directory again and again. -/
def sameListing : ToolAction where
  callName := "execute_bash"
  callArgs := .obj [("command".toList, .str "ls".toList)]
  isError := true

/-- The 768th equal action is the 256th detection: the counter is back at zero. -/
theorem not_escalates_sameListing : ¬ Escalates (List.replicate 768 sameListing) := by
  intro h
  have hlt := h.detections_lt
  rw [detections_eq_repeats, List.map_replicate, repeats_replicate] at hlt
  omega

end RustyClaw
