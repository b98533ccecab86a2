import Mathlib.Logic.Function.Basic
import Mathlib.Data.List.Basic

/-!
# Requests and their answers in a log

A log of events in which some events open a request and some close one.  Each key is idle,
pending or answered, and `Holds k` says what the log looks like for a key in that state: no
event about it, one that opened it, or one that opened it followed by exactly one that closed
it.  `Records` says so of every key; an event that opens an idle key or closes a pending one
keeps it.
-/

namespace Requests

variable {κ α : Type*} (opens closes : κ → α → Bool)

inductive Status where
  | idle | pending | answered
  deriving DecidableEq, Repr

/-- No event of the log is about the key. -/
def Untouched (k : κ) (log : List α) : Prop :=
  ∀ e ∈ log, opens k e = false ∧ closes k e = false

/-- One event opened the key, and none closed it. -/
def Opened (k : κ) (log : List α) : Prop :=
  ∃ pre e post, log = pre ++ e :: post ∧ opens k e = true ∧
    Untouched opens closes k pre ∧ Untouched opens closes k post

/-- One event opened the key, and exactly one event, after it, closed it. -/
def Answered (k : κ) (log : List α) : Prop :=
  ∃ pre e post, log = pre ++ e :: post ∧ opens k e = true ∧
    Untouched opens closes k pre ∧ (∀ x ∈ post, opens k x = false) ∧ post.countP (closes k) = 1

def Holds (k : κ) : Status → List α → Prop
  | .idle => Untouched opens closes k
  | .pending => Opened opens closes k
  | .answered => Answered opens closes k

/-- The log tells of every key what its status says. -/
def Records (status : κ → Status) (log : List α) : Prop :=
  ∀ k, Holds opens closes k (status k) log

variable {opens closes} {k : κ} {log : List α} {e : α} {status status' : κ → Status}

lemma Untouched.concat (h : Untouched opens closes k log)
    (ho : opens k e = false) (hc : closes k e = false) :
    Untouched opens closes k (log ++ [e]) := by
  intro x hx
  rcases List.mem_append.mp hx with hx | hx
  · exact h x hx
  · rw [List.mem_singleton.mp hx]
    exact ⟨ho, hc⟩

lemma Untouched.countP_eq_zero (h : Untouched opens closes k log) :
    log.countP (closes k) = 0 :=
  List.countP_eq_zero.mpr fun x hx => by simp [(h x hx).2]

/-- An event about other keys changes nothing for this one. -/
lemma Holds.skip {st : Status} (h : Holds opens closes k st log)
    (ho : opens k e = false) (hc : closes k e = false) :
    Holds opens closes k st (log ++ [e]) := by
  cases st with
  | idle => exact Untouched.concat h ho hc
  | pending =>
    obtain ⟨pre, x, post, rfl, hx, hpre, hpost⟩ := h
    exact ⟨pre, x, post ++ [e], by simp, hx, hpre, Untouched.concat hpost ho hc⟩
  | answered =>
    obtain ⟨pre, x, post, rfl, hx, hpre, hpost, hcount⟩ := h
    refine ⟨pre, x, post ++ [e], by simp, hx, hpre, ?_, by simp [List.countP_append, hcount, hc]⟩
    intro y hy
    rcases List.mem_append.mp hy with hy | hy
    · exact hpost y hy
    · rw [List.mem_singleton.mp hy]
      exact ho

lemma Untouched.open (h : Untouched opens closes k log) (ho : opens k e = true) :
    Opened opens closes k (log ++ [e]) :=
  ⟨log, e, [], rfl, ho, h, by simp [Untouched]⟩

lemma Opened.close (h : Opened opens closes k log) (ho : opens k e = false)
    (hc : closes k e = true) : Answered opens closes k (log ++ [e]) := by
  obtain ⟨pre, x, post, rfl, hx, hpre, hpost⟩ := h
  refine ⟨pre, x, post ++ [e], by simp, hx, hpre, ?_, ?_⟩
  · intro y hy
    rcases List.mem_append.mp hy with hy | hy
    · exact (hpost y hy).1
    · rw [List.mem_singleton.mp hy]
      exact ho
  · rw [List.countP_append, hpost.countP_eq_zero]
    simp [hc]

/-- At no time a key has been closed more than once. -/
lemma Holds.countP_closes_le_one {st : Status} (h : Holds opens closes k st log)
    (hdisjoint : ∀ e, opens k e = true → closes k e = false) : log.countP (closes k) ≤ 1 := by
  cases st with
  | idle => rw [Untouched.countP_eq_zero h]; omega
  | pending =>
    obtain ⟨pre, x, post, rfl, hx, hpre, hpost⟩ := h
    simp [List.countP_append, hdisjoint x hx, hpre.countP_eq_zero,
      hpost.countP_eq_zero]
  | answered =>
    obtain ⟨pre, x, post, rfl, hx, hpre, -, hcount⟩ := h
    simp [List.countP_append, hdisjoint x hx, hpre.countP_eq_zero, hcount]

/-- A key that is opened in the log and not pending is answered. -/
lemma Holds.answered {st : Status} (h : Holds opens closes k st log) (he : e ∈ log)
    (ho : opens k e = true) (hst : st ≠ .pending) : Answered opens closes k log := by
  cases st with
  | idle =>
    have hnot := (h e he).1
    rw [ho] at hnot
    cases hnot
  | pending => exact absurd rfl hst
  | answered => exact h

/-! ## Rules for the whole table -/

lemma Records.skip (h : Records opens closes status log)
    (he : ∀ k, opens k e = false ∧ closes k e = false) :
    Records opens closes status (log ++ [e]) :=
  fun k => (h k).skip (he k).1 (he k).2

lemma Records.congr (h : Records opens closes status log) (hs : ∀ k, status' k = status k) :
    Records opens closes status' log :=
  fun k => by
    rw [hs k]
    exact h k

/-- An event that opens the idle key `k` and concerns no other key. -/
lemma Records.open (h : Records opens closes status log) (hk : status k = .idle)
    (ho : opens k e = true) (hother : ∀ k' ≠ k, opens k' e = false ∧ closes k' e = false)
    (hs : status' k = .pending) (hs' : ∀ k' ≠ k, status' k' = status k') :
    Records opens closes status' (log ++ [e]) := by
  intro k'
  by_cases hkk : k' = k
  · subst hkk
    have hidle := h k'
    rw [hk] at hidle
    rw [hs]
    exact Untouched.open hidle ho
  · rw [hs' k' hkk]
    exact (h k').skip (hother k' hkk).1 (hother k' hkk).2

/-- An event that closes the pending key `k` and concerns no other key. -/
lemma Records.close (h : Records opens closes status log) (hk : status k = .pending)
    (ho : opens k e = false) (hc : closes k e = true)
    (hother : ∀ k' ≠ k, opens k' e = false ∧ closes k' e = false)
    (hs : status' k = .answered) (hs' : ∀ k' ≠ k, status' k' = status k') :
    Records opens closes status' (log ++ [e]) := by
  intro k'
  by_cases hkk : k' = k
  · subst hkk
    have hpending := h k'
    rw [hk] at hpending
    rw [hs]
    exact Opened.close hpending ho hc
  · rw [hs' k' hkk]
    exact (h k').skip (hother k' hkk).1 (hother k' hkk).2

end Requests
