import Mathlib.Data.List.Nodup
import RustyClaw.Library.Requests

/-!
# Requests with consecutive numbers

Requests that are numbered as they are opened, with the list of those that are not closed yet.
`Held next held log` says that `next` requests have been opened in the log, and that all but the
ones in `held` have been closed once.  The order of `held` does not matter (`Held.perm`), so a rule
takes the request it is about from the head.
-/

namespace Requests

variable {α : Type*} (opens closes : Nat → α → Bool)

/-- The status of a request, when `next` have been opened. -/
def numbered (next : Nat) (held : List Nat) (k : Nat) : Status :=
  if k < next then if k ∈ held then .pending else .answered else .idle

structure Held (next : Nat) (held : List Nat) (log : List α) : Prop where
  records : Records opens closes (numbered next held) log
  bounded : ∀ k ∈ held, k < next
  nodup : held.Nodup

variable {opens closes} {next k : Nat} {held held' : List Nat} {log : List α} {e : α}

lemma Held.empty : Held opens closes 0 [] [] := by
  refine ⟨fun k => ?_, fun k hk => absurd hk List.not_mem_nil, List.nodup_nil⟩
  have hidle : numbered 0 [] k = .idle := if_neg (Nat.not_lt_zero k)
  rw [hidle]
  intro e he
  cases he

lemma Held.perm (h : Held opens closes next held log) (hperm : held.Perm held') :
    Held opens closes next held' log := by
  refine ⟨h.records.congr fun k => ?_, fun k hk => h.bounded k (hperm.mem_iff.mpr hk),
    hperm.nodup_iff.mp h.nodup⟩
  simp only [numbered, hperm.mem_iff]

lemma Held.skip (h : Held opens closes next held log)
    (he : ∀ k, opens k e = false ∧ closes k e = false) :
    Held opens closes next held (log ++ [e]) :=
  ⟨h.records.skip he, h.bounded, h.nodup⟩

/-- The next request is opened. -/
lemma Held.open (h : Held opens closes next held log) (ho : opens next e = true)
    (hother : ∀ k ≠ next, opens k e = false ∧ closes k e = false) :
    Held opens closes (next + 1) (next :: held) (log ++ [e]) := by
  have hnew : next ∉ held := fun hmem => Nat.lt_irrefl next (h.bounded next hmem)
  refine ⟨h.records.open ?_ ho hother ?_ fun k hk => ?_, fun k hk => ?_,
    List.nodup_cons.mpr ⟨hnew, h.nodup⟩⟩
  · exact if_neg (Nat.lt_irrefl next)
  · rw [numbered, if_pos (Nat.lt_succ_self next), if_pos List.mem_cons_self]
  · have hlt : k < next + 1 ↔ k < next := by omega
    simp only [numbered, hlt, List.mem_cons, hk, false_or]
  · rcases List.mem_cons.mp hk with rfl | hk
    · exact Nat.lt_succ_self k
    · exact Nat.lt_succ_of_lt (h.bounded k hk)

/-- The first of the open requests is closed. -/
lemma Held.close (h : Held opens closes next (k :: held) log) (ho : opens k e = false)
    (hc : closes k e = true) (hother : ∀ k' ≠ k, opens k' e = false ∧ closes k' e = false) :
    Held opens closes next held (log ++ [e]) := by
  have hlt := h.bounded k List.mem_cons_self
  obtain ⟨hnot, hnodup⟩ := List.nodup_cons.mp h.nodup
  refine ⟨h.records.close ?_ ho hc hother ?_ fun k' hk' => ?_,
    fun k' hk' => h.bounded k' (List.mem_cons_of_mem k hk'), hnodup⟩
  · rw [numbered, if_pos hlt, if_pos List.mem_cons_self]
  · rw [numbered, if_pos hlt, if_neg hnot]
  · simp only [numbered, List.mem_cons, hk', false_or]

/-- When no request is open, all have been answered. -/
lemma Held.answered (h : Held opens closes next [] log) (hk : k < next) :
    Answered opens closes k log := by
  have hanswered := h.records k
  rw [numbered, if_pos hk, if_neg List.not_mem_nil] at hanswered
  exact hanswered

end Requests
