import Mathlib.Algebra.GroupWithZero.Nat
import Mathlib.Data.List.Basic

/-!
# Beginnings of a list that are paid for

`afford cost budget l` takes elements from the beginning of a list as long as the budget covers
their costs.  `sum_take_le_iff` says that this is the longest beginning within the budget: a
beginning can be paid for exactly when it is no longer.

`passed gain limit size l` is the shortest beginning whose gains bring the size down to the limit,
and the whole list when they do not (`passed_eq_or_le`).
-/

namespace Greedy

variable {α : Type*} (cost : α → Nat)

def afford : Nat → List α → List α
  | _, [] => []
  | budget, a :: l => if cost a ≤ budget then a :: afford (budget - cost a) l else []

variable {cost}

lemma prefix_afford (budget : Nat) (l : List α) : afford cost budget l <+: l := by
  induction l generalizing budget with
  | nil => exact List.prefix_rfl
  | cons a l ih =>
    rw [afford]
    split_ifs
    · exact (List.prefix_cons_inj a).mpr (ih _)
    · exact List.nil_prefix

lemma afford_eq_take (budget : Nat) (l : List α) :
    afford cost budget l = l.take (afford cost budget l).length :=
  List.prefix_iff_eq_take.mp (prefix_afford budget l)

/-- A beginning of the list can be paid for exactly when it is no longer than the one that is
taken. -/
theorem sum_take_le_iff {budget : Nat} {l : List α} {n : Nat} (hn : n ≤ l.length) :
    ((l.take n).map cost).sum ≤ budget ↔ n ≤ (afford cost budget l).length := by
  induction l generalizing budget n with
  | nil =>
    obtain rfl : n = 0 := Nat.le_zero.mp hn
    simp
  | cons a l ih =>
    cases n with
    | zero => simp
    | succ n =>
      have hn' : n ≤ l.length := Nat.le_of_succ_le_succ hn
      rw [List.take_succ_cons, List.map_cons, List.sum_cons, afford]
      split_ifs with ha
      · rw [List.length_cons, Nat.succ_le_succ_iff, ← ih hn']
        omega
      · rw [List.length_nil]
        omega

/-! ## Until the limit is reached -/

section Passed

variable (gain : α → Nat) (limit : Nat)

def passed : Nat → List α → List α
  | _, [] => []
  | size, a :: l => a :: if size - gain a ≤ limit then [] else passed (size - gain a) l

variable {gain limit}

lemma prefix_passed (size : Nat) (l : List α) : passed gain limit size l <+: l := by
  induction l generalizing size with
  | nil => exact List.prefix_rfl
  | cons a l ih =>
    rw [passed, List.prefix_cons_inj]
    split_ifs
    · exact List.nil_prefix
    · exact ih _

lemma passed_append_drop (size : Nat) (l : List α) :
    passed gain limit size l ++ l.drop (passed gain limit size l).length = l :=
  List.prefix_iff_eq_append.mp (prefix_passed size l)

/-- The gains reach the limit unless everything is passed. -/
lemma passed_eq_or_le (size : Nat) (l : List α) :
    passed gain limit size l = l ∨
      size - ((passed gain limit size l).map gain).sum ≤ limit := by
  induction l generalizing size with
  | nil => exact .inl rfl
  | cons a l ih =>
    rw [passed]
    split_ifs with hlimit
    · right
      rw [List.map_singleton, List.sum_singleton]
      exact hlimit
    · refine (ih (size - gain a)).imp (congrArg (a :: ·)) fun hle => ?_
      rw [List.map_cons, List.sum_cons, ← Nat.sub_sub]
      exact hle

end Passed

end Greedy
