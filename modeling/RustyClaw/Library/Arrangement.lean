import Mathlib.Data.List.Perm.Basic
import Mathlib.Data.List.Nodup
import Mathlib.Order.Lattice

/-!
# Stable arrangements

A list is arranged by a key when it is sorted by the key and keeps the order of a source list among
elements with the same key (`Arranged`).  A stable sort arranges its argument
(`arranged_sortByKey`), and so does a stable sort of what another one has arranged by a key that
says the same or more (`Arranged.map`).

`arranged_filterMap_iff` is about copies: when the elements are told apart by an id and every copy
keeps the id, an arrangement of the copies is one of the originals exactly when every original has
been copied without a change.
-/

namespace Arrangement

variable {α β κ ν ι : Type*} [LinearOrder κ] [LinearOrder ν]

/-- The elements of `source` in the order of their keys, and in the order of `source` where the
keys are the same. -/
structure Arranged (key : α → κ) (source result : List α) : Prop where
  sorted : result.Pairwise fun a b => key a ≤ key b
  stable : ∀ k, result.filter (fun a => key a = k) = source.filter (fun a => key a = k)

/-! ## Sorting -/

/-- A stable sort. -/
def sortByKey (key : α → κ) (l : List α) : List α := l.mergeSort fun a b => decide (key a ≤ key b)

section Sorting

variable {key : α → κ} {source result : List α}

lemma trans_key (key : α → κ) (a b c : α) (hab : decide (key a ≤ key b) = true)
    (hbc : decide (key b ≤ key c) = true) : decide (key a ≤ key c) = true :=
  decide_eq_true ((of_decide_eq_true hab).trans (of_decide_eq_true hbc))

lemma total_key (key : α → κ) (a b : α) :
    (decide (key a ≤ key b) || decide (key b ≤ key a)) = true := by
  rw [Bool.or_eq_true, decide_eq_true_eq, decide_eq_true_eq]
  exact le_total _ _

lemma sortByKey_perm (key : α → κ) (l : List α) : (sortByKey key l).Perm l :=
  List.mergeSort_perm l _

lemma pairwise_sortByKey (key : α → κ) (l : List α) :
    (sortByKey key l).Pairwise fun a b => key a ≤ key b :=
  (List.pairwise_mergeSort (trans_key key) (total_key key) l).imp of_decide_eq_true

/-- A stable sort keeps the order of the elements with one key. -/
theorem arranged_sortByKey (key : α → κ) (l : List α) : Arranged key l (sortByKey key l) where
  sorted := pairwise_sortByKey key l
  stable k := by
    have hpairwise : (l.filter fun a => key a = k).Pairwise
        fun a b => decide (key a ≤ key b) = true := by
      apply List.pairwise_of_forall_mem_list
      intro a ha b hb
      have hak := of_decide_eq_true (List.mem_filter.mp ha).2
      have hbk := of_decide_eq_true (List.mem_filter.mp hb).2
      exact decide_eq_true (hak.trans hbk.symm).le
    have hsub : (l.filter fun a => key a = k).Sublist (sortByKey key l) :=
      List.sublist_mergeSort (trans_key key) (total_key key) hpairwise List.filter_sublist
    have hsub' := hsub.filter fun a => decide (key a = k)
    rw [List.filter_filter, List.filter_congr fun a _ => Bool.and_self _] at hsub'
    exact (hsub'.eq_of_length ((sortByKey_perm key l).filter _).length_eq.symm).symm

/-- An arrangement consists of the elements of its source. -/
lemma Arranged.perm (h : Arranged key source result) : result.Perm source := by
  classical
  rw [List.perm_iff_count]
  intro a
  have hcount : ∀ l : List α, (l.filter fun b => key b = key a).count a = l.count a := fun l =>
    List.count_filter (decide_eq_true rfl)
  rw [← hcount result, ← hcount source, h.stable]

/-- Sorting by a key `key` what has been arranged by a key `key'` that tells apart the same
elements. -/
lemma Arranged.map {key' : β → ν} {f : β → α} {source arranged : List β}
    (h : Arranged key' source arranged)
    (hkey : ∀ b b', key (f b) = key (f b') ↔ key' b = key' b') :
    Arranged key (source.map f) (sortByKey key (arranged.map f)) where
  sorted := pairwise_sortByKey key _
  stable k := by
    rw [(arranged_sortByKey key (arranged.map f)).stable, List.filter_map, List.filter_map]
    refine congrArg (List.map f) ?_
    by_cases hk : ∃ b, key (f b) = k
    · obtain ⟨b, rfl⟩ := hk
      have hfilter : ∀ l : List β, l.filter ((fun a => decide (key a = key (f b))) ∘ f) =
          l.filter fun b' => decide (key' b' = key' b) := by
        intro l
        apply List.filter_congr
        intro b' _
        rw [Function.comp_apply, decide_eq_decide]
        exact hkey b' b
      rw [hfilter, hfilter, h.stable]
    · have hnone : ∀ l : List β, l.filter ((fun a => decide (key a = k)) ∘ f) = [] := by
        intro l
        rw [List.filter_eq_nil_iff]
        intro b _ hb
        exact hk ⟨b, of_decide_eq_true hb⟩
      rw [hnone, hnone]

end Sorting

/-! ## The first elements -/

section First

variable {key : α → κ} {l : List α} {n : Nat}

/-- What is left out when a sorted list is cut is not in front of what is kept. -/
lemma key_le_of_take_of_drop (h : l.Pairwise fun a b => key a ≤ key b) {a b : α}
    (ha : a ∈ l.take n) (hb : b ∈ l.drop n) : key a ≤ key b := by
  rw [← List.take_append_drop n l, List.pairwise_append] at h
  exact h.2.2 a ha b hb

/-- The first elements of a sorted list are below a bound when enough elements are. -/
lemma key_le_of_le_countP (h : l.Pairwise fun a b => key a ≤ key b) {k : κ}
    (hn : n ≤ l.countP fun a => key a ≤ k) : ∀ a ∈ l.take n, key a ≤ k := by
  induction l generalizing n with
  | nil => simp
  | cons b l ih =>
    obtain ⟨hb, hl⟩ := List.pairwise_cons.mp h
    rcases n with _ | n
    · exact fun a ha => absurd ha List.not_mem_nil
    by_cases hbk : key b ≤ k
    · rw [List.countP_cons_of_pos (by simpa using hbk)] at hn
      intro a ha
      rcases List.mem_cons.mp ha with rfl | ha
      · exact hbk
      · exact ih hl (by omega) a ha
    · -- nothing behind `b` is below the bound either
      have hnone : (b :: l).countP (fun a => key a ≤ k) = 0 := by
        rw [List.countP_eq_zero]
        intro a ha hak
        rcases List.mem_cons.mp ha with rfl | ha
        · exact hbk (of_decide_eq_true hak)
        · exact hbk ((hb a ha).trans (of_decide_eq_true hak))
      omega

end First

/-! ## Copies -/

section Copies

variable {key : α → κ} {id : α → ι} {original : β → α} {copy : β → Option α} {source : List β}

lemma filterMap_copy (h : ∀ b ∈ source, copy b = some (original b)) :
    source.filterMap copy = source.map original := by
  rw [← List.filterMap_eq_map]
  exact List.filterMap_congr h

/-- The copies are the originals in some order only when each is a copy of itself. -/
lemma perm_filterMap_iff (hid : (source.map fun b => id (original b)).Nodup)
    (hcopy : ∀ b ∈ source, ∀ a, copy b = some a → id a = id (original b)) :
    (source.filterMap copy).Perm (source.map original) ↔
      ∀ b ∈ source, copy b = some (original b) := by
  constructor
  · intro hperm b hb
    obtain ⟨b', hb', heq⟩ := List.mem_filterMap.mp
      (hperm.mem_iff.mpr (List.mem_map_of_mem hb))
    have hsame : b = b' := List.inj_on_of_nodup_map hid hb hb' (hcopy b' hb' _ heq)
    rw [hsame] at heq ⊢
    exact heq
  · intro h
    rw [filterMap_copy h]

/-- An arrangement of copies is one of the originals exactly when nothing is missing and nothing
has changed. -/
theorem arranged_filterMap_iff {result : List α}
    (hid : (source.map fun b => id (original b)).Nodup)
    (hcopy : ∀ b ∈ source, ∀ a, copy b = some a → id a = id (original b))
    (h : Arranged key (source.filterMap copy) result) :
    Arranged key (source.map original) result ↔ ∀ b ∈ source, copy b = some (original b) := by
  constructor
  · intro h'
    exact (perm_filterMap_iff hid hcopy).mp (h.perm.symm.trans h'.perm)
  · intro hall
    rwa [← filterMap_copy hall]

end Copies

end Arrangement
