import Mathlib.Algebra.GroupWithZero.Nat
import Mathlib.Data.List.SplitBy
import Mathlib.Data.List.TakeWhile

/-!
# Counting repetitions with a sliding window

`slide n window k` is a detector for one key coming `n` times in a row: it keeps the last keys, at
most `n` of them, and whenever all `n` are equal it reports a hit and forgets them.  `repeats n`
says what such a detector ought to count: the keys fall into blocks of equal neighbours, and a block
of length `m` holds `m / n` repetitions.  `hits_eq_repeats` says that it does.
-/

namespace Repetition

variable {κ : Type*} [DecidableEq κ] {n : ℕ} {k : κ} {window keys rest : List κ}

/-- How often a key comes `n` times in a row, where one occurrence belongs to one repetition. -/
def repeats (n : ℕ) (keys : List κ) : ℕ := ((keys.splitBy (· == ·)).map (·.length / n)).sum

/-- The window after the key, and whether the key completes a repetition. -/
def slide (n : ℕ) (window : List κ) (k : κ) : List κ × Bool :=
  let pushed := window ++ [k]
  let kept := if n < pushed.length then pushed.tail else pushed
  if kept.length = n ∧ kept.all (· = k) then ([], true) else (kept, false)

def slid (n : ℕ) (window keys : List κ) : List κ := keys.foldl (fun w k => (slide n w k).1) window

/-- The number of repetitions that are reported. -/
def hits (n : ℕ) : List κ → List κ → ℕ
  | _, [] => 0
  | window, k :: keys => (slide n window k).2.toNat + hits n (slide n window k).1 keys

@[simp] lemma repeats_nil : repeats n ([] : List κ) = 0 := by
  simp [repeats]

@[simp] lemma slid_nil : slid n window [] = window := rfl

@[simp] lemma slid_cons :
    slid n window (k :: keys) = slid n (slide n window k).1 keys := rfl

lemma slid_append : slid n window (keys ++ rest) = slid n (slid n window keys) rest :=
  List.foldl_append

lemma hits_append :
    hits n window (keys ++ rest) = hits n window keys + hits n (slid n window keys) rest := by
  induction keys generalizing window with
  | nil => simp [hits]
  | cons k keys ih => rw [List.cons_append, hits, hits, ih, slid_cons, Nat.add_assoc]

/-! ## One block of equal keys -/

/-- A block in front of other keys counts by itself. -/
lemma repeats_block {m : ℕ} (hm : 0 < m) (hrest : rest.head? ≠ some k) :
    repeats n (List.replicate m k ++ rest) = m / n + repeats n rest := by
  have hne : List.replicate m k ≠ [] := by simpa using hm.ne'
  have hchain : (List.replicate m k).IsChain fun a b => (a == b) = true :=
    List.isChain_replicate_of_rel m (by simp)
  have hsplit : (List.replicate m k ++ rest).splitBy (· == ·)
      = List.replicate m k :: rest.splitBy (· == ·) := by
    rw [List.splitBy_append, List.splitBy_of_isChain hne hchain, List.singleton_append]
    intro a ha b hb
    obtain rfl : a = k := List.eq_of_mem_replicate (List.mem_of_getLast? ha)
    simp only [beq_eq_false_iff_ne]
    rintro rfl
    exact hrest hb
  rw [repeats, hsplit, List.map_cons, List.sum_cons, List.length_replicate, repeats]

/-- A list that is not empty begins with a block. -/
lemma exists_block (k : κ) (keys : List κ) :
    ∃ m rest, 0 < m ∧ rest.head? ≠ some k ∧ k :: keys = List.replicate m k ++ rest := by
  refine ⟨(keys.takeWhile (· = k)).length + 1, keys.dropWhile (· = k), Nat.succ_pos _, ?_, ?_⟩
  · intro h
    have hnot := List.head?_dropWhile_not (fun a => decide (a = k)) keys
    rw [h] at hnot
    simp at hnot
  · have hall : keys.takeWhile (· = k) = List.replicate (keys.takeWhile (· = k)).length k :=
      List.eq_replicate_of_mem fun a ha => by simpa using List.mem_takeWhile_imp ha
    rw [List.replicate_succ, List.cons_append, ← hall, List.takeWhile_append_dropWhile]

/-- The window ends with `c` copies of the key and has room for the repetition to be completed. -/
structure Ends (n : ℕ) (k : κ) (c : ℕ) (window : List κ) : Prop where
  lt : c < n
  length_le : window.length ≤ n
  split : ∃ front, window = front ++ List.replicate c k ∧ front.getLast? ≠ some k

omit [DecidableEq κ] in
lemma ends_zero (hn : 0 < n) (hlength : window.length ≤ n) (hlast : window.getLast? ≠ some k) :
    Ends n k 0 window where
  lt := hn
  length_le := hlength
  split := ⟨window, by simp, hlast⟩

lemma length_slide_le (hn : 0 < n) (h : window.length ≤ n) : (slide n window k).1.length ≤ n := by
  simp only [slide]
  split_ifs <;>
    simp only [List.length_nil, List.length_tail, List.length_append, List.length_singleton] at * <;>
    omega

/-- The key that came last is the last one in the window, unless the window was emptied. -/
lemma getLast?_slide {k' : κ} (hk : k ≠ k') : (slide n window k).1.getLast? ≠ some k' := by
  simp only [slide]
  split_ifs
  · simp
  · cases window with
    | nil => simp
    | cons a window => simp [hk]
  · simp
  · simp [hk]

lemma Ends.slide_of_lt {c : ℕ} (h : Ends n k c window) (hc : c + 1 < n) :
    (slide n window k).2 = false ∧ Ends n k (c + 1) (slide n window k).1 := by
  obtain ⟨front, rfl, hlast⟩ := h.split
  have hlength := h.length_le
  simp only [List.length_append, List.length_replicate] at hlength
  -- the front that is left when the oldest key is dropped
  obtain ⟨front', hkept, hlast'⟩ : ∃ front' : List κ,
      (if n < (front ++ List.replicate c k ++ [k]).length
        then (front ++ List.replicate c k ++ [k]).tail else front ++ List.replicate c k ++ [k])
        = front' ++ List.replicate (c + 1) k ∧ front'.getLast? ≠ some k := by
    rw [List.append_assoc, ← List.replicate_succ']
    split_ifs with hfull
    · cases front with
      | nil =>
        simp only [List.nil_append, List.length_replicate] at hfull
        omega
      | cons a front =>
        refine ⟨front, by simp, ?_⟩
        cases front with
        | nil => simp
        | cons b front => simpa [List.getLast?_cons_cons] using hlast
    · exact ⟨front, rfl, hlast⟩
  have hopen : ¬((front' ++ List.replicate (c + 1) k).length = n
      ∧ (front' ++ List.replicate (c + 1) k).all (· = k) = true) := by
    rintro ⟨hfull, hall⟩
    simp only [List.length_append, List.length_replicate] at hfull
    obtain ⟨a, ha⟩ : ∃ a, front'.getLast? = some a := by
      rw [← Option.isSome_iff_exists, List.getLast?_isSome]
      rintro rfl
      simp only [List.length_nil] at hfull
      omega
    have hak : a = k := by
      have hmem : a ∈ front' ++ List.replicate (c + 1) k :=
        List.mem_append_left _ (List.mem_of_getLast? ha)
      simpa using List.all_eq_true.mp hall a hmem
    exact hlast' (hak ▸ ha)
  have hlength' := length_slide_le (k := k) (Nat.zero_lt_of_lt h.lt) h.length_le
  simp only [slide, hkept, if_neg hopen] at hlength' ⊢
  exact ⟨trivial, hc, hlength', front', rfl, hlast'⟩

lemma Ends.slide_of_eq {c : ℕ} (h : Ends n k c window) (hc : c + 1 = n) :
    slide n window k = ([], true) := by
  obtain ⟨front, rfl, -⟩ := h.split
  have hlength := h.length_le
  simp only [List.length_append, List.length_replicate] at hlength
  -- at most one older key stands before the copies, and it is the one that is dropped
  have hkept : (if n < (front ++ List.replicate c k ++ [k]).length
      then (front ++ List.replicate c k ++ [k]).tail else front ++ List.replicate c k ++ [k])
      = List.replicate n k := by
    rw [List.append_assoc, ← List.replicate_succ', hc]
    cases front with
    | nil => simp
    | cons a front =>
      have hnil : front = [] := by
        rw [← List.length_eq_zero_iff]
        simp only [List.length_cons] at hlength
        omega
      simp [hnil]
  simp only [slide, hkept]
  rw [if_pos]
  simp

/-- A block adds its repetitions to the count, together with the copies that the window already
holds. -/
lemma Ends.block {c : ℕ} (h : Ends n k c window) (m : ℕ) :
    hits n window (List.replicate m k) = (c + m) / n := by
  induction m generalizing c window with
  | zero => simp [hits, Nat.div_eq_of_lt h.lt]
  | succ m ih =>
    rw [List.replicate_succ, hits]
    rcases Nat.lt_or_ge (c + 1) n with hc | hc
    · obtain ⟨hquiet, hends⟩ := h.slide_of_lt hc
      rw [hquiet, ih hends, Bool.toNat_false, Nat.zero_add]
      congr 1
      omega
    · have hc' : c + 1 = n := by
        have := h.lt
        omega
      have hn : 0 < n := Nat.zero_lt_of_lt h.lt
      have hempty : Ends n k 0 ([] : List κ) := ends_zero hn (Nat.zero_le n) (by simp)
      rw [h.slide_of_eq hc', ih hempty, Bool.toNat_true, Nat.zero_add,
        show c + (m + 1) = m + n by omega, Nat.add_div_right m hn, Nat.add_comm]

/-- A block leaves no copy of another key at the end of the window. -/
lemma slid_block {m : ℕ} (hn : 0 < n) (hlength : window.length ≤ n) (hm : 0 < m) :
    (slid n window (List.replicate m k)).length ≤ n
      ∧ ∀ k', k ≠ k' → (slid n window (List.replicate m k)).getLast? ≠ some k' := by
  induction m generalizing window with
  | zero => exact absurd hm (Nat.lt_irrefl 0)
  | succ m ih =>
    rw [List.replicate_succ, slid_cons]
    cases m with
    | zero => exact ⟨length_slide_le hn hlength, fun _ hk => getLast?_slide hk⟩
    | succ m => exact ih (length_slide_le hn hlength) (Nat.succ_pos m)

/-! ## The whole list -/

/-- **The detector counts the repetitions.**  The induction is on the blocks: none of them finds a
copy of its own key at the end of the window. -/
theorem hits_eq_repeats (hn : 0 < n) (hlength : window.length ≤ n)
    (hlast : ∀ k ∈ keys.head?, window.getLast? ≠ some k) : hits n window keys = repeats n keys := by
  induction hl : keys.length using Nat.strong_induction_on generalizing window keys with
  | _ l ih =>
    cases keys with
    | nil => simp [hits]
    | cons k keys =>
      obtain ⟨m, rest, hm, hrest, hkeys⟩ := exists_block k keys
      have hends : Ends n k 0 window := ends_zero hn hlength (hlast k rfl)
      obtain ⟨hlength', hlast'⟩ := slid_block (k := k) hn hlength hm
      have hshort : rest.length < l := by
        rw [← hl, hkeys, List.length_append, List.length_replicate]
        omega
      have hrest' : ∀ k' ∈ rest.head?,
          (slid n window (List.replicate m k)).getLast? ≠ some k' := by
        intro k' hk'
        refine hlast' k' ?_
        rintro rfl
        exact hrest hk'
      rw [hkeys, hits_append, hends.block m, Nat.zero_add, ih _ hshort hlength' hrest' rfl,
        repeats_block hm hrest]

theorem hits_nil_eq_repeats (hn : 0 < n) (keys : List κ) : hits n [] keys = repeats n keys :=
  hits_eq_repeats hn (Nat.zero_le n) (by simp)

@[simp] lemma repeats_replicate (m : ℕ) : repeats n (List.replicate m k) = m / n := by
  rcases Nat.eq_zero_or_pos m with rfl | hm
  · simp
  · have hblock : repeats n (List.replicate m k ++ []) = m / n + repeats n ([] : List κ) :=
      repeats_block hm (by simp)
    simpa using hblock

end Repetition
