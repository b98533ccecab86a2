import RustyClaw.Library.Glyph
import RustyClaw.Library.Greedy

/-!
# Byte offsets of a text

A text is cut at an offset in bytes, and a cut inside a character is an error.  `isBoundary` says
where a text may be cut, `sliceTo`, `sliceFrom` and `slice` are the cuts, with `none` for the error,
and `floorBoundary` goes back from an offset to the boundary before it.

The text in front of a boundary is the longest beginning that fits into so many bytes, so a cut at
such a boundary never fails (`sliceTo_floorBoundary`); behind a part of the text all offsets are
shifted by the size of the part (`floorBoundary_append`).
-/

namespace ByteOffset

open Glyph Greedy

variable {s t : List Char} {n m : ℕ}

def isBoundary : List Char → ℕ → Bool
  | _, 0 => true
  | [], _ + 1 => false
  | c :: s, n + 1 => c.utf8Size ≤ n + 1 && isBoundary s (n + 1 - c.utf8Size)

/-- The longest beginning of the text that fits into so many bytes. -/
def fitting (n : ℕ) (s : List Char) : List Char := afford Char.utf8Size n s

/-- `&text[..end]`. -/
def sliceTo (s : List Char) (n : ℕ) : Option (List Char) :=
  if isBoundary s n then some (fitting n s) else none

/-- `&text[start..]`. -/
def sliceFrom (s : List Char) (n : ℕ) : Option (List Char) :=
  if isBoundary s n then some (s.drop (fitting n s).length) else none

/-- `&text[start..end]`. -/
def slice (s : List Char) (start stop : ℕ) : Option (List Char) :=
  (sliceTo s stop).bind fun upTo => sliceFrom upTo start

/-- The last boundary up to an offset, but nothing below the lower end. -/
def floorBoundary (s : List Char) (lower : ℕ) : ℕ → ℕ
  | 0 => 0
  | n + 1 => if lower < n + 1 ∧ ¬isBoundary s (n + 1) then floorBoundary s lower n else n + 1

/-! ## Sizes -/

lemma utf8Len_cons (c : Char) (s : List Char) : utf8Len (c :: s) = c.utf8Size + utf8Len s :=
  List.sum_cons

lemma utf8Len_eq_zero : utf8Len s = 0 ↔ s = [] := by
  constructor
  · intro h
    cases s with
    | nil => rfl
    | cons c s =>
      have hsize := c.utf8Size_pos
      rw [utf8Len_cons] at h
      omega
  · rintro rfl
    rfl

/-! ## Boundaries -/

@[simp] lemma isBoundary_zero (s : List Char) : isBoundary s 0 = true := by
  cases s <;> rfl

/-- Behind a part of the text its size is added to all offsets. -/
lemma isBoundary_append (s t : List Char) (n : ℕ) :
    isBoundary (s ++ t) (utf8Len s + n) = isBoundary t n := by
  induction s with
  | nil => exact congrArg _ (Nat.zero_add n)
  | cons c s ih =>
    have hsize := c.utf8Size_pos
    obtain ⟨k, hk⟩ : ∃ k, utf8Len (c :: s) + n = k + 1 :=
      Nat.exists_eq_add_one.mpr (by rw [utf8Len_cons]; omega)
    have hle : c.utf8Size ≤ k + 1 := by
      rw [← hk, utf8Len_cons]
      omega
    have hrest : k + 1 - c.utf8Size = utf8Len s + n := by
      rw [← hk, utf8Len_cons]
      omega
    rw [hk, List.cons_append, isBoundary, hrest, ih, decide_eq_true hle, Bool.true_and]

/-- The boundaries are the sizes of the beginnings. -/
theorem isBoundary_iff : isBoundary s n = true ↔ ∃ p, p <+: s ∧ utf8Len p = n := by
  constructor
  · intro h
    induction s generalizing n with
    | nil =>
      cases n with
      | zero => exact ⟨[], List.nil_prefix, rfl⟩
      | succ n => exact absurd h Bool.false_ne_true
    | cons c s ih =>
      cases n with
      | zero => exact ⟨[], List.nil_prefix, rfl⟩
      | succ n =>
        rw [isBoundary, Bool.and_eq_true, decide_eq_true_eq] at h
        obtain ⟨p, hp, hlen⟩ := ih h.2
        refine ⟨c :: p, (List.prefix_cons_inj c).mpr hp, ?_⟩
        rw [utf8Len_cons, hlen]
        omega
  · rintro ⟨p, ⟨t, rfl⟩, rfl⟩
    have h := isBoundary_append p t 0
    rwa [Nat.add_zero, isBoundary_zero] at h

lemma isBoundary_utf8Len (s : List Char) : isBoundary s (utf8Len s) = true :=
  isBoundary_iff.mpr ⟨s, List.prefix_rfl, rfl⟩

/-! ## The longest beginning that fits -/

lemma prefix_fitting (n : ℕ) (s : List Char) : fitting n s <+: s := prefix_afford n s

lemma fitting_append_drop (n : ℕ) (s : List Char) :
    fitting n s ++ s.drop (fitting n s).length = s :=
  List.prefix_iff_eq_append.mp (prefix_fitting n s)

lemma utf8Len_fitting_le (n : ℕ) (s : List Char) : utf8Len (fitting n s) ≤ n := by
  induction s generalizing n with
  | nil => exact Nat.zero_le n
  | cons c s ih =>
    rw [fitting, afford]
    split_ifs with hfits
    · have htail := ih (n - c.utf8Size)
      rw [utf8Len_cons]
      rw [fitting] at htail
      omega
    · exact Nat.zero_le n

lemma isBoundary_fitting (n : ℕ) (s : List Char) :
    isBoundary s (utf8Len (fitting n s)) = true :=
  isBoundary_iff.mpr ⟨_, prefix_fitting n s, rfl⟩

/-- A beginning is what fits into its own size. -/
lemma fitting_utf8Len_append (s t : List Char) : fitting (utf8Len s) (s ++ t) = s := by
  induction s with
  | nil =>
    cases t with
    | nil => rfl
    | cons c t =>
      have hsize := c.utf8Size_pos
      rw [List.nil_append, fitting, afford, if_neg]
      change ¬c.utf8Size ≤ 0
      omega
  | cons c s ih =>
    have hsub : utf8Len (c :: s) - c.utf8Size = utf8Len s := by
      rw [utf8Len_cons, Nat.add_sub_cancel_left]
    have hle : c.utf8Size ≤ utf8Len (c :: s) := by
      rw [utf8Len_cons]
      exact Nat.le_add_right _ _
    rw [List.cons_append, fitting, afford, if_pos hle, hsub]
    exact congrArg (c :: ·) ih

lemma fitting_of_le (h : utf8Len s ≤ n) : fitting n s = s := by
  induction s generalizing n with
  | nil => rfl
  | cons c s ih =>
    rw [utf8Len_cons] at h
    rw [fitting, afford, if_pos (by omega)]
    exact congrArg (c :: ·) (ih (n := n - c.utf8Size) (by omega))

/-- What fits also fits where there is less room, if there is enough. -/
lemma fitting_eq_of_le (hm : utf8Len (fitting n s) ≤ m) (hmn : m ≤ n) :
    fitting m s = fitting n s := by
  induction s generalizing n m with
  | nil => rfl
  | cons c s ih =>
    by_cases hfits : c.utf8Size ≤ n
    · have hcons : fitting n (c :: s) = c :: fitting (n - c.utf8Size) s := if_pos hfits
      rw [hcons, utf8Len_cons] at hm
      have hfits' : c.utf8Size ≤ m := (Nat.le_add_right _ _).trans hm
      have hcons' : fitting m (c :: s) = c :: fitting (m - c.utf8Size) s := if_pos hfits'
      rw [hcons, hcons', ih (Nat.le_sub_of_add_le' hm) (Nat.sub_le_sub_right hmn _)]
    · have hnil : fitting n (c :: s) = [] := if_neg hfits
      have hnil' : fitting m (c :: s) = [] := if_neg fun h => hfits (h.trans hmn)
      rw [hnil, hnil']

/-- A boundary is an offset up to which the text fits exactly. -/
lemma isBoundary_iff_fitting : isBoundary s n = true ↔ utf8Len (fitting n s) = n := by
  constructor
  · intro h
    obtain ⟨p, ⟨t, rfl⟩, rfl⟩ := isBoundary_iff.mp h
    rw [fitting_utf8Len_append]
  · intro h
    rw [← h]
    exact isBoundary_fitting _ s

/-- What comes behind an offset does not matter. -/
lemma fitting_append_of_lt (h : n < utf8Len s) : fitting n (s ++ t) = fitting n s := by
  induction s generalizing n with
  | nil => exact absurd h (Nat.not_lt_zero n)
  | cons c s ih =>
    rw [utf8Len_cons] at h
    by_cases hfits : c.utf8Size ≤ n
    · have hcons : fitting n (c :: s) = c :: fitting (n - c.utf8Size) s := if_pos hfits
      have hcons' : fitting n (c :: s ++ t) = c :: fitting (n - c.utf8Size) (s ++ t) :=
        if_pos hfits
      rw [hcons, hcons', ih (by omega)]
    · have hnil : fitting n (c :: s) = [] := if_neg hfits
      have hnil' : fitting n (c :: s ++ t) = [] := if_neg hfits
      rw [hnil, hnil']

/-! ## Cuts -/

lemma sliceTo_utf8Len_append (s t : List Char) : sliceTo (s ++ t) (utf8Len s) = some s := by
  have hboundary : isBoundary (s ++ t) (utf8Len s) = true :=
    isBoundary_iff.mpr ⟨s, List.prefix_append s t, rfl⟩
  rw [sliceTo, if_pos hboundary, fitting_utf8Len_append]

lemma sliceFrom_utf8Len_append (s t : List Char) : sliceFrom (s ++ t) (utf8Len s) = some t := by
  have hboundary : isBoundary (s ++ t) (utf8Len s) = true :=
    isBoundary_iff.mpr ⟨s, List.prefix_append s t, rfl⟩
  rw [sliceFrom, if_pos hboundary, fitting_utf8Len_append, List.drop_left]

lemma slice_append (s t u : List Char) :
    slice (s ++ (t ++ u)) (utf8Len s) (utf8Len s + utf8Len t) = some t := by
  rw [slice, ← utf8Len_append, ← List.append_assoc, sliceTo_utf8Len_append, Option.bind_some,
    sliceFrom_utf8Len_append]

lemma isSome_sliceTo : (sliceTo s n).isSome = isBoundary s n := by
  rw [sliceTo]
  cases isBoundary s n <;> rfl

/-! ## Back to a boundary -/

/-- From the beginning of the text one goes back to what fits. -/
lemma floorBoundary_zero (s : List Char) (n : ℕ) :
    floorBoundary s 0 n = utf8Len (fitting n s) := by
  induction n with
  | zero =>
    rw [floorBoundary]
    exact (Nat.le_zero.mp (utf8Len_fitting_le 0 s)).symm
  | succ n ih =>
    rw [floorBoundary]
    split_ifs with h
    · -- there is nothing that ends at this offset, so what fits is shorter
      have hne : utf8Len (fitting (n + 1) s) ≠ n + 1 := by
        intro heq
        exact h.2 (heq ▸ isBoundary_fitting (n + 1) s)
      have hle := utf8Len_fitting_le (n + 1) s
      rw [ih, fitting_eq_of_le (by omega : utf8Len (fitting (n + 1) s) ≤ n) (Nat.le_succ n)]
    · have hboundary : isBoundary s (n + 1) = true := by
        by_contra hnot
        exact h ⟨Nat.succ_pos n, hnot⟩
      obtain ⟨p, ⟨t, rfl⟩, hlen⟩ := isBoundary_iff.mp hboundary
      rw [← hlen, fitting_utf8Len_append]

/-- Behind a part of the text one goes back no further than to its end. -/
lemma floorBoundary_append (s t : List Char) (n : ℕ) :
    floorBoundary (s ++ t) (utf8Len s) (utf8Len s + n) = utf8Len s + floorBoundary t 0 n := by
  induction n with
  | zero =>
    rw [Nat.add_zero, floorBoundary]
    cases hlen : utf8Len s with
    | zero => rfl
    | succ k => rw [floorBoundary, if_neg (by simp)]
  | succ n ih =>
    rw [← Nat.add_assoc, floorBoundary, floorBoundary, Nat.add_assoc, isBoundary_append, ih]
    have hiff : (utf8Len s < utf8Len s + (n + 1) ∧ ¬isBoundary t (n + 1) = true)
        ↔ (0 < n + 1 ∧ ¬isBoundary t (n + 1) = true) := by
      refine and_congr_left fun _ => ?_
      omega
    by_cases h : 0 < n + 1 ∧ ¬isBoundary t (n + 1) = true
    · rw [if_pos h, if_pos (hiff.mpr h)]
    · rw [if_neg h, if_neg fun h' => h (hiff.mp h')]

/-- A cut at such a boundary never fails. -/
theorem sliceTo_floorBoundary (s : List Char) (n : ℕ) :
    sliceTo s (floorBoundary s 0 n) = some (fitting n s) := by
  have h := sliceTo_utf8Len_append (fitting n s) (s.drop (fitting n s).length)
  rwa [fitting_append_drop, ← floorBoundary_zero] at h

end ByteOffset
