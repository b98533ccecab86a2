import Mathlib.Data.List.Basic
import Mathlib.Data.List.Infix
import Mathlib.Data.List.DropRight
import Mathlib.Data.Nat.Find

/-!
# Searching and trimming lists

Texts are lists over a type with decidable equality.  `OccursAt pat s i` says that the pattern
`pat` stands in `s` at position `i`; `find` is the leftmost such position.  Positions count
elements, so a cut at the position of an occurrence is `take`/`drop`.

The facts about occurrences come in three groups: how they behave under appending, that two
patterns which start with the same delimiter and contain it nowhere else never overlap
(`OccursAt.disjoint`), and what trimming keeps (`filter_trim`, `occurs_trim`).
-/

namespace Text

variable {α : Type*} {pat q s t : List α} {i j : Nat}

/-! ## Occurrences -/

def OccursAt (pat s : List α) (i : Nat) : Prop :=
  (s.drop i).take pat.length = pat

lemma OccursAt.length_le (h : OccursAt pat s i) (hpat : pat ≠ []) :
    i + pat.length ≤ s.length := by
  have hlen := congrArg List.length h
  have hpos : 0 < pat.length := List.length_pos_iff.mpr hpat
  simp only [List.length_take, List.length_drop] at hlen
  omega

lemma OccursAt.getElem? (h : OccursAt pat s i) {k : Nat} (hk : k < pat.length) :
    s[i + k]? = pat[k]? := by
  have hget := congrArg (fun l : List α => l[k]?) h
  simpa [List.getElem?_take, hk] using hget

lemma occursAt_iff_exists : OccursAt pat s i ↔ ∃ rest, s.drop i = pat ++ rest := by
  constructor
  · intro h
    refine ⟨(s.drop i).drop pat.length, ?_⟩
    have hsplit := (List.take_append_drop pat.length (s.drop i)).symm
    rwa [h] at hsplit
  · rintro ⟨rest, h⟩
    simp [OccursAt, h]

lemma occursAt_append_left (h : i + pat.length ≤ s.length) :
    OccursAt pat (s ++ t) i ↔ OccursAt pat s i := by
  unfold OccursAt
  rw [List.drop_append_of_le_length (by omega), List.take_append_of_le_length]
  simp only [List.length_drop]
  omega

lemma occursAt_append_right (pat s t : List α) (i : Nat) :
    OccursAt pat (s ++ t) (s.length + i) ↔ OccursAt pat t i := by
  unfold OccursAt
  rw [List.drop_append, List.drop_of_length_le (by omega), List.nil_append,
    Nat.add_sub_cancel_left]

lemma occursAt_self_append : OccursAt pat (s ++ pat ++ t) s.length := by
  rw [List.append_assoc]
  simpa using (occursAt_append_right pat s (pat ++ t) 0).mpr (by simp [OccursAt])

lemma occursAt_drop {n : Nat} : OccursAt pat (s.drop n) i ↔ OccursAt pat s (n + i) := by
  unfold OccursAt
  rw [List.drop_drop]

/-- An occurrence in a list that was cut and joined, behind the seam. -/
lemma occursAt_splice {a e : Nat} (ha : a ≤ s.length) :
    OccursAt pat (s.take a ++ s.drop e) (a + i) ↔ OccursAt pat s (e + i) := by
  have hlen : (s.take a).length = a := List.length_take_of_le ha
  have h := occursAt_append_right pat (s.take a) (s.drop e) i
  rw [hlen] at h
  rw [h, occursAt_drop]

/-- A pattern does not begin in a text without its first character. -/
lemma not_occursAt_append_of_not_mem {d : α} (hq : q.head? = some d) (hs : d ∉ s)
    (ht : ∀ i, ¬ OccursAt q t i) (i : Nat) : ¬ OccursAt q (s ++ t) i := by
  intro h
  have hpos : 0 < q.length := by
    cases q with
    | nil => simp at hq
    | cons _ _ => simp
  rcases Nat.lt_or_ge i s.length with hlt | hge
  · have hget := h.getElem? hpos
    rw [Nat.add_zero, List.getElem?_append_left hlt, ← List.head?_eq_getElem?, hq] at hget
    exact hs (List.mem_of_getElem? hget)
  · obtain ⟨j, rfl⟩ := Nat.exists_eq_add_of_le hge
    exact ht j ((occursAt_append_right q s t j).mp h)

/-- A pattern does not run over into a text that begins with a character it does not contain. -/
lemma not_occursAt_append_of_head (hs : ∀ i, ¬ OccursAt q s i) (ht : ∀ i, ¬ OccursAt q t i)
    (hhead : ∀ c ∈ t.head?, c ∉ q) (i : Nat) : ¬ OccursAt q (s ++ t) i := by
  intro h
  rcases Nat.lt_or_ge i s.length with hlt | hge
  · rcases Nat.lt_or_ge s.length (i + q.length) with hover | hin
    · have hget := h.getElem? (k := s.length - i) (by omega)
      rw [show i + (s.length - i) = s.length by omega, List.getElem?_append_right le_rfl,
        Nat.sub_self, ← List.head?_eq_getElem?] at hget
      cases ht : t.head? with
      | none =>
        rw [ht] at hget
        have hlen := List.getElem?_eq_none_iff.mp hget.symm
        omega
      | some c =>
        rw [ht] at hget
        exact hhead c ht (List.mem_of_getElem? hget.symm)
    · exact hs i ((occursAt_append_left hin).mp h)
  · obtain ⟨j, rfl⟩ := Nat.exists_eq_add_of_le hge
    exact ht j ((occursAt_append_right q s t j).mp h)

/-- Two occurrences of patterns that begin with a delimiter `d` do not overlap when the first
pattern does not contain `d` again. -/
lemma OccursAt.disjoint {d : α} (hi : OccursAt pat s i) (hj : OccursAt q s j) (hij : i < j)
    (hpat : d ∉ pat.tail) (hq : q.head? = some d) : i + pat.length ≤ j := by
  by_contra hlt
  have hqne : q ≠ [] := by
    rintro rfl
    simp at hq
  have hat : s[j]? = some d := by
    have h := hj.getElem? (k := 0) (List.length_pos_iff.mpr hqne)
    simpa [← List.head?_eq_getElem?, hq] using h
  have hin : s[i + (j - i)]? = pat[j - i]? := hi.getElem? (by omega)
  rw [Nat.add_sub_cancel' (Nat.le_of_lt hij), hat] at hin
  have htail : pat.tail[j - i - 1]? = some d := by
    rw [List.getElem?_tail, Nat.sub_add_cancel (by omega)]
    exact hin.symm
  exact hpat (List.mem_of_getElem? htail)

/-- Patterns that differ at some position do not occur at the same place. -/
lemma OccursAt.ne_of_getElem? {k : Nat} (hi : OccursAt pat s i) (hk : k < pat.length)
    (hkq : k < q.length) (hne : pat[k]? ≠ q[k]?) : ¬ OccursAt q s i := by
  intro hq
  exact hne ((hi.getElem? hk).symm.trans (hq.getElem? hkq))

/-! ## The leftmost occurrence -/

section Search

variable [DecidableEq α]

/-- The leftmost occurrence. -/
def find (pat : List α) : List α → Option Nat
  | [] => if pat = [] then some 0 else none
  | c :: s => if (c :: s).take pat.length = pat then some 0 else (find pat s).map (· + 1)

def contains (pat s : List α) : Bool :=
  (find pat s).isSome

def endsWith (pat s : List α) : Bool :=
  decide (pat <:+ s)

lemma find_eq_some_iff (hpat : pat ≠ []) :
    find pat s = some i ↔ OccursAt pat s i ∧ ∀ j < i, ¬ OccursAt pat s j := by
  induction s generalizing i with
  | nil =>
    have hnone : ∀ i, ¬ OccursAt pat [] i := by
      intro i h
      have hlen := h.length_le hpat
      have hpos := List.length_pos_iff.mpr hpat
      simp only [List.length_nil] at hlen
      omega
    simp [find, hpat, hnone]
  | cons c s ih =>
    have hsucc : ∀ j, OccursAt pat (c :: s) (j + 1) ↔ OccursAt pat s j := fun j => Iff.rfl
    unfold find
    split_ifs with h
    · have hzero : OccursAt pat (c :: s) 0 := h
      constructor
      · rintro ⟨⟩
        exact ⟨hzero, by omega⟩
      · rintro ⟨-, hmin⟩
        cases i with
        | zero => rfl
        | succ i => exact absurd hzero (hmin 0 (Nat.succ_pos i))
    · have hzero : ¬ OccursAt pat (c :: s) 0 := h
      cases i with
      | zero => simp [hzero]
      | succ i =>
        simp only [Option.map_eq_some_iff, Nat.add_right_cancel_iff, exists_eq_right, hsucc]
        rw [ih]
        refine and_congr_right fun _ => ⟨fun hmin j hj => ?_, fun hmin j hj => ?_⟩
        · cases j with
          | zero => exact hzero
          | succ j => exact hmin j (by omega)
        · exact hmin (j + 1) (by omega)

lemma find_eq_none_iff (hpat : pat ≠ []) : find pat s = none ↔ ∀ i, ¬ OccursAt pat s i := by
  constructor
  · intro h i hi
    -- the least occurrence would have been found
    classical
    have hex : ∃ i, OccursAt pat s i := ⟨i, hi⟩
    have hfound := (find_eq_some_iff hpat).mpr
      ⟨Nat.find_spec hex, fun j hj => Nat.find_min hex hj⟩
    rw [h] at hfound
    cases hfound
  · intro h
    cases hf : find pat s with
    | none => rfl
    | some i => exact absurd ((find_eq_some_iff hpat).mp hf).1 (h i)

lemma contains_iff (hpat : pat ≠ []) : contains pat s = true ↔ ∃ i, OccursAt pat s i := by
  rw [contains, Option.isSome_iff_ne_none, Ne, find_eq_none_iff hpat]
  push Not
  rfl

lemma contains_iff_infix (hpat : pat ≠ []) : contains pat s = true ↔ pat <:+: s := by
  rw [contains_iff hpat]
  constructor
  · rintro ⟨i, h⟩
    obtain ⟨rest, hrest⟩ := occursAt_iff_exists.mp h
    exact ⟨s.take i, rest, by rw [List.append_assoc, ← hrest, List.take_append_drop]⟩
  · rintro ⟨a, b, rfl⟩
    exact ⟨a.length, occursAt_self_append⟩

lemma contains_eq_false_iff (hpat : pat ≠ []) :
    contains pat s = false ↔ ∀ i, ¬ OccursAt pat s i := by
  rw [← Bool.not_eq_true, contains_iff hpat]
  push Not
  rfl

lemma endsWith_iff : endsWith pat s = true ↔ ∃ front, s = front ++ pat := by
  simp only [endsWith, decide_eq_true_eq]
  exact ⟨fun ⟨front, h⟩ => ⟨front, h.symm⟩, fun ⟨front, h⟩ => ⟨front, h.symm⟩⟩

end Search

/-! ## Trimming -/

section Trim

variable (p : α → Bool)

def trim (s : List α) : List α :=
  (s.dropWhile p).rdropWhile p

lemma trim_sublist (s : List α) : (trim p s).Sublist s :=
  (List.rdropWhile_prefix p _).sublist.trans (List.dropWhile_sublist p)

lemma exists_trim_eq (s : List α) :
    ∃ a b, s = a ++ trim p s ++ b ∧ (∀ c ∈ a, p c = true) ∧ ∀ c ∈ b, p c = true := by
  refine ⟨s.takeWhile p, (s.dropWhile p).rtakeWhile p, ?_, fun c hc => ?_, fun c hc => ?_⟩
  · rw [List.append_assoc, trim, List.rdropWhile_append_rtakeWhile, List.takeWhile_append_dropWhile]
  · exact List.mem_takeWhile_imp hc
  · exact List.mem_rtakeWhile_imp hc

/-- Trimming drops no element that is kept by the filter. -/
lemma filter_trim (s : List α) :
    (trim p s).filter (fun c => !p c) = s.filter fun c => !p c := by
  obtain ⟨a, b, hs, ha, hb⟩ := exists_trim_eq p s
  have hnil : ∀ l : List α, (∀ c ∈ l, p c = true) → l.filter (fun c => !p c) = [] := by
    intro l hl
    rw [List.filter_eq_nil_iff]
    intro c hc
    simp [hl c hc]
  conv_rhs => rw [hs]
  simp [List.filter_append, hnil a ha, hnil b hb]

lemma rdropWhile_append_of_all {s w : List α} (hw : ∀ c ∈ w, p c = true) :
    (s ++ w).rdropWhile p = s.rdropWhile p := by
  have hrev : ∀ c ∈ w.reverse, p c = true := fun c hc => hw c (List.mem_reverse.mp hc)
  simp only [List.rdropWhile, List.reverse_append, List.dropWhile_append_of_pos hrev]

/-- Trimmed elements at the end of a text make no difference. -/
lemma trim_append_of_all {s w : List α} (hw : ∀ c ∈ w, p c = true) :
    trim p (s ++ w) = trim p s := by
  unfold trim
  rw [List.dropWhile_append]
  split_ifs with hempty
  · rw [List.dropWhile_eq_nil_iff.mpr hw, List.isEmpty_iff.mp hempty]
  · exact rdropWhile_append_of_all p hw

/-- Trimmed texts that agree have the same elements besides those that trimming drops. -/
lemma countP_of_trim_eq {s t : List α} (h : trim p s = trim p t) :
    s.countP (fun c => !p c) = t.countP fun c => !p c := by
  rw [List.countP_eq_length_filter, List.countP_eq_length_filter, ← filter_trim p s,
    ← filter_trim p t, h]

/-- A pattern free of trimmed elements occurs in a text exactly when it occurs in the trimmed
text. -/
lemma occurs_trim {p} (hpat : pat ≠ []) (hfree : ∀ c ∈ pat, p c = false) (s : List α) :
    (∃ i, OccursAt pat (trim p s) i) ↔ ∃ i, OccursAt pat s i := by
  obtain ⟨a, b, hs, ha, hb⟩ := exists_trim_eq p s
  constructor
  · rintro ⟨i, hi⟩
    rw [hs, List.append_assoc]
    refine ⟨a.length + i, (occursAt_append_right _ _ _ _).mpr ?_⟩
    exact (occursAt_append_left (hi.length_le hpat)).mpr hi
  · rintro ⟨i, hi⟩
    have hpos : 0 < pat.length := List.length_pos_iff.mpr hpat
    have hfreeAt : ∀ k < pat.length, ∀ c, s[i + k]? = some c → p c = false := by
      intro k hk c hc
      rw [hi.getElem? hk] at hc
      exact hfree c (List.mem_of_getElem? hc)
    have hlen := hi.length_le hpat
    -- the first element of the occurrence is behind `a`, the last one before `b`
    have hstart : a.length ≤ i := by
      by_contra hlt
      have hget : s[i]? = some (a.get ⟨i, by omega⟩) := by
        rw [hs, List.append_assoc, List.getElem?_append_left (by omega),
          List.getElem?_eq_getElem, List.get_eq_getElem]
      have hf := hfreeAt 0 hpos _ hget
      rw [ha _ (List.get_mem _ _)] at hf
      cases hf
    have hend : i + pat.length ≤ a.length + (trim p s).length := by
      by_contra hlt
      have hl : (a ++ trim p s).length ≤ i + (pat.length - 1) := by
        simp only [List.length_append]
        omega
      have hin : i + (pat.length - 1) - (a ++ trim p s).length < b.length := by
        have hsl := congrArg List.length hs
        simp only [List.length_append] at hsl hl ⊢
        omega
      have hget : s[i + (pat.length - 1)]? = some (b.get ⟨_, hin⟩) := by
        conv_lhs => rw [hs]
        rw [List.getElem?_append_right hl, List.getElem?_eq_getElem hin, List.get_eq_getElem]
      have hf := hfreeAt (pat.length - 1) (by omega) _ hget
      rw [hb _ (List.get_mem _ _)] at hf
      cases hf
    refine ⟨i - a.length, ?_⟩
    rw [hs, List.append_assoc, ← Nat.add_sub_cancel' hstart, occursAt_append_right,
      occursAt_append_left (by omega)] at hi
    exact hi

end Trim

/-! ## Decimal digits -/

lemma isDigit_toDigits {n : Nat} {c : Char} (h : c ∈ Nat.toDigits 10 n) : c.isDigit = true :=
  Nat.isDigit_of_mem_toDigits (by omega) (by omega) h

lemma not_mem_toDigits {c : Char} (h : c.isDigit = false) (n : Nat) : c ∉ Nat.toDigits 10 n := by
  intro hmem
  rw [isDigit_toDigits hmem] at h
  contradiction

lemma toDigits_injective : Function.Injective (Nat.toDigits 10) := by
  intro n m h
  rw [← Nat.ofDigitChars_ten_toDigits (n := n), h, Nat.ofDigitChars_ten_toDigits]

end Text
