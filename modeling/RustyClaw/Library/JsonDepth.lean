import RustyClaw.Library.JsonValue

/-!
# Values that nest too deep

The parser opens at most `recursionLimit` arrays and objects at once, and a value can be written
that nests deeper.  `parse_render_eq` says that this is the only thing that can happen to a written
value: it is read back as it is, or it is refused.

The argument compares a parser with one that may go deeper (`Carries`): what the first reads, the
second reads in the same way, and it does not nest deeper than the first may go.
-/

namespace Json

open Glyph

variable {χ : Type} [Glyph χ]

/-- What `value` reads, `value'` reads, too, and it nests at most `n` levels. -/
def Carries (n : Nat) (value value' : Parser χ) : Prop :=
  ∀ s j rest, value s = some (j, rest) → value' s = some (j, rest) ∧ depth j ≤ n

section Carries

variable {n : Nat} {value value' : Parser χ}

lemma Carries.takeItems (h : Carries n value value') {fuel : Nat} {s rest : List χ}
    {items : List (Json χ)} (hread : takeItems value fuel s = some (items, rest)) :
    takeItems value' fuel s = some (items, rest) ∧ depthItems items ≤ n := by
  induction fuel generalizing s items with
  | zero => cases hread
  | succ fuel ih =>
    simp only [Json.takeItems, Option.bind_eq_bind, Option.bind_eq_some_iff] at hread ⊢
    obtain ⟨⟨item, s₁⟩, hitem, hread⟩ := hread
    obtain ⟨hitem', hdepth⟩ := h _ _ _ hitem
    split at hread
    · cases hread
    · next g s₂ hspace =>
      split_ifs at hread with hcomma hclose
      · obtain ⟨⟨items', rest'⟩, hread', heq⟩ := Option.map_eq_some_iff.mp hread
        cases heq
        obtain ⟨hitems, hdepths⟩ := ih hread'
        refine ⟨⟨(item, s₁), hitem', ?_⟩, max_le hdepth hdepths⟩
        rw [hspace]
        simp only [if_pos hcomma, hitems, Option.map_some]
      · cases hread
        refine ⟨⟨(item, s₁), hitem', ?_⟩, max_le hdepth (Nat.zero_le n)⟩
        rw [hspace]
        simp only [if_neg hcomma, if_pos hclose]

lemma Carries.takeFields (h : Carries n value value') {fuel : Nat} {s rest : List χ}
    {fields : Fields χ} (hread : takeFields value fuel s = some (fields, rest)) :
    takeFields value' fuel s = some (fields, rest) ∧ depthFields fields ≤ n := by
  induction fuel generalizing s fields with
  | zero => cases hread
  | succ fuel ih =>
    simp only [Json.takeFields] at hread ⊢
    split at hread
    · cases hread
    · next q s₁ hspace =>
      split_ifs at hread with hquote
      obtain ⟨⟨key, s₂⟩, hkey, hread⟩ := Option.bind_eq_some_iff.mp hread
      dsimp only at hread
      split at hread
      · cases hread
      · next colon s₃ hspace₃ =>
        split_ifs at hread with hcolon
        obtain ⟨⟨item, s₄⟩, hitem, hread⟩ := Option.bind_eq_some_iff.mp hread
        obtain ⟨hitem', hdepth⟩ := h _ _ _ hitem
        dsimp only at hread
        split at hread
        · cases hread
        · next g s₅ hspace₅ =>
          split_ifs at hread with hcomma hclose
          · obtain ⟨⟨fields', rest'⟩, hfields, heq⟩ := Option.map_eq_some_iff.mp hread
            cases heq
            obtain ⟨hfields', hdepths⟩ := ih hfields
            refine ⟨?_, max_le hdepth hdepths⟩
            simp only [if_pos hquote, hkey, Option.bind_eq_bind, Option.bind_some, hspace₃,
              if_pos hcolon, hitem', hspace₅, if_pos hcomma, hfields', Option.map_some]
          · cases hread
            refine ⟨?_, max_le hdepth (Nat.zero_le n)⟩
            simp only [if_pos hquote, hkey, Option.bind_eq_bind, Option.bind_some, hspace₃,
              if_pos hcolon, hitem', hspace₅, if_neg hcomma, if_pos hclose]

lemma Carries.takeArray (h : Carries n value value') {s rest : List χ} {j : Json χ}
    (hread : takeArray value s = some (j, rest)) :
    takeArray value' s = some (j, rest) ∧ depth j ≤ n + 1 := by
  unfold Json.takeArray at hread ⊢
  split at hread
  · cases hread
  · next g s₁ hspace =>
    split_ifs at hread with hclose
    · cases hread
      exact ⟨if_pos hclose, Nat.succ_le_succ (Nat.zero_le n)⟩
    · obtain ⟨⟨items, rest'⟩, hitems, heq⟩ := Option.map_eq_some_iff.mp hread
      cases heq
      obtain ⟨hitems', hdepth⟩ := h.takeItems hitems
      refine ⟨?_, Nat.succ_le_succ hdepth⟩
      simp only [if_neg hclose, hitems', Option.map_some]

lemma Carries.takeObject (h : Carries n value value') {s rest : List χ} {j : Json χ}
    (hread : takeObject value s = some (j, rest)) :
    takeObject value' s = some (j, rest) ∧ depth j ≤ n + 1 := by
  unfold Json.takeObject at hread ⊢
  split at hread
  · cases hread
  · next g s₁ hspace =>
    split_ifs at hread with hclose
    · cases hread
      exact ⟨if_pos hclose, Nat.succ_le_succ (Nat.zero_le n)⟩
    · obtain ⟨⟨fields, rest'⟩, hfields, heq⟩ := Option.map_eq_some_iff.mp hread
      cases heq
      obtain ⟨hfields', hdepth⟩ := h.takeFields hfields
      refine ⟨?_, Nat.succ_le_succ hdepth⟩
      simp only [if_neg hclose, hfields', Option.map_some]

end Carries

/-- A parser for what may stand inside carries over to the parser around it. -/
lemma carries_takeValue {n : Nat} {nested nested' : Option (Parser χ)}
    (h : ∀ value ∈ nested, ∃ value' ∈ nested', ∃ m, m < n ∧ Carries m value value') :
    Carries n (takeValue nested) (takeValue nested') := by
  intro s j rest hread
  unfold takeValue at hread ⊢
  split at hread
  · cases hread
  · next g s₁ hspace =>
    split at hread
    case h_1 | h_2 | h_3 =>
      obtain ⟨s₂, -, heq⟩ := Option.map_eq_some_iff.mp hread
      cases heq
      exact ⟨hread, Nat.zero_le n⟩
    case h_4 =>
      obtain ⟨⟨text, rest'⟩, -, heq⟩ := Option.map_eq_some_iff.mp hread
      cases heq
      exact ⟨hread, Nat.zero_le n⟩
    case h_5 =>
      obtain ⟨value, hmem, hread'⟩ := Option.bind_eq_some_iff.mp hread
      obtain ⟨value', hmem', m, hm, hcarries⟩ := h value hmem
      obtain ⟨hread'', hdepth⟩ := hcarries.takeArray hread'
      exact ⟨Option.bind_eq_some_iff.mpr ⟨value', hmem', hread''⟩, hdepth.trans hm⟩
    case h_6 =>
      obtain ⟨value, hmem, hread'⟩ := Option.bind_eq_some_iff.mp hread
      obtain ⟨value', hmem', m, hm, hcarries⟩ := h value hmem
      obtain ⟨hread'', hdepth⟩ := hcarries.takeObject hread'
      exact ⟨Option.bind_eq_some_iff.mpr ⟨value', hmem', hread''⟩, hdepth.trans hm⟩
    case h_7 =>
      refine ⟨hread, ?_⟩
      unfold takeNumLit at hread
      split at hread
      · cases hread
      · cases hread
        exact Nat.zero_le n

lemma carries_parseValue (n : Nat) : Carries (χ := χ) n (parseValue n) (parseValue (n + 1)) := by
  induction n with
  | zero => exact carries_takeValue fun value hvalue => (Option.not_mem_none value hvalue).elim
  | succ n ih =>
    refine carries_takeValue fun value hvalue => ?_
    obtain rfl := Option.mem_some_iff.mp hvalue
    exact ⟨_, rfl, n, Nat.lt_succ_self n, ih⟩

lemma parseValue_add {n : Nat} (k : Nat) {s rest : List χ} {j : Json χ}
    (h : parseValue n s = some (j, rest)) : parseValue (n + k) s = some (j, rest) := by
  induction k with
  | zero => exact h
  | succ k ih => exact (carries_parseValue (n + k) s j rest ih).1

/-- A written value is read back as it is, unless it nests too deep. -/
theorem parse_render_eq (j : Json χ) :
    parse (render j) = if depth j ≤ recursionLimit then some j else none := by
  by_cases hdepth : depth j ≤ recursionLimit
  · rw [if_pos hdepth, parse_render j hdepth]
  · rw [if_neg hdepth]
    have hnone : parseValue recursionLimit (render j) = none := by
      by_contra hsome
      obtain ⟨⟨value, rest⟩, hread⟩ := Option.ne_none_iff_exists'.mp hsome
      have hbound := (carries_parseValue recursionLimit _ _ _ hread).2
      have hdeep := parseValue_add (depth j) hread
      have hself := parseValue_render (recursionLimit + depth j) j []
        (Nat.le_add_left _ _) ends_nil
      rw [List.append_nil, hdeep] at hself
      cases hself
      exact hdepth hbound
    rw [parse, hnone]

/-! ## Sorting -/

lemma depthFields_le_iff {n : Nat} {fields : List (List χ × Json χ)} :
    depthFields fields ≤ n ↔ ∀ field ∈ fields, depth field.2 ≤ n := by
  induction fields with
  | nil => simp [depthFields]
  | cons field fields ih =>
    obtain ⟨key, value⟩ := field
    rw [depthFields, Nat.max_le, ih, List.forall_mem_cons]

lemma depthFields_insertField_le (key : List χ) (value : Json χ)
    (fields : List (List χ × Json χ)) :
    depthFields (insertField key value fields) ≤ max (depth value) (depthFields fields) := by
  induction fields with
  | nil => exact Nat.le_refl _
  | cons field fields ih =>
    obtain ⟨key', value'⟩ := field
    unfold insertField
    split_ifs
    · exact Nat.le_refl _
    · simp only [depthFields]
      omega
    · simp only [depthFields]
      omega

mutual

/-- Sorting the objects of a value nests it no deeper. -/
theorem depth_normalize_le : ∀ j : Json χ, depth (normalize j) ≤ depth j
  | .null | .bool _ | .num _ | .str _ => Nat.le_refl _
  | .arr items => Nat.succ_le_succ (depthItems_normalizeItems_le items)
  | .obj fields => Nat.succ_le_succ
    ((depthFields_normalizeFields_le fields []).trans (Nat.max_le.mpr ⟨Nat.zero_le _, Nat.le_refl _⟩))

theorem depthItems_normalizeItems_le : ∀ items : List (Json χ),
    depthItems (normalizeItems items) ≤ depthItems items
  | [] => Nat.le_refl _
  | item :: items => by
    have hitem := depth_normalize_le item
    have hitems := depthItems_normalizeItems_le items
    simp only [normalizeItems, depthItems]
    omega

theorem depthFields_normalizeFields_le : ∀ fields sorted : List (List χ × Json χ),
    depthFields (normalizeFields sorted fields) ≤ max (depthFields sorted) (depthFields fields)
  | [], _ => Nat.le_max_left _ _
  | (key, value) :: fields, sorted => by
    have hrest := depthFields_normalizeFields_le fields (insertField key (normalize value) sorted)
    have hinsert := depthFields_insertField_le key (normalize value) sorted
    have hvalue := depth_normalize_le value
    rw [normalizeFields]
    simp only [depthFields]
    omega

end

end Json
