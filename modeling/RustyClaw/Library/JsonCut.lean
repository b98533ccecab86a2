import RustyClaw.Library.JsonPretty

/-!
# JSON texts that are cut short

The parser looks at no more than it takes: what it reads from a text it reads from a longer one,
too, and leaves the rest for later (`Extends`).  A number is the exception, for its end is only seen
from what comes behind it.

`parse_eq_none_of_cut` is what a reader of files needs: a file that holds only the beginning of the
text of an object holds no JSON text at all.
-/

namespace Json

open Glyph

variable {χ : Type} [Glyph χ]

/-! ## Characters and strings -/

lemma skipSpace_append {s : List χ} (h : skipSpace s ≠ []) (more : List χ) :
    skipSpace (s ++ more) = skipSpace s ++ more := by
  unfold skipSpace at *
  rw [List.dropWhile_append, if_neg (by simpa using h)]

lemma takeHex4_append {s rest : List χ} {n : Nat} {g : χ} (h : takeHex4 s = some (n, g, rest))
    (more : List χ) : takeHex4 (s ++ more) = some (n, g, rest ++ more) := by
  match s with
  | a :: b :: c :: d :: s =>
    simp only [takeHex4, Option.bind_eq_bind, Option.bind_eq_some_iff] at h
    obtain ⟨x, ha, y, hb, z, hc, w, hd, heq⟩ := h
    cases heq
    simp [takeHex4, ha, hb, hc, hd]

lemma takeUnicode_append {s rest : List χ} {g : χ} (h : takeUnicode s = some (g, rest))
    (more : List χ) : takeUnicode (s ++ more) = some (g, rest ++ more) := by
  simp only [takeUnicode, Option.bind_eq_bind, Option.bind_eq_some_iff] at h ⊢
  obtain ⟨⟨high, g₀, s₀⟩, hhigh, h⟩ := h
  refine ⟨_, takeHex4_append hhigh more, ?_⟩
  dsimp only at h ⊢
  split_ifs at h ⊢
  · obtain _ | ⟨b, _ | ⟨u, s₁⟩⟩ := s₀
    · cases h
    · cases h
    · dsimp only [List.cons_append] at h ⊢
      split_ifs at h ⊢
      obtain ⟨⟨low, g₁, s₂⟩, hlow, h⟩ := Option.bind_eq_some_iff.mp h
      rw [takeHex4_append hlow more]
      dsimp only [Option.bind_some] at h ⊢
      split_ifs at h ⊢
      cases h
      rfl
  · cases h
    rfl

lemma takeEscape_append {s rest : List χ} {g : χ} (h : takeEscape s = some (g, rest))
    (more : List χ) : takeEscape (s ++ more) = some (g, rest ++ more) := by
  cases s with
  | nil => cases h
  | cons g₀ s =>
    rw [List.cons_append]
    simp only [takeEscape] at h ⊢
    split at h
    case h_9 => exact takeUnicode_append h more
    case h_10 => cases h
    all_goals
      cases h
      rfl

lemma takeString_append {fuel fuel' : Nat} {s text rest : List χ}
    (h : takeString fuel s = some (text, rest)) (hfuel : fuel ≤ fuel') (more : List χ) :
    takeString fuel' (s ++ more) = some (text, rest ++ more) := by
  induction fuel generalizing fuel' s text with
  | zero => cases h
  | succ fuel ih =>
    obtain ⟨fuel', rfl⟩ : ∃ n, fuel' = n + 1 := ⟨fuel' - 1, by omega⟩
    have hle : fuel ≤ fuel' := by omega
    cases s with
    | nil => cases h
    | cons g s =>
      rw [List.cons_append]
      simp only [takeString] at h ⊢
      split_ifs at h ⊢
      · cases h
        rfl
      · split at h
        · rename_i g' s' hescape
          obtain ⟨⟨text', rest'⟩, hread, heq⟩ := Option.map_eq_some_iff.mp h
          cases heq
          rw [takeEscape_append hescape more]
          simp [ih hread hle]
        · cases h
      · obtain ⟨⟨text', rest'⟩, hread, heq⟩ := Option.map_eq_some_iff.mp h
        cases heq
        simp [ih hread hle]

lemma takeNumber_more {st : NumState} {s lexeme rest : List χ}
    (h : takeNumber st s = some (lexeme, rest)) (hrest : rest ≠ []) (more : List χ) :
    takeNumber st (s ++ more) = some (lexeme, rest ++ more) := by
  induction s generalizing st lexeme with
  | nil =>
    simp only [takeNumber] at h
    split_ifs at h
    cases h
    exact absurd rfl hrest
  | cons g s ih =>
    rw [List.cons_append]
    simp only [takeNumber] at h ⊢
    split at h
    · obtain ⟨⟨lexeme', rest'⟩, hread, heq⟩ := Option.map_eq_some_iff.mp h
      cases heq
      simp [ih hread]
    · split_ifs at h ⊢
      cases h
      rfl

lemma takeLiteral_append {literal : String} {s rest : List χ}
    (h : takeLiteral literal s = some rest) (more : List χ) :
    takeLiteral literal (s ++ more) = some (rest ++ more) := by
  unfold takeLiteral at *
  split_ifs at h with htake
  cases h
  have hlen : literal.toList.length ≤ s.length := by
    have := congrArg List.length htake
    simp only [chars, List.length_map, List.length_take] at this
    omega
  rw [List.take_append_of_le_length hlen, if_pos htake, List.drop_append_of_le_length hlen]

/-! ## Values -/

/-- What is read before the end of a text is read from a longer text. -/
def Extends (value : Parser χ) : Prop :=
  ∀ s j rest more, rest ≠ [] → value s = some (j, rest) →
    value (s ++ more) = some (j, rest ++ more)

/-- Behind something that is not blank there is something left. -/
lemma ne_nil_of_skipSpace {s : List χ} {g : χ} {rest : List χ} (h : skipSpace s = g :: rest) :
    s ≠ [] := by
  rintro rfl
  cases h

lemma skipSpace_more {s : List χ} {g : χ} {rest : List χ} (h : skipSpace s = g :: rest)
    (more : List χ) : skipSpace (s ++ more) = g :: (rest ++ more) := by
  rw [skipSpace_append (by simp [h]), h, List.cons_append]

variable {value : Parser χ} {s rest : List χ}

lemma Extends.takeItems (hvalue : Extends value) {fuel fuel' : Nat} {items : List (Json χ)}
    (h : takeItems value fuel s = some (items, rest)) (hfuel : fuel ≤ fuel') (more : List χ) :
    takeItems value fuel' (s ++ more) = some (items, rest ++ more) := by
  induction fuel generalizing fuel' s items with
  | zero => cases h
  | succ fuel ih =>
    obtain ⟨fuel', rfl⟩ : ∃ n, fuel' = n + 1 := ⟨fuel' - 1, by omega⟩
    have hle : fuel ≤ fuel' := by omega
    simp only [Json.takeItems, Option.bind_eq_bind, Option.bind_eq_some_iff] at h ⊢
    obtain ⟨⟨item, s₁⟩, hitem, h⟩ := h
    dsimp only at h
    split at h
    · cases h
    rename_i g s₂ hspace
    refine ⟨_, hvalue s item s₁ more (ne_nil_of_skipSpace hspace) hitem, ?_⟩
    dsimp only
    rw [skipSpace_more hspace]
    dsimp only
    split_ifs at h ⊢
    · obtain ⟨⟨items', rest'⟩, hread, heq⟩ := Option.map_eq_some_iff.mp h
      cases heq
      rw [ih hread hle, Option.map_some]
    · cases h
      rfl

lemma Extends.takeFields (hvalue : Extends value) {fuel fuel' : Nat}
    {fields : List (List χ × Json χ)} (h : takeFields value fuel s = some (fields, rest))
    (hfuel : fuel ≤ fuel') (more : List χ) :
    takeFields value fuel' (s ++ more) = some (fields, rest ++ more) := by
  induction fuel generalizing fuel' s fields with
  | zero => cases h
  | succ fuel ih =>
    obtain ⟨fuel', rfl⟩ : ∃ n, fuel' = n + 1 := ⟨fuel' - 1, by omega⟩
    have hle : fuel ≤ fuel' := by omega
    simp only [Json.takeFields] at h ⊢
    split at h
    · cases h
    rename_i q s₁ hspace
    rw [skipSpace_more hspace]
    dsimp only
    split_ifs at h ⊢
    obtain ⟨⟨key, s₂⟩, hkey, h⟩ := Option.bind_eq_some_iff.mp h
    refine Option.bind_eq_some_iff.mpr ⟨_, takeString_append hkey (by simp) more, ?_⟩
    dsimp only at h ⊢
    split at h
    · cases h
    rename_i colon s₃ hspace₂
    rw [skipSpace_more hspace₂]
    dsimp only
    split_ifs at h ⊢
    obtain ⟨⟨item, s₄⟩, hitem, h⟩ := Option.bind_eq_some_iff.mp h
    dsimp only at h
    split at h
    · cases h
    rename_i g s₅ hspace₄
    refine Option.bind_eq_some_iff.mpr
      ⟨_, hvalue s₃ item s₄ more (ne_nil_of_skipSpace hspace₄) hitem, ?_⟩
    dsimp only
    rw [skipSpace_more hspace₄]
    dsimp only
    split_ifs at h ⊢
    · obtain ⟨⟨fields', rest'⟩, hread, heq⟩ := Option.map_eq_some_iff.mp h
      cases heq
      rw [ih hread hle, Option.map_some]
    · cases h
      rfl

/-- An array says itself where it ends. -/
lemma Extends.takeArray (hvalue : Extends value) {j : Json χ}
    (h : takeArray value s = some (j, rest)) (more : List χ) :
    takeArray value (s ++ more) = some (j, rest ++ more) := by
  unfold Json.takeArray at h ⊢
  split at h
  · cases h
  rename_i g s₁ hspace
  rw [skipSpace_more hspace]
  dsimp only
  split_ifs at h ⊢
  · cases h
    rfl
  · obtain ⟨⟨items, rest'⟩, hread, heq⟩ := Option.map_eq_some_iff.mp h
    cases heq
    rw [hvalue.takeItems hread (by simp) more, Option.map_some]

/-- An object says itself where it ends. -/
lemma Extends.takeObject (hvalue : Extends value) {j : Json χ}
    (h : takeObject value s = some (j, rest)) (more : List χ) :
    takeObject value (s ++ more) = some (j, rest ++ more) := by
  unfold Json.takeObject at h ⊢
  split at h
  · cases h
  rename_i g s₁ hspace
  rw [skipSpace_more hspace]
  dsimp only
  split_ifs at h ⊢
  · cases h
    rfl
  · obtain ⟨⟨fields, rest'⟩, hread, heq⟩ := Option.map_eq_some_iff.mp h
    cases heq
    rw [hvalue.takeFields hread (by simp) more, Option.map_some]

lemma takeNumLit_more {j : Json χ} (h : takeNumLit s = some (j, rest)) (hrest : rest ≠ [])
    (more : List χ) : takeNumLit (s ++ more) = some (j, rest ++ more) := by
  unfold takeNumLit at h
  split at h
  · cases h
  rename_i lexeme rest' hnumber
  cases h
  have hmore := takeNumber_more hnumber hrest more
  unfold takeNumLit
  split
  · rename_i hnone
    rw [hmore] at hnone
    cases hnone
  · rename_i hsome
    rw [hmore] at hsome
    cases hsome
    rfl

/-- One value, when `nested` reads the values inside it from longer texts, too. -/
lemma extends_takeValue {nested : Option (Parser χ)} (hnested : ∀ value ∈ nested, Extends value) :
    Extends (takeValue nested) := by
  intro s j rest more hrest h
  unfold takeValue at h ⊢
  split at h
  · cases h
  rename_i g s₁ hspace
  rw [skipSpace_more hspace]
  dsimp only
  split at h
  case h_1 | h_2 | h_3 =>
    obtain ⟨s₂, hliteral, heq⟩ := Option.map_eq_some_iff.mp h
    cases heq
    rw [takeLiteral_append hliteral more, Option.map_some]
  case h_4 =>
    obtain ⟨⟨text, rest'⟩, hread, heq⟩ := Option.map_eq_some_iff.mp h
    cases heq
    rw [takeString_append hread (by simp) more, Option.map_some]
  case h_5 =>
    obtain ⟨value, hmem, hread⟩ := Option.bind_eq_some_iff.mp h
    exact Option.bind_eq_some_iff.mpr ⟨value, hmem, (hnested value hmem).takeArray hread more⟩
  case h_6 =>
    obtain ⟨value, hmem, hread⟩ := Option.bind_eq_some_iff.mp h
    exact Option.bind_eq_some_iff.mpr ⟨value, hmem, (hnested value hmem).takeObject hread more⟩
  case h_7 => exact takeNumLit_more h hrest more

lemma extends_parseValue (n : Nat) : Extends (parseValue (χ := χ) n) := by
  induction n with
  | zero => exact extends_takeValue (by simp)
  | succ n ih => exact extends_takeValue (by simpa using ih)

/-! ## Objects that are cut short -/

/-- A text that begins with a brace is read to its closing brace, whatever follows. -/
lemma takeValue_brace {nested : Option (Parser χ)} (hnested : ∀ value ∈ nested, Extends value)
    {j : Json χ} (h : takeValue nested (lit '\x7b' :: s) = some (j, rest)) (more : List χ) :
    takeValue nested (lit '\x7b' :: s ++ more) = some (j, rest ++ more) := by
  have hspace : ∀ t : List χ, skipSpace (lit '\x7b' :: t) = lit '\x7b' :: t :=
    fun t => skipSpace_lit (by decide)
  rw [List.cons_append]
  unfold takeValue at h ⊢
  rw [hspace] at h ⊢
  dsimp only at h ⊢
  rw [chr_lit] at h ⊢
  obtain ⟨value, hmem, hread⟩ := Option.bind_eq_some_iff.mp h
  exact Option.bind_eq_some_iff.mpr ⟨value, hmem, (hnested value hmem).takeObject hread more⟩

/-- The beginning of the text of an object is no JSON text. -/
theorem parse_eq_none_of_cut {fields : List (List χ × Json χ)}
    (hdepth : depth (.obj fields) ≤ recursionLimit) {n : Nat}
    (hn : n < (pretty 0 (.obj fields)).length) : parse ((pretty 0 (.obj fields)).take n) = none := by
  have hread := parseValue_pretty recursionLimit 0 (.obj fields) [] [] hdepth blank_nil ends_nil
  rw [List.nil_append, List.append_nil] at hread
  have hcut := List.take_append_drop n (pretty 0 (.obj fields))
  have hmore : (pretty 0 (.obj fields)).drop n ≠ [] := by simpa using hn
  generalize htext : (pretty 0 (.obj fields)).take n = cut at hcut ⊢
  generalize (pretty 0 (.obj fields)).drop n = more at hcut hmore
  by_contra hsome
  unfold parse at hsome
  split at hsome
  · rename_i j rest hcutread
    -- the text is read from its beginning on with the rest left over, but nothing is left over
    have hextended : parseValue recursionLimit (cut ++ more) = some (j, rest ++ more) := by
      cases cut with
      | nil => cases hcutread
      | cons g cut =>
        have hbrace : g = lit '\x7b' := by
          have := congrArg List.head? hcut
          simpa [pretty] using this
        subst hbrace
        exact takeValue_brace (by simpa using extends_parseValue 126) hcutread more
    rw [hcut, hread] at hextended
    simp only [Option.some.injEq, Prod.mk.injEq] at hextended
    exact hmore (List.append_eq_nil_iff.mp hextended.2.symm).2
  · exact hsome rfl

end Json
