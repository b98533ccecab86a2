import RustyClaw.Library.JsonData

/-!
# Where the text of an object ends

The readers of the parser leave an end of the text they are given.  The reader of objects stops
right behind a closing brace, so the last character of the text of an object, but for white space,
is that brace (`exists_of_parse_obj`).  A text that ends otherwise stands for something else.
-/

namespace Json

open Glyph

variable {χ : Type} [Glyph χ]

/-! ## Strings and numbers -/

lemma skipSpace_suffix (s : List χ) : skipSpace s <:+ s := List.dropWhile_suffix _

lemma suffix_of_skipSpace {s rest : List χ} {g : χ} (h : skipSpace s = g :: rest) :
    g :: rest <:+ s := h ▸ skipSpace_suffix s

omit [Glyph χ] in
lemma suffix_of_cons {g : χ} {s rest : List χ} (h : g :: rest <:+ s) : rest <:+ s :=
  (List.suffix_cons g rest).trans h

lemma takeHex4_suffix {s rest : List χ} {n : Nat} {g : χ} (h : takeHex4 s = some (n, g, rest)) :
    rest <:+ s := by
  match s with
  | a :: b :: c :: d :: s =>
    simp only [takeHex4, Option.bind_eq_bind, Option.bind_eq_some_iff] at h
    obtain ⟨_, -, _, -, _, -, _, -, heq⟩ := h
    cases heq
    exact ⟨[a, b, c, _], rfl⟩

lemma takeUnicode_suffix {s rest : List χ} {g : χ} (h : takeUnicode s = some (g, rest)) :
    rest <:+ s := by
  simp only [takeUnicode, Option.bind_eq_bind, Option.bind_eq_some_iff] at h
  obtain ⟨⟨high, g₀, s₀⟩, hhigh, h⟩ := h
  have hs₀ := takeHex4_suffix hhigh
  dsimp only at h
  split_ifs at h
  · obtain _ | ⟨b, _ | ⟨u, s₁⟩⟩ := s₀
    · cases h
    · cases h
    · dsimp only at h
      split_ifs at h
      obtain ⟨⟨low, g₁, s₂⟩, hlow, h⟩ := Option.bind_eq_some_iff.mp h
      have hs₂ := takeHex4_suffix hlow
      dsimp only at h
      split_ifs at h
      cases h
      exact hs₂.trans (suffix_of_cons (suffix_of_cons hs₀))
  · cases h
    exact hs₀

lemma takeEscape_suffix {s rest : List χ} {g : χ} (h : takeEscape s = some (g, rest)) :
    rest <:+ s := by
  cases s with
  | nil => cases h
  | cons g₀ s =>
    simp only [takeEscape] at h
    split at h
    case h_9 => exact (takeUnicode_suffix h).trans (List.suffix_cons g₀ s)
    case h_10 => cases h
    all_goals
      cases h
      exact List.suffix_cons g₀ _

lemma takeString_suffix {fuel : Nat} {s text rest : List χ}
    (h : takeString fuel s = some (text, rest)) : rest <:+ s := by
  induction fuel generalizing s text with
  | zero => cases h
  | succ fuel ih =>
    cases s with
    | nil => cases h
    | cons g s =>
      simp only [takeString] at h
      split_ifs at h
      · cases h
        exact List.suffix_cons g _
      · split at h
        · rename_i g' s' hescape
          obtain ⟨⟨text', rest'⟩, hread, heq⟩ := Option.map_eq_some_iff.mp h
          cases heq
          exact (ih hread).trans ((takeEscape_suffix hescape).trans (List.suffix_cons g s))
        · cases h
      · obtain ⟨⟨text', rest'⟩, hread, heq⟩ := Option.map_eq_some_iff.mp h
        cases heq
        exact (ih hread).trans (List.suffix_cons g s)

lemma takeNumber_suffix {st : NumState} {s lexeme rest : List χ}
    (h : takeNumber st s = some (lexeme, rest)) : rest <:+ s := by
  induction s generalizing st lexeme with
  | nil =>
    simp only [takeNumber] at h
    split_ifs at h
    cases h
    exact List.suffix_rfl
  | cons g s ih =>
    simp only [takeNumber] at h
    split at h
    · obtain ⟨⟨lexeme', rest'⟩, hread, heq⟩ := Option.map_eq_some_iff.mp h
      cases heq
      exact (ih hread).trans (List.suffix_cons g s)
    · split_ifs at h
      cases h
      exact List.suffix_rfl

lemma takeLiteral_suffix {literal : String} {s rest : List χ}
    (h : takeLiteral literal s = some rest) : rest <:+ s := by
  unfold takeLiteral at h
  split_ifs at h
  cases h
  exact List.drop_suffix _ s

/-! ## Values -/

/-- A reader that leaves an end of what it is given. -/
def LeavesEnd (value : Parser χ) : Prop :=
  ∀ s j rest, value s = some (j, rest) → rest <:+ s

/-- The text was read as far as a closing brace. -/
def EndsWithBrace (rest s : List χ) : Prop := ∃ g, chr g = '\x7d' ∧ g :: rest <:+ s

variable {value : Parser χ} {s rest : List χ}

lemma EndsWithBrace.trans {s' : List χ} (h : EndsWithBrace rest s') (hs : s' <:+ s) :
    EndsWithBrace rest s := by
  obtain ⟨g, hg, hsuffix⟩ := h
  exact ⟨g, hg, hsuffix.trans hs⟩

lemma LeavesEnd.takeItems (hvalue : LeavesEnd value) {fuel : Nat} {items : List (Json χ)}
    (h : takeItems value fuel s = some (items, rest)) : rest <:+ s := by
  induction fuel generalizing s items with
  | zero => cases h
  | succ fuel ih =>
    simp only [Json.takeItems, Option.bind_eq_bind, Option.bind_eq_some_iff] at h
    obtain ⟨⟨item, s₁⟩, hitem, h⟩ := h
    dsimp only at h
    split at h
    · cases h
    rename_i g s₂ hspace
    have hs₂ := (suffix_of_cons (suffix_of_skipSpace hspace)).trans (hvalue _ _ _ hitem)
    split_ifs at h
    · obtain ⟨⟨items', rest'⟩, hread, heq⟩ := Option.map_eq_some_iff.mp h
      cases heq
      exact (ih hread).trans hs₂
    · cases h
      exact hs₂

lemma LeavesEnd.takeFields (hvalue : LeavesEnd value) {fuel : Nat} {fields : Fields χ}
    (h : takeFields value fuel s = some (fields, rest)) : EndsWithBrace rest s := by
  induction fuel generalizing s fields with
  | zero => cases h
  | succ fuel ih =>
    simp only [Json.takeFields] at h
    split at h
    · cases h
    rename_i q s₁ hspace
    have hs₁ := suffix_of_cons (suffix_of_skipSpace hspace)
    split_ifs at h
    obtain ⟨⟨key, s₂⟩, hkey, h⟩ := Option.bind_eq_some_iff.mp h
    have hs₂ := (takeString_suffix hkey).trans hs₁
    dsimp only at h
    split at h
    · cases h
    rename_i colon s₃ hspace₂
    have hs₃ := (suffix_of_cons (suffix_of_skipSpace hspace₂)).trans hs₂
    split_ifs at h
    obtain ⟨⟨item, s₄⟩, hitem, h⟩ := Option.bind_eq_some_iff.mp h
    have hs₄ := (hvalue _ _ _ hitem).trans hs₃
    dsimp only at h
    split at h
    · cases h
    rename_i g s₅ hspace₄
    have hs₅ := (suffix_of_skipSpace hspace₄).trans hs₄
    split_ifs at h with hcomma hbrace
    · obtain ⟨⟨fields', rest'⟩, hread, heq⟩ := Option.map_eq_some_iff.mp h
      cases heq
      exact (ih hread).trans (suffix_of_cons hs₅)
    · cases h
      exact ⟨g, hbrace, hs₅⟩

lemma LeavesEnd.takeArray (hvalue : LeavesEnd value) {j : Json χ}
    (h : takeArray value s = some (j, rest)) : rest <:+ s := by
  unfold Json.takeArray at h
  split at h
  · cases h
  rename_i g s₁ hspace
  split_ifs at h
  · cases h
    exact suffix_of_cons (suffix_of_skipSpace hspace)
  · obtain ⟨⟨items, rest'⟩, hread, heq⟩ := Option.map_eq_some_iff.mp h
    cases heq
    exact hvalue.takeItems hread

lemma LeavesEnd.takeObject (hvalue : LeavesEnd value) {j : Json χ}
    (h : takeObject value s = some (j, rest)) : EndsWithBrace rest s := by
  unfold Json.takeObject at h
  split at h
  · cases h
  rename_i g s₁ hspace
  split_ifs at h with hbrace
  · cases h
    exact ⟨g, hbrace, suffix_of_skipSpace hspace⟩
  · obtain ⟨⟨fields, rest'⟩, hread, heq⟩ := Option.map_eq_some_iff.mp h
    cases heq
    exact hvalue.takeFields hread

lemma EndsWithBrace.suffix (h : EndsWithBrace rest s) : rest <:+ s := by
  obtain ⟨g, -, hsuffix⟩ := h
  exact suffix_of_cons hsuffix

/-- One value, when `nested` leaves an end of what it is given. -/
lemma takeValue_end {nested : Option (Parser χ)} (hnested : ∀ value ∈ nested, LeavesEnd value)
    {j : Json χ} (h : takeValue nested s = some (j, rest)) :
    rest <:+ s ∧ ∀ fields, j = .obj fields → EndsWithBrace rest s := by
  unfold takeValue at h
  split at h
  · cases h
  rename_i g s₁ hspace
  have hs := suffix_of_skipSpace hspace
  have hs₁ := suffix_of_cons hs
  split at h
  case h_1 | h_2 | h_3 =>
    obtain ⟨s₂, hliteral, heq⟩ := Option.map_eq_some_iff.mp h
    cases heq
    exact ⟨(takeLiteral_suffix hliteral).trans hs₁, nofun⟩
  case h_4 =>
    obtain ⟨⟨text, rest'⟩, hread, heq⟩ := Option.map_eq_some_iff.mp h
    cases heq
    exact ⟨(takeString_suffix hread).trans hs₁, nofun⟩
  case h_5 =>
    obtain ⟨value, hmem, hread⟩ := Option.bind_eq_some_iff.mp h
    refine ⟨((hnested value hmem).takeArray hread).trans hs₁, ?_⟩
    rintro fields rfl
    unfold Json.takeArray at hread
    split at hread
    · cases hread
    split_ifs at hread
    · cases hread
    · obtain ⟨⟨items, rest'⟩, -, heq⟩ := Option.map_eq_some_iff.mp hread
      cases heq
  case h_6 =>
    obtain ⟨value, hmem, hread⟩ := Option.bind_eq_some_iff.mp h
    have hbrace := ((hnested value hmem).takeObject hread).trans hs₁
    exact ⟨hbrace.suffix, fun _ _ => hbrace⟩
  case h_7 =>
    unfold takeNumLit at h
    split at h
    · cases h
    rename_i lexeme rest' hnumber
    cases h
    exact ⟨(takeNumber_suffix hnumber).trans hs, nofun⟩

lemma leavesEnd_parseValue (n : Nat) : LeavesEnd (parseValue (χ := χ) n) := by
  induction n with
  | zero => exact fun s j rest h => (takeValue_end (by simp) h).1
  | succ n ih => exact fun s j rest h => (takeValue_end (by simpa using ih) h).1

/-- The text of an object ends with a brace, but for white space. -/
theorem exists_of_parse_obj {fields : Fields χ} (h : parse s = some (.obj fields)) :
    ∃ s' g space, s = s' ++ g :: space ∧ chr g = '\x7d' ∧ ∀ g' ∈ space, isSpace (chr g') = true := by
  unfold parse at h
  split at h
  · rename_i j rest hread
    split_ifs at h with hspace
    cases h
    have hnested : ∀ value ∈ some (parseValue (χ := χ) 126), LeavesEnd value := by
      simpa using leavesEnd_parseValue 126
    obtain ⟨g, hg, s', hs'⟩ := (takeValue_end hnested hread).2 fields rfl
    refine ⟨s', g, rest, hs'.symm, hg, ?_⟩
    rw [skipSpace, List.dropWhile_eq_nil_iff] at hspace
    exact hspace
  · cases h

/-- A text that ends with anything else is not the text of an object. -/
lemma parse_concat_ne_obj {g : χ} (hspace : isSpace (chr g) = false) (hbrace : chr g ≠ '\x7d')
    (s : List χ) (fields : Fields χ) : parse (s ++ [g]) ≠ some (.obj fields) := by
  intro h
  obtain ⟨s', g', space, hs, hg', hall⟩ := exists_of_parse_obj h
  rcases List.eq_nil_or_concat space with rfl | ⟨space', last, rfl⟩
  · obtain ⟨-, heq⟩ := List.append_inj' hs rfl
    cases heq
    exact hbrace hg'
  · rw [List.concat_eq_append, ← List.cons_append, ← List.append_assoc] at hs
    obtain ⟨-, heq⟩ := List.append_inj' hs rfl
    cases heq
    have htrue := hall g (by simp)
    rw [hspace] at htrue
    cases htrue

end Json
