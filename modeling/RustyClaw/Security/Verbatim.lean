import RustyClaw.Library.Scan
import RustyClaw.Security.Boundary

/-!
# The boundary of a verbatim fence

`fence_verbatim` keeps the text it fences and defuses only the boundary tag, with a pattern that runs
over the raw text.  `fence_untrusted` looks for the tag in the normalized text, with spaces on both
sides of the slash.  What the first promises is measured with the second: the body, normalized, has
no tag (`VerbatimSound.tagFree`), and where the name of the tag does not occur nothing is changed
(`VerbatimSound.lossless`).

The second half always holds.  For the first, the normalization is cut into parts
(`normalizeConfusables_append`): wherever a character stands that can only begin a bracket or a
spelling of one, the text can be normalized on both sides of it separately.  So a tag of the
normalized text has a place in the raw text (`exists_matchesAt_iff`), and `fenceVerbatim_sound_iff`
says that a verbatim fence is sound exactly when the raw pattern matches at all these places.
-/

namespace RustyClaw.Security

open Glyph Pattern

/-! ## What a verbatim fence promises -/

/-- A tag of the fence, opening or closing, in any case and with spaces around the slash. -/
def fenceTag : Pattern :=
  seqs [oneOf ['<'], .star space, opt (word "/"), .star space, word "untrusted_content"]

/-- The body of a verbatim fence has no tag of the fence, when invisible characters are removed and
brackets are normalized, and a content without the name of the tag is copied as it is. -/
structure VerbatimSound (fenced content body : List Char) : Prop where
  placed : ∃ header, fenced = header ++ body ++ str "\n</UNTRUSTED_CONTENT>"
  tagFree : ∀ i, ¬ MatchesAt fenceTag (normalizeConfusables body) i
  lossless : (∀ i, ¬ MatchesAt (word "untrusted_content") (normalizeConfusables content) i) →
    body = content

/-- The content spells a tag of the fence at this place: the character is not invisible, and read
from there and normalized the content begins with the tag. -/
def TagAt (content : List Char) (i : Nat) : Prop :=
  (∃ c, content[i]? = some c ∧ c ∉ zeroWidthChars) ∧
    Begins fenceTag (normalizeConfusables (content.drop i))

/-! ## Where a text can be cut -/

/-- The characters that a bracket, a spelling of one or what stands for a tag begins with, after the
variants of brackets are replaced. -/
def cuts : List Char := '[' :: '<' :: spellingHeads

lemma proper_ltSpelling : proper ltSpelling = true := by decide

lemma proper_gtSpelling : proper gtSpelling = true := by decide

lemma tailUses_ltSpelling {c : Char} (h : c ∈ cuts) : tailUses ltSpelling c = false := by
  have hall : (cuts.all fun c => tailUses ltSpelling c = false) = true := by decide
  exact of_decide_eq_true (List.all_eq_true.mp hall c h)

lemma tailUses_gtSpelling {c : Char} (h : c ∈ cuts) : tailUses gtSpelling c = false := by
  have hall : (cuts.all fun c => tailUses gtSpelling c = false) = true := by decide
  exact of_decide_eq_true (List.all_eq_true.mp hall c h)

/-- The characters that can begin a tag, in the raw text. -/
def barriers : List Char := '<' :: confusableLt ++ spellingHeads

/-- The text is empty or begins where it can be cut. -/
def Cut (s : List Char) : Prop := ∀ c ∈ s.head?, c ∈ cuts

lemma Cut.border {s : List Char} (h : Cut s) {p : Pattern}
    (hp : ∀ c ∈ cuts, tailUses p c = false) : Border (tailUses p) s :=
  fun c hc => hp c (h c hc)

lemma cut_replaceAll {p : Pattern} (hp : IsSpelling p) (bracket : String) {mark : Char}
    (hbracket : bracket.toList = [mark]) {s : List Char} (h : Cut s) (hmark : mark ∈ cuts) :
    Cut (replaceAll p (fun _ => str bracket) s) := by
  cases s with
  | nil => exact h
  | cons c s =>
    cases hmatch : matchPrefix p (c :: s) with
    | none =>
      rw [replaceAll_cons_of_none hmatch]
      exact h
    | some found =>
      obtain ⟨captured, rest⟩ := found
      rw [replaceAll_of_some hp.nullable hmatch, str_char, hbracket]
      intro d hd
      obtain rfl := Option.some.inj hd
      exact hmark

/-- The first character of the text can begin a tag, or it is the one that stands for a tag. -/
def Starts (s : List Char) : Prop := ∀ c ∈ s.head?, c = '[' ∨ c ∈ barriers

lemma normalizeChar_of_barrier {c : Char} (h : c = '[' ∨ c ∈ barriers) :
    ∃ d ∈ cuts, normalizeChar c = [d] := by
  have hall : (('[' :: barriers).all fun c =>
      cuts.any fun d => normalizeChar c = [d]) = true := by decide
  have hc := List.all_eq_true.mp hall c (List.mem_cons.mpr h)
  obtain ⟨d, hd, heq⟩ := List.any_eq_true.mp hc
  exact ⟨d, hd, of_decide_eq_true heq⟩

lemma Starts.cut {s : List Char} (h : Starts s) : Cut (s.flatMap normalizeChar) := by
  cases s with
  | nil => simp [Cut]
  | cons c s =>
    obtain ⟨d, hd, heq⟩ := normalizeChar_of_barrier (h c rfl)
    intro e he
    rw [List.flatMap_cons, heq] at he
    obtain rfl := Option.some.inj he
    exact hd

/-- Where a bracket or a spelling of one can begin, both sides are normalized separately. -/
theorem normalizeConfusables_append {s t : List Char} (ht : Starts t) :
    normalizeConfusables (s ++ t) = normalizeConfusables s ++ normalizeConfusables t := by
  have hcut := ht.cut
  have hcut' := cut_replaceAll isSpelling_ltSpelling "<" rfl hcut (by decide)
  simp only [normalizeConfusables, normalizeEncodedAngleBrackets, List.flatMap_append]
  rw [replaceAll_append isSpelling_ltSpelling.nullable proper_ltSpelling
      (hcut.border fun _ => tailUses_ltSpelling),
    replaceAll_append isSpelling_gtSpelling.nullable proper_gtSpelling
      (hcut'.border fun _ => tailUses_gtSpelling)]

/-! ## Where the tags of a normalized text come from -/

lemma not_mem_barriers {c : Char} (h : c ∉ barriers) :
    c ≠ '<' ∧ c ∉ confusableLt ∧ c ∉ spellingHeads := by
  simp only [barriers, List.cons_append, List.mem_cons, List.mem_append, not_or] at h
  exact h

/-- A character that begins no bracket becomes none. -/
lemma not_mem_barriers_of_normalizeChar {c d : Char} (hc : c ∉ barriers)
    (hd : d ∈ normalizeChar c) : d ∉ '<' :: spellingHeads := by
  obtain ⟨hlt, hvariant, hhead⟩ := not_mem_barriers hc
  unfold normalizeChar at hd
  split_ifs at hd with hleft hright hwidth
  · exact absurd (List.contains_iff_mem.mp hleft) hvariant
  · rw [List.mem_singleton.mp hd]
    change '>' ∉ _
    decide
  · cases hd
  · rw [List.mem_singleton.mp hd]
    simp only [List.mem_cons, not_or]
    exact ⟨hlt, by simpa [spellingHeads] using hhead⟩

lemma not_mem_flatMap_normalizeChar {s : List Char} (hs : ∀ c ∈ s, c ∉ barriers) :
    ∀ d ∈ s.flatMap normalizeChar, d ∉ '<' :: spellingHeads := by
  intro d hd
  obtain ⟨c, hc, hmem⟩ := List.mem_flatMap.mp hd
  exact not_mem_barriers_of_normalizeChar (hs c hc) hmem

lemma replaceAll_of_free {p : Pattern} (hp : IsSpelling p) {replacement : List Char → List Char}
    {s : List Char} (hs : ∀ c ∈ s, c ∉ '<' :: spellingHeads) :
    replaceAll p replacement s = s := by
  have hstarts : ∀ c ∈ s, Pattern.starts p (chr c) = false := fun c hc =>
    hp.starts_eq_false fun hhead => hs c hc (List.mem_cons_of_mem _ hhead)
  have happend : replaceAll p replacement (s ++ []) = s ++ replaceAll p replacement [] :=
    replaceAll_append_of_starts hp.nullable hstarts
  rw [List.append_nil] at happend
  rw [happend]
  exact List.append_nil s

/-- Only the first character of such a text can begin a spelling. -/
lemma replaceAll_cons_of_free {p : Pattern} (hp : IsSpelling p) (bracket : String) {mark : Char}
    (hbracket : bracket.toList = [mark]) (c : Char) {s : List Char}
    (hs : ∀ d ∈ s, d ∉ '<' :: spellingHeads) :
    ∃ c' s', replaceAll p (fun _ => str bracket) (c :: s) = c' :: s' ∧
      ∀ d ∈ s', d ∉ '<' :: spellingHeads := by
  cases hmatch : matchPrefix p (c :: s) with
  | none => exact ⟨c, s, by rw [replaceAll_cons_of_none hmatch, replaceAll_of_free hp hs], hs⟩
  | some found =>
    obtain ⟨captured, rest⟩ := found
    obtain ⟨u, hu, hne, -⟩ := matchPrefix_sound hmatch
    have hrest : ∀ d ∈ rest, d ∉ '<' :: spellingHeads := by
      obtain ⟨e, u, rfl⟩ := List.exists_cons_of_ne_nil (hne hp.nullable)
      obtain ⟨-, rfl⟩ := List.cons.inj hu
      exact fun d hd => hs d (List.mem_append_right u hd)
    refine ⟨mark, rest, ?_, hrest⟩
    rw [replaceAll_of_some hp.nullable hmatch, replaceAll_of_free hp hrest, str_char, hbracket]
    rfl

lemma normalizeConfusables_of_free {s : List Char} (hs : ∀ c ∈ s, c ∉ barriers) :
    '<' ∉ normalizeConfusables s := by
  have hfree := not_mem_flatMap_normalizeChar hs
  rw [normalizeConfusables, normalizeEncodedAngleBrackets,
    replaceAll_of_free isSpelling_ltSpelling hfree, replaceAll_of_free isSpelling_gtSpelling hfree]
  exact fun hmem => hfree '<' hmem List.mem_cons_self

/-- A text in which only the first character can begin a bracket has at most one, in front. -/
lemma normalizeConfusables_cons_of_free {c : Char} (hc : c ∉ zeroWidthChars) {s : List Char}
    (hs : ∀ d ∈ s, d ∉ barriers) :
    ∃ c' s', normalizeConfusables (c :: s) = c' :: s' ∧ '<' ∉ s' := by
  obtain ⟨d, hd⟩ : ∃ d, normalizeChar c = [d] := by
    unfold normalizeChar
    split_ifs with hleft hright hwidth
    · exact ⟨_, rfl⟩
    · exact ⟨_, rfl⟩
    · exact absurd (List.contains_iff_mem.mp hwidth) hc
    · exact ⟨_, rfl⟩
  obtain ⟨e, t, ht, hfree⟩ := replaceAll_cons_of_free isSpelling_ltSpelling "<" rfl d
    (not_mem_flatMap_normalizeChar hs)
  obtain ⟨c', s', hs', hfree'⟩ := replaceAll_cons_of_free isSpelling_gtSpelling ">" rfl
    e hfree
  refine ⟨c', s', ?_, fun hmem => hfree' '<' hmem List.mem_cons_self⟩
  rw [normalizeConfusables, normalizeEncodedAngleBrackets, List.flatMap_cons, hd,
    List.singleton_append, ht, hs']

lemma normalizeConfusables_cons_zeroWidth {c : Char} (hc : c ∈ zeroWidthChars) (s : List Char) :
    normalizeConfusables (c :: s) = normalizeConfusables s := by
  have hall : (zeroWidthChars.all fun c => normalizeChar c = []) = true := by decide
  have hnone : normalizeChar c = [] := of_decide_eq_true (List.all_eq_true.mp hall c hc)
  rw [normalizeConfusables, List.flatMap_cons, hnone]
  rfl

/-! ### The tag -/

lemma nullable_fenceTag : nullable fenceTag = false := by decide

lemma starts_fenceTag {c : Char} (hc : c ≠ '<') : Pattern.starts fenceTag c = false := by
  simp [fenceTag, seqs, Pattern.starts, nullable, oneOf, hc]

/-- A part without a bracket adds no tag in front of another. -/
lemma exists_matchesAt_append {s : List Char} (hs : '<' ∉ s) (t : List Char) :
    (∃ i, MatchesAt fenceTag (s ++ t) i) ↔ ∃ i, MatchesAt fenceTag t i := by
  have hstarts : ∀ c ∈ s, Pattern.starts fenceTag c = false := fun c hc =>
    starts_fenceTag fun heq => hs (heq ▸ hc)
  simp only [matchesAt_append_iff nullable_fenceTag hstarts]
  constructor
  · rintro ⟨i, -, h⟩
    exact ⟨_, h⟩
  · rintro ⟨i, h⟩
    exact ⟨s.length + i, Nat.le_add_right _ _, by rwa [Nat.add_sub_cancel_left]⟩

lemma exists_matchesAt_cons (c : Char) (s : List Char) :
    (∃ i, MatchesAt fenceTag (c :: s) i) ↔
      Begins fenceTag (c :: s) ∨ ∃ i, MatchesAt fenceTag s i := by
  constructor
  · rintro ⟨i, h⟩
    cases i with
    | zero => exact .inl h
    | succ i => exact .inr ⟨i, h⟩
  · rintro (h | ⟨i, h⟩)
    · exact ⟨0, h⟩
    · exact ⟨i + 1, h⟩

/-- A text up to the next character that can begin a bracket. -/
lemma exists_barrier (s : List Char) :
    ∃ free rest, s = free ++ rest ∧ (∀ c ∈ free, c ∉ barriers) ∧ Starts rest := by
  induction s with
  | nil => exact ⟨[], [], rfl, by simp, by simp [Starts]⟩
  | cons c s ih =>
    by_cases hc : c ∈ barriers
    · refine ⟨[], c :: s, rfl, by simp, fun d hd => ?_⟩
      obtain rfl := Option.some.inj hd
      exact .inr hc
    · obtain ⟨free, rest, rfl, hfree, hrest⟩ := ih
      exact ⟨c :: free, rest, rfl, by simpa [hc] using hfree, hrest⟩

/-- A tag of the normalized text begins at the first character, or behind it. -/
lemma exists_matchesAt_normalizeConfusables_cons (c : Char) (s : List Char) :
    (∃ i, MatchesAt fenceTag (normalizeConfusables (c :: s)) i) ↔
      (c ∉ zeroWidthChars ∧ Begins fenceTag (normalizeConfusables (c :: s))) ∨
        ∃ i, MatchesAt fenceTag (normalizeConfusables s) i := by
  by_cases hc : c ∈ zeroWidthChars
  · rw [normalizeConfusables_cons_zeroWidth hc]
    simp only [hc, not_true, false_and, false_or]
  · obtain ⟨free, rest, rfl, hfree, hrest⟩ := exists_barrier s
    obtain ⟨c', s', hcons, hnone⟩ := normalizeConfusables_cons_of_free hc hfree
    rw [← List.cons_append, normalizeConfusables_append hrest, normalizeConfusables_append hrest,
      hcons, List.cons_append, exists_matchesAt_cons, exists_matchesAt_append hnone,
      exists_matchesAt_append (normalizeConfusables_of_free hfree)]
    simp only [hc, not_false_iff, true_and]

lemma normalizeConfusables_cons_ne_nil {c : Char} (hc : c ∉ zeroWidthChars) (s : List Char) :
    normalizeConfusables (c :: s) ≠ [] := by
  obtain ⟨free, rest, rfl, hfree, hrest⟩ := exists_barrier s
  obtain ⟨c', s', hcons, -⟩ := normalizeConfusables_cons_of_free hc hfree
  rw [← List.cons_append, normalizeConfusables_append hrest, hcons]
  exact List.cons_ne_nil _ _

/-- The content spells a tag only where a bracket can begin. -/
lemma mem_barriers_of_tagAt {content : List Char} {i : Nat} (h : TagAt content i) :
    ∃ c ∈ barriers, content[i]? = some c := by
  obtain ⟨⟨c, hget, hc⟩, hbegins⟩ := h
  refine ⟨c, ?_, hget⟩
  by_contra hbarrier
  obtain ⟨hlt, rfl⟩ := List.getElem?_eq_some_iff.mp hget
  rw [List.drop_eq_getElem_cons hlt] at hbegins
  obtain ⟨free, rest, hsplit, hfree, hrest⟩ := exists_barrier (content.drop (i + 1))
  have hfree' : ∀ d ∈ content[i] :: free, d ∉ barriers := by simpa [hbarrier] using hfree
  have hnone := normalizeConfusables_of_free hfree'
  obtain ⟨d, t, ht⟩ := List.exists_cons_of_ne_nil (normalizeConfusables_cons_ne_nil hc free)
  rw [hsplit, ← List.cons_append, normalizeConfusables_append hrest, ht,
    List.cons_append] at hbegins
  rw [ht] at hnone
  have hd : d ≠ '<' := fun heq => hnone (heq ▸ List.mem_cons_self)
  exact not_begins_cons nullable_fenceTag (starts_fenceTag hd) hbegins

/-! ## What the raw pattern replaces -/

/-- What stands for a tag in a verbatim body. -/
def defused (captured : List Char) : List Char :=
  str "[" ++ captured ++ str "UNTRUSTED_CONTENT"

lemma escapeBoundaryTagOnly_eq (content : List Char) :
    escapeBoundaryTagOnly content = replaceAll boundaryTag defused content := rfl

lemma nullable_boundaryTag : nullable boundaryTag = false := by decide

/-- A test that no character passes that normalization changes. -/
lemma plain_of_test (test : Char → Bool)
    (htest : ((confusableLt ++ confusableGt ++ zeroWidthChars).all fun d => test d = false) = true)
    {c : Char} (h : test c = true) : Plain c := by
  have hnot : ∀ set ⊆ confusableLt ++ confusableGt ++ zeroWidthChars, set.contains c = false := by
    intro set hset
    refine Bool.eq_false_iff.mpr fun hc => ?_
    have hmem := hset (List.contains_iff_mem.mp hc)
    rw [of_decide_eq_true (List.all_eq_true.mp htest c hmem)] at h
    cases h
  exact plain_of_chr (hnot _ (by simp)) (hnot _ (by simp)) (hnot _ (by simp))

lemma plain_of_captured {c : Char} (h : captures boundaryTag c = true) : Plain c :=
  plain_of_test (captures boundaryTag) (by decide) h

lemma not_mem_barriers_of_captured {c : Char} (h : captures boundaryTag c = true) :
    c ∉ barriers := by
  have hall : (barriers.all fun d => captures boundaryTag d = false) = true := by decide
  intro hmem
  rw [of_decide_eq_true (List.all_eq_true.mp hall c hmem)] at h
  cases h

section Defused

variable {captured : List Char} (h : ∀ c ∈ captured, captures boundaryTag c = true)

include h

lemma not_mem_barriers_defused : ∀ c ∈ defused captured, c ∉ barriers := by
  have hall : ((str "[" ++ str "UNTRUSTED_CONTENT" : List Char).all fun c => c ∉ barriers) = true :=
    by decide
  intro c hc
  simp only [defused, List.mem_append] at hc
  rcases hc with (hc | hc) | hc
  · exact of_decide_eq_true (List.all_eq_true.mp hall c (List.mem_append_left _ hc))
  · exact not_mem_barriers_of_captured (h c hc)
  · exact of_decide_eq_true (List.all_eq_true.mp hall c (List.mem_append_right _ hc))

lemma all_plain_defused : All Plain (defused captured) := by
  have hbracket : All Plain (str "[" : List Char) := all_plain_str (by decide)
  have hname : All Plain (str "UNTRUSTED_CONTENT" : List Char) := all_plain_str (by decide)
  exact all_append.mpr ⟨all_append.mpr ⟨hbracket, fun c hc => plain_of_captured (h c hc)⟩, hname⟩

/-- Normalization passes over what stands for a tag. -/
lemma normalizeConfusables_defused (t : List Char) :
    normalizeConfusables (defused captured ++ t) = defused captured ++ normalizeConfusables t := by
  have hstarts : ∀ {p : Pattern}, IsSpelling p →
      ∀ c ∈ defused captured, Pattern.starts p (chr c) = false := fun hp c hc =>
    hp.starts_eq_false (not_mem_barriers (not_mem_barriers_defused h c hc)).2.2
  simp only [normalizeConfusables, normalizeEncodedAngleBrackets, List.flatMap_append,
    flatMap_normalizeChar (all_plain_defused h)]
  rw [replaceAll_append_of_starts isSpelling_ltSpelling.nullable (hstarts isSpelling_ltSpelling),
    replaceAll_append_of_starts isSpelling_gtSpelling.nullable (hstarts isSpelling_gtSpelling)]

end Defused

lemma starts_boundaryTag {c : Char} (h : Pattern.starts boundaryTag c = true) : c ∈ barriers := by
  have hbracket : nullable (alts [oneOf ('<' :: confusableLt), ltSpelling]) = false := by
    decide
  have hstart : Pattern.starts (alts [oneOf ('<' :: confusableLt), ltSpelling]) c = true := by
    simpa only [boundaryTag, seqs, Pattern.starts, hbracket, Bool.false_and, Bool.or_false] using h
  rcases Bool.or_eq_true_iff.mp hstart with hc | hc
  · exact List.mem_append_left _ (List.contains_iff_mem.mp hc)
  · exact List.mem_append_right _ (starts_bracketSpelling hc)

lemma plain_of_ltSpelling {v : List Char} (hv : Accepts ltSpelling v) : All Plain v :=
  fun c hc => plain_of_test (uses ltSpelling) (by decide) (uses_of_accepts hv c hc)

/-- A match of the raw pattern begins with a bracket, or with a spelling of one. -/
lemma normalizeConfusables_of_begins {s : List Char} (h : Begins boundaryTag s) :
    ∃ s', normalizeConfusables s = '<' :: s' := by
  obtain ⟨u, ⟨rest, rfl⟩, hu⟩ := h
  obtain ⟨v, w, rfl, hv, -⟩ := exists_of_accepts_seqs (by simp) hu
  -- Both kinds of brackets become one before the other bracket is looked for.
  suffices hlt : ∃ t, replaceAll ltSpelling (fun _ => str "<")
      ((v ++ w ++ rest).flatMap normalizeChar) = ['<'] ++ t by
    obtain ⟨t, ht⟩ := hlt
    have hstarts : ∀ c ∈ ['<'], Pattern.starts gtSpelling (chr c) = false := fun c hc =>
      isSpelling_gtSpelling.starts_eq_false (by rw [List.mem_singleton.mp hc]; decide)
    exact ⟨_, by rw [normalizeConfusables, normalizeEncodedAngleBrackets, ht,
      replaceAll_append_of_starts isSpelling_gtSpelling.nullable hstarts]; rfl⟩
  rcases hv with hv | hv
  · obtain ⟨c, hc, rfl⟩ := exists_of_accepts_oneOf hv
    have hall : (('<' :: confusableLt).all fun c => normalizeChar c = ['<']) = true := by
      decide
    have hchar : normalizeChar c = ['<'] := of_decide_eq_true (List.all_eq_true.mp hall c hc)
    have hstarts : ∀ c ∈ ['<'], Pattern.starts ltSpelling (chr c) = false := fun c hc =>
      isSpelling_ltSpelling.starts_eq_false (by rw [List.mem_singleton.mp hc]; decide)
    refine ⟨replaceAll ltSpelling (fun _ => str "<") ((w ++ rest).flatMap normalizeChar), ?_⟩
    rw [List.append_assoc, List.singleton_append, List.flatMap_cons, hchar,
      replaceAll_append_of_starts isSpelling_ltSpelling.nullable hstarts]
  · have hfound : (matchPrefix ltSpelling (v ++ (w ++ rest).flatMap normalizeChar)).isSome = true :=
      matchPrefix_complete ltSpelling (by rwa [chars_char])
    obtain ⟨⟨captured, t⟩, ht⟩ := Option.isSome_iff_exists.mp hfound
    refine ⟨replaceAll ltSpelling (fun _ => str "<") t, ?_⟩
    rw [List.append_assoc, List.flatMap_append, flatMap_normalizeChar (plain_of_ltSpelling hv),
      replaceAll_of_some isSpelling_ltSpelling.nullable ht]
    rfl

lemma matchPrefix_eq_none_iff {s : List Char} :
    matchPrefix boundaryTag s = none ↔ ¬ Begins boundaryTag s := by
  rw [← Option.not_isSome_iff_eq_none, isSome_matchPrefix_iff, chars_char]

lemma captures_of_matchPrefix {s captured rest : List Char}
    (h : matchPrefix boundaryTag s = some (captured, rest)) :
    ∀ c ∈ captured, captures boundaryTag c = true := by
  obtain ⟨u, -, -, hcaptured⟩ := matchPrefix_sound h
  exact fun c hc => (hcaptured c hc).2

/-- Up to the first match the raw text is copied; behind it both texts can be cut. -/
lemma exists_split (s : List Char) :
    ∃ copied rest rest', s = copied ++ rest ∧ escapeBoundaryTagOnly s = copied ++ rest' ∧
      Starts rest ∧ Starts rest' ∧ (rest = [] ∧ rest' = [] ∨
        ∃ t t', normalizeConfusables rest = '<' :: t ∧ normalizeConfusables rest' = '[' :: t') := by
  induction s with
  | nil => exact ⟨[], [], [], rfl, rfl, by simp [Starts], by simp [Starts], .inl ⟨rfl, rfl⟩⟩
  | cons c s ih =>
    rw [escapeBoundaryTagOnly_eq]
    cases hmatch : matchPrefix boundaryTag (c :: s) with
    | none =>
      obtain ⟨copied, rest, rest', hs, hescape, hrest⟩ := ih
      refine ⟨c :: copied, rest, rest', by rw [hs]; rfl, ?_, hrest⟩
      rw [replaceAll_cons_of_none hmatch, ← escapeBoundaryTagOnly_eq, hescape]
      rfl
    | some found =>
      obtain ⟨captured, behind⟩ := found
      have hbegins : Begins boundaryTag (c :: s) := by
        by_contra hnot
        rw [matchPrefix_eq_none_iff.mpr hnot] at hmatch
        cases hmatch
      have hstart : c ∈ barriers := by
        by_contra hc
        have hfalse : Pattern.starts boundaryTag c = false :=
          Bool.eq_false_iff.mpr fun h => hc (starts_boundaryTag h)
        exact not_begins_cons nullable_boundaryTag hfalse hbegins
      obtain ⟨t, ht⟩ := normalizeConfusables_of_begins hbegins
      refine ⟨[], c :: s, defused captured ++ escapeBoundaryTagOnly behind, rfl, ?_, ?_, ?_,
        .inr ⟨t, _, ht, normalizeConfusables_defused (captures_of_matchPrefix hmatch) _⟩⟩
      · exact replaceAll_of_some nullable_boundaryTag hmatch
      · intro d hd
        obtain rfl := Option.some.inj hd
        exact .inr hstart
      · intro d hd
        exact .inl (Option.some.inj hd).symm

/-! ## A sound body -/

lemma proper_fenceTag : proper fenceTag = true := by decide

lemma begins_fenceTag_append {s t : List Char} (hs : s ≠ []) {c : Char} (hc : c = '<' ∨ c = '[') :
    Begins fenceTag (s ++ c :: t) ↔ Begins fenceTag s := by
  refine begins_append_iff proper_fenceTag hs fun d hd => ?_
  obtain rfl := Option.some.inj hd
  rcases hc with rfl | rfl
  all_goals decide

/-- What is put in further on does not matter for a tag that begins in front of it. -/
lemma begins_escape_iff {c : Char} (hc : c ∉ zeroWidthChars) (s : List Char) :
    Begins fenceTag (normalizeConfusables (c :: escapeBoundaryTagOnly s)) ↔
      Begins fenceTag (normalizeConfusables (c :: s)) := by
  obtain ⟨copied, rest, rest', hs, hescape, hrest, hrest', hcases⟩ := exists_split s
  rcases hcases with ⟨rfl, rfl⟩ | ⟨t, t', ht, ht'⟩
  · rw [hescape, hs]
  · have hne := normalizeConfusables_cons_ne_nil hc copied
    rw [hescape, hs, ← List.cons_append, ← List.cons_append, normalizeConfusables_append hrest,
      normalizeConfusables_append hrest', ht, ht', begins_fenceTag_append hne (.inr rfl),
      begins_fenceTag_append hne (.inl rfl)]

lemma tagAt_append (s t : List Char) (i : Nat) : TagAt (s ++ t) (s.length + i) ↔ TagAt t i := by
  simp [TagAt, List.getElem?_append_right, ← List.drop_drop]

lemma matchesAt_append (p : Pattern) (s t : List Char) (i : Nat) :
    MatchesAt p (s ++ t) (s.length + i) ↔ MatchesAt p t i := by
  simp [MatchesAt, ← List.drop_drop]

lemma tailUses_boundaryTag {c : Char} (h : c ∈ barriers) : tailUses boundaryTag c = false := by
  have hall : (barriers.all fun c => tailUses boundaryTag c = false) = true := by decide
  exact of_decide_eq_true (List.all_eq_true.mp hall c h)

/-- The tags of the normalized body are those of the content that the raw pattern misses. -/
theorem exists_matchesAt_iff (content : List Char) :
    (∃ i, MatchesAt fenceTag (normalizeConfusables (escapeBoundaryTagOnly content)) i) ↔
      ∃ i, TagAt content i ∧ ¬ MatchesAt boundaryTag content i := by
  induction hlen : content.length using Nat.strong_induction_on generalizing content with
  | _ n ih =>
    cases content with
    | nil =>
      constructor
      · rintro ⟨i, u, hfront, hu⟩
        have hempty : normalizeConfusables (escapeBoundaryTagOnly ([] : List Char)) = [] := rfl
        have hnil : u = [] := by simpa [hempty] using hfront
        exact absurd hnil (ne_nil_of_accepts nullable_fenceTag hu)
      · rintro ⟨i, ⟨⟨c, hget, -⟩, -⟩, -⟩
        cases hget
    | cons c s =>
      rw [escapeBoundaryTagOnly_eq]
      cases hmatch : matchPrefix boundaryTag (c :: s) with
      | none =>
        have hnone : ¬ MatchesAt boundaryTag (c :: s) 0 := matchPrefix_eq_none_iff.mp hmatch
        rw [replaceAll_cons_of_none hmatch, ← escapeBoundaryTagOnly_eq,
          exists_matchesAt_normalizeConfusables_cons, ih s.length (by simp [← hlen]) s rfl]
        constructor
        · rintro (⟨hc, hbegins⟩ | ⟨i, htag, hmiss⟩)
          · exact ⟨0, ⟨⟨c, rfl, hc⟩, (begins_escape_iff hc s).mp hbegins⟩, hnone⟩
          · exact ⟨i + 1, htag, hmiss⟩
        · rintro ⟨i, htag, hmiss⟩
          cases i with
          | zero =>
            obtain ⟨⟨d, hd, hc⟩, hbegins⟩ := htag
            obtain rfl := Option.some.inj hd
            exact .inl ⟨hc, (begins_escape_iff hc s).mpr hbegins⟩
          | succ i => exact .inr ⟨i, htag, hmiss⟩
      | some found =>
        obtain ⟨captured, rest⟩ := found
        obtain ⟨u, hu, haccepts⟩ := accepts_of_matchPrefix hmatch
        have hlt := length_lt_of_matchPrefix nullable_boundaryTag hmatch
        have hcaptured := captures_of_matchPrefix hmatch
        have hbracket : '<' ∉ defused captured := fun hmem =>
          not_mem_barriers_defused hcaptured '<' hmem (by decide)
        rw [replaceAll_of_some nullable_boundaryTag hmatch, ← escapeBoundaryTagOnly_eq,
          normalizeConfusables_defused hcaptured, exists_matchesAt_append hbracket,
          ih rest.length (hlen ▸ hlt) rest rfl, hu]
        constructor
        · rintro ⟨i, htag, hmiss⟩
          exact ⟨u.length + i, (tagAt_append u rest i).mpr htag,
            fun h => hmiss ((matchesAt_append boundaryTag u rest i).mp h)⟩
        · rintro ⟨i, htag, hmiss⟩
          rcases Nat.lt_or_ge i u.length with hin | hout
          · -- Inside the match no other tag begins.
            exfalso
            obtain ⟨d, hd, hget⟩ := mem_barriers_of_tagAt htag
            rw [List.getElem?_append_left hin] at hget
            cases i with
            | zero =>
              refine hmiss ⟨u, ?_, by rwa [chars_char] at haccepts⟩
              exact List.prefix_append u rest
            | succ i =>
              rw [chars_char] at haccepts
              cases u with
              | nil => cases hget
              | cons e u =>
                have htail := tailUses_of_accepts haccepts d (List.mem_of_getElem? hget)
                rw [tailUses_boundaryTag hd] at htail
                cases htail
          · obtain ⟨j, rfl⟩ := Nat.exists_eq_add_of_le hout
            exact ⟨j, (tagAt_append u rest j).mp htag,
              fun h => hmiss ((matchesAt_append boundaryTag u rest j).mpr h)⟩

/-! ## A content without the name -/

/-- A letter in either case. -/
lemma toNat_of_foldsTo {c d : Char} (hs : c ≠ 's') (hk : c ≠ 'k') (h : foldsTo c d = true) :
    d = c ∨ d.toNat + 32 = c.toNat := by
  have hcase : d = c ∨ d.toLower = c := by simpa [foldsTo, hs, hk] using h
  rcases hcase with rfl | h
  · exact .inl rfl
  · unfold Char.toLower at h
    split at h
    · next hupper =>
      right
      have hval := congrArg (fun e : Char => e.val.toNat) h
      obtain ⟨hlo, hhi⟩ := hupper
      rw [ge_iff_le, UInt32.le_iff_toNat_le] at hlo
      rw [UInt32.le_iff_toNat_le] at hhi
      simp [UInt32.toNat_add] at hval hlo hhi
      omega
    · exact .inl h

/-- The name of the tag is written with characters that normalization keeps, and it does not begin as
the rest of a spelling. -/
lemma exists_of_accepts_name {name : List Char} (h : Accepts (word "untrusted_content") name) :
    ∃ u n rest, name = u :: n :: rest ∧ (u = 'u' ∨ u = 'U') ∧ (n = 'n' ∨ n = 'N') := by
  have hletters : "untrusted_content".toList = 'u' :: 'n' :: "trusted_content".toList := rfl
  have hforall := forall₂_of_accepts_word h
  rw [hletters] at hforall
  cases hforall with
  | @cons _ u _ _ hu hrest =>
    cases hrest with
    | @cons _ n _ rest hn _ =>
      refine ⟨u, n, rest, rfl, ?_, ?_⟩
      · refine (toNat_of_foldsTo (by decide) (by decide) hu).imp_right fun hcode => ?_
        exact Char.toNat_inj.mp (by simpa using hcode)
      · refine (toNat_of_foldsTo (by decide) (by decide) hn).imp_right fun hcode => ?_
        exact Char.toNat_inj.mp (by simpa using hcode)

/-- A spelling can neither begin in a name nor run into it. -/
structure Passes (p : Pattern) : Prop where
  starts : ∀ c, uses (word "untrusted_content") c = true → Pattern.starts p c = false
  ends : ∀ c ∈ ['u', 'U'], Pattern.ends p c = false
  follows : ∀ c ∈ ['u', 'U'], ∀ d ∈ ['n', 'N'], Pattern.follows p c d = false

lemma IsSpelling.passes {p : Pattern} (hp : IsSpelling p)
    (hends : (['u', 'U'].all fun c => Pattern.ends p c = false) = true)
    (hfollows : (['u', 'U'].all fun c => ['n', 'N'].all fun d => Pattern.follows p c d = false) =
      true) : Passes p where
  starts c hc := hp.starts_eq_false fun hhead => by
    have hall : (spellingHeads.all fun d =>
        Pattern.uses (word "untrusted_content") d = false) = true := by decide
    rw [of_decide_eq_true (List.all_eq_true.mp hall c hhead)] at hc
    cases hc
  ends c hc := of_decide_eq_true (List.all_eq_true.mp hends c hc)
  follows c hc d hd :=
    of_decide_eq_true (List.all_eq_true.mp (List.all_eq_true.mp hfollows c hc) d hd)

lemma passes_ltSpelling : Passes ltSpelling :=
  isSpelling_ltSpelling.passes (by decide) (by decide)

lemma passes_gtSpelling : Passes gtSpelling :=
  isSpelling_gtSpelling.passes (by decide) (by decide)

section Name

variable {name : List Char} (h : Accepts (word "untrusted_content") name)

include h

lemma Passes.replaceAll_keeps {p : Pattern} (hpasses : Passes p) (hp : nullable p = false)
    (replacement : List Char → List Char) (s t : List Char) :
    ∃ s', replaceAll p replacement (s ++ (name ++ t)) =
      s' ++ (name ++ replaceAll p replacement t) := by
  have hused := uses_of_accepts h
  obtain ⟨u, n, rest, rfl, hu, hn⟩ := exists_of_accepts_name h
  have hu' : u ∈ ['u', 'U'] := by simpa using hu
  have hn' : n ∈ ['n', 'N'] := by simpa using hn
  exact Pattern.replaceAll_keeps hp (fun c hc => hpasses.starts _ (hused c hc))
    (hpasses.ends u hu') (hpasses.follows u hu' n hn') s t

lemma plain_of_accepts_name : All Plain name := fun c hc =>
  plain_of_test (uses (word "untrusted_content")) (by decide)
    (uses_of_accepts h c hc)

/-- A name of the raw text stays in the normalized text. -/
lemma exists_name_normalizeConfusables (s t : List Char) :
    ∃ i, MatchesAt (word "untrusted_content") (normalizeConfusables (s ++ (name ++ t))) i := by
  obtain ⟨s₁, h₁⟩ := passes_ltSpelling.replaceAll_keeps h isSpelling_ltSpelling.nullable
    (fun _ => str "<") (s.flatMap normalizeChar) (t.flatMap normalizeChar)
  obtain ⟨s₂, h₂⟩ := passes_gtSpelling.replaceAll_keeps h isSpelling_gtSpelling.nullable
    (fun _ => str ">") s₁ (replaceAll ltSpelling (fun _ => str "<") (t.flatMap normalizeChar))
  refine ⟨s₂.length, name, ?_, h⟩
  rw [normalizeConfusables, normalizeEncodedAngleBrackets, List.flatMap_append,
    List.flatMap_append, flatMap_normalizeChar (plain_of_accepts_name h), h₁, h₂, List.drop_left]
  exact List.prefix_append _ _

end Name

/-- What the raw pattern matches ends with the name. -/
lemma exists_name_of_accepts {u : List Char} (h : Accepts boundaryTag u) :
    ∃ v name, u = v ++ name ∧ Accepts (word "untrusted_content") name := by
  obtain ⟨v₁, w₁, rfl, -, h₁⟩ := exists_of_accepts_seqs (by simp) h
  obtain ⟨v₂, w₂, rfl, -, h₂⟩ := exists_of_accepts_seqs (by simp) h₁
  obtain ⟨v₃, w₃, rfl, -, h₃⟩ := exists_of_accepts_seqs (by simp) h₂
  obtain ⟨v₄, w₄, rfl, -, h₄⟩ := exists_of_accepts_seqs (by simp) h₃
  obtain ⟨v₅, name, rfl, -, h₅⟩ := exists_of_accepts_seqs (by simp) h₄
  exact ⟨v₁ ++ v₂ ++ v₃ ++ v₄ ++ v₅, name, by simp, h₅⟩

/-- A content without the name is copied as it is. -/
lemma escapeBoundaryTagOnly_eq_self {content : List Char}
    (h : ∀ i, ¬ MatchesAt (word "untrusted_content") (normalizeConfusables content) i) :
    escapeBoundaryTagOnly content = content := by
  refine replaceAll_eq_self fun i hmatch => ?_
  obtain ⟨u, ⟨rest, hrest⟩, hu⟩ := hmatch
  obtain ⟨v, name, rfl, hname⟩ := exists_name_of_accepts hu
  rw [chars_char] at hrest
  have hsplit : content = content.take i ++ v ++ (name ++ rest) := by
    rw [List.append_assoc, ← List.append_assoc v, hrest, List.take_append_drop]
  obtain ⟨j, hj⟩ := exists_name_normalizeConfusables hname (content.take i ++ v) rest
  exact h j (hsplit ▸ hj)

/-! ## When a verbatim fence is sound -/

section Fence

variable (toLowercase : List Char → List Char)

/-- A verbatim fence keeps its promise exactly for the contents in which the raw pattern matches
wherever a tag is spelled. -/
theorem fenceVerbatim_sound_iff (source content : List Char) :
    VerbatimSound (fenceVerbatim toLowercase source content) content
        (escapeBoundaryTagOnly content) ↔
      ∀ i, TagAt content i → MatchesAt boundaryTag content i := by
  have hiff := exists_matchesAt_iff content
  constructor
  · intro hsound i htag
    by_contra hmiss
    obtain ⟨j, hj⟩ := hiff.mpr ⟨i, htag, hmiss⟩
    exact hsound.tagFree j hj
  · intro hfound
    constructor
    · exact ⟨_, rfl⟩
    · intro i hi
      obtain ⟨j, htag, hmiss⟩ := hiff.mp ⟨i, hi⟩
      exact hmiss (hfound j htag)
    · exact escapeBoundaryTagOnly_eq_self

/-- A space in front of the slash hides the tag from the raw pattern. -/
theorem not_verbatimSound_space :
    ¬ VerbatimSound (fenceVerbatim (·.map Char.toLower) "read_file".toList
      "< /untrusted_content>".toList) "< /untrusted_content>".toList
      (escapeBoundaryTagOnly "< /untrusted_content>".toList) := by
  intro hsound
  refine hsound.tagFree 0 ?_
  rw [MatchesAt, List.drop_zero, ← chars_char (normalizeConfusables _), ← isSome_matchPrefix_iff]
  decide

end Fence

end RustyClaw.Security
