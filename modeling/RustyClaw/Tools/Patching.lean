import RustyClaw.Tools.Files

/-!
# Unique edits

`patch_file` makes an edit when its search text is found once.  The text is searched from left to
right, and the search goes on behind what it has found, so an occurrence that overlaps an earlier one
is not counted (`countMatches_eq_one_iff`).

`UniqueEdit` is what an edit should be, the replacement at the only position of the text, and
`UniqueEdits` a list of them.  `uniquePatching_iff` says when the tool makes no others: exactly when
no edit, on the content that the edits before it have left, has further occurrences that all overlap
the first.
-/

namespace RustyClaw.Files

open Glyph Text

/-! ## What an edit should do -/

/-- The text stands at this position of the content. -/
def StandsAt (pat content : List Char) (i : ℕ) : Prop := i ≤ content.length ∧ OccursAt pat content i

/-- The text stands nowhere else, overlapping or not. -/
def UniqueAt (pat content : List Char) (i : ℕ) : Prop :=
  StandsAt pat content i ∧ ∀ j, StandsAt pat content j → j = i

/-- The content with other text in place of what stands at the position. -/
def splice (content : List Char) (i n : ℕ) (replace : List Char) : List Char :=
  content.take i ++ replace ++ content.drop (i + n)

/-- The search text, or else the trimmed one, is replaced at its only position. -/
inductive UniqueEdit (content : List Char) (edit : Edit) : List Char → Prop
  | exact {i : ℕ} (h : UniqueAt edit.search content i) :
    UniqueEdit content edit (splice content i edit.search.length edit.replace)
  | trimmed {i : ℕ} (habsent : ∀ j, ¬StandsAt edit.search content j)
    (hne : trim edit.search ≠ []) (h : UniqueAt (trim edit.search) content i) :
    UniqueEdit content edit
      (splice content i (trim edit.search).length (trim edit.replace))

/-- One unique edit after the other. -/
inductive UniqueEdits : List Char → List Edit → List Char → Prop
  | nil (content : List Char) : UniqueEdits content [] content
  | cons {content next patched : List Char} {edit : Edit} {edits : List Edit}
    (hedit : UniqueEdit content edit next) (hedits : UniqueEdits next edits patched) :
    UniqueEdits content (edit :: edits) patched

/-- The call has made its edits. -/
def Ran.succeeded (ran : Ran) : Bool :=
  match ran.result with
  | .ok output => output.result.ok
  | .error _ => false

/-- An edit is made only where it is unique; a failed call leaves the files as they were, and one
that succeeds leaves the content with all edits made. -/
structure UniquePatching (fs : FileSystem) (c : Circumstances) (path : List Char)
    (edits : List Edit) : Prop where
  made : c.denied = none → ∀ content, readToString fs c path = some content →
    ∀ earlier edit before after, earlier ++ [edit] <+: edits →
      applyEdits 0 earlier content = .ok before →
      applyEdits 0 (earlier ++ [edit]) content = .ok after → UniqueEdit before edit after
  failed : (patchFile fs c path edits).succeeded = false → (patchFile fs c path edits).files = fs
  succeeded : (patchFile fs c path edits).succeeded = true →
    ∃ content patched, readToString fs c path = some content ∧ UniqueEdits content edits patched ∧
      (patchFile fs c path edits).files = writeBytes fs c path patched

/-- The text stands at this position, and anywhere else only inside what stands there. -/
def AllWithin (pat content : List Char) (i : ℕ) : Prop :=
  StandsAt pat content i ∧ ∀ j, StandsAt pat content j → i ≤ j ∧ (j = i ∨ j < i + pat.length)

/-- The text stands at several positions, and all of them are inside the first occurrence. -/
def OnlyOverlaps (pat content : List Char) : Prop :=
  ∃ i, AllWithin pat content i ∧ ∃ j, StandsAt pat content j ∧ j ≠ i

/-- So does the text that the edit looks for. -/
def OverlappingEdit (content : List Char) (edit : Edit) : Prop :=
  OnlyOverlaps edit.search content ∨
    (∀ j, ¬StandsAt edit.search content j) ∧ trim edit.search ≠ [] ∧
      OnlyOverlaps (trim edit.search) content

/-- No edit is overlapping, on the content that unique edits have left. -/
def NeverOverlapping : List Char → List Edit → Prop
  | _, [] => True
  | content, edit :: edits =>
    ¬OverlappingEdit content edit ∧ ∀ next, UniqueEdit content edit next → NeverOverlapping next edits

/-! ## Counting from left to right -/

variable {pat replace content : List Char} {i n : ℕ}

lemma countFrom_skip (pat : List Char) (n : ℕ) (content : List Char) :
    countFrom pat n content = countFrom pat 0 (content.drop n) := by
  induction content generalizing n with
  | nil => simp [countFrom]
  | cons d content ih =>
    cases n with
    | zero => rfl
    | succ n => rw [countFrom, ih, List.drop_succ_cons]

lemma replaceFrom_skip (pat replace : List Char) (n : ℕ) (content : List Char) :
    replaceFrom pat replace n content = replaceFrom pat replace 0 (content.drop n) := by
  induction content generalizing n with
  | nil => simp [replaceFrom]
  | cons d content ih =>
    cases n with
    | zero => rfl
    | succ n => rw [replaceFrom, ih, List.drop_succ_cons]

lemma occursAt_zero_iff {d : Char} : OccursAt pat (d :: content) 0 ↔ pat.isPrefixOf (d :: content) := by
  rw [List.isPrefixOf_iff_prefix, OccursAt, List.drop_zero, List.prefix_iff_eq_take, eq_comm]

/-- Where the text is missing, nothing is counted and nothing replaced. -/
lemma scan_of_absent (replace : List Char) (h : ∀ i, ¬OccursAt pat content i) :
    countFrom pat 0 content = 0 ∧ replaceFrom pat replace 0 content = content := by
  induction content with
  | nil => exact ⟨rfl, rfl⟩
  | cons d content ih =>
    have hnot : ¬pat.isPrefixOf (d :: content) = true := fun h0 => h 0 (occursAt_zero_iff.mpr h0)
    obtain ⟨hcount, hreplace⟩ := ih fun i => h (i + 1)
    rw [countFrom, replaceFrom, if_neg hnot, if_neg hnot, hcount, hreplace]
    exact ⟨rfl, rfl⟩

/-- The first occurrence is counted and replaced, and the search goes on behind it. -/
lemma scan_of_first (replace : List Char) (hpat : pat ≠ []) (hi : OccursAt pat content i)
    (hfirst : ∀ j < i, ¬OccursAt pat content j) :
    countFrom pat 0 content = 1 + countFrom pat 0 (content.drop (i + pat.length)) ∧
      replaceFrom pat replace 0 content =
        content.take i ++ replace ++ replaceFrom pat replace 0 (content.drop (i + pat.length)) := by
  induction content generalizing i with
  | nil =>
    have hlen := hi.length_le hpat
    have hpos := List.length_pos_iff.mpr hpat
    rw [List.length_nil] at hlen
    omega
  | cons d content ih =>
    obtain ⟨n, hn⟩ : ∃ n, pat.length = n + 1 :=
      Nat.exists_eq_add_one.mpr (List.length_pos_iff.mpr hpat)
    cases i with
    | zero =>
      have hprefix := occursAt_zero_iff.mp hi
      rw [countFrom, replaceFrom, if_pos hprefix, if_pos hprefix, countFrom_skip, replaceFrom_skip,
        Nat.zero_add, hn, Nat.add_sub_cancel, List.drop_succ_cons]
      exact ⟨rfl, rfl⟩
    | succ i =>
      have hnot : ¬pat.isPrefixOf (d :: content) = true :=
        fun h0 => hfirst 0 (Nat.succ_pos i) (occursAt_zero_iff.mpr h0)
      obtain ⟨hcount, hreplace⟩ :=
        ih (i := i) hi fun j hj => hfirst (j + 1) (Nat.succ_lt_succ hj)
      rw [countFrom, replaceFrom, if_neg hnot, if_neg hnot, hcount, hreplace,
        show i + 1 + pat.length = i + pat.length + 1 by omega, List.drop_succ_cons]
      exact ⟨rfl, rfl⟩

lemma standsAt_iff (hpat : pat ≠ []) : StandsAt pat content i ↔ OccursAt pat content i := by
  refine ⟨And.right, fun h => ⟨?_, h⟩⟩
  have hlen := h.length_le hpat
  omega

lemma standsAt_nil : StandsAt [] content i ↔ i ≤ content.length :=
  and_iff_left (List.take_zero)

lemma exists_first (h : ∃ i, OccursAt pat content i) :
    ∃ i, OccursAt pat content i ∧ ∀ j < i, ¬OccursAt pat content j := by
  classical
  exact ⟨Nat.find h, Nat.find_spec h, fun j hj => Nat.find_min h hj⟩

lemma countFrom_eq_zero_iff (hpat : pat ≠ []) :
    countFrom pat 0 content = 0 ↔ ∀ i, ¬OccursAt pat content i := by
  constructor
  · intro h i hi
    obtain ⟨k, hk, hfirst⟩ := exists_first ⟨i, hi⟩
    have hcount := (scan_of_first [] hpat hk hfirst).1
    omega
  · intro h
    exact (scan_of_absent [] h).1

lemma countMatches_eq_zero_iff :
    countMatches pat content = 0 ↔ ∀ i, ¬StandsAt pat content i := by
  rw [countMatches]
  split_ifs with hpat
  · refine iff_of_false id fun h => h 0 ?_
    rw [hpat, standsAt_nil]
    exact Nat.zero_le _
  · simp only [standsAt_iff hpat]
    exact countFrom_eq_zero_iff hpat

/-- **One match is counted, whatever overlaps it.** -/
lemma countMatches_eq_one_iff :
    countMatches pat content = 1 ↔ ∃ i, AllWithin pat content i := by
  rw [countMatches]
  split_ifs with hpat
  · simp only [AllWithin, hpat, standsAt_nil, List.length_nil, Nat.add_zero]
    constructor
    · intro h
      exact ⟨0, Nat.zero_le _, fun j hj => ⟨Nat.zero_le j, .inl (by omega)⟩⟩
    · rintro ⟨i, -, hall⟩
      have h0 := (hall 0 (Nat.zero_le _)).1
      have hlast := hall content.length le_rfl
      omega
  · simp only [AllWithin, standsAt_iff hpat]
    constructor
    · intro h
      have hsome : ∃ i, OccursAt pat content i := by
        by_contra hnone
        push Not at hnone
        rw [(countFrom_eq_zero_iff hpat).mpr hnone] at h
        exact Nat.zero_ne_one h
      obtain ⟨i, hi, hfirst⟩ := exists_first hsome
      rw [(scan_of_first [] hpat hi hfirst).1] at h
      have hrest := (countFrom_eq_zero_iff hpat).mp (by omega :
        countFrom pat 0 (content.drop (i + pat.length)) = 0)
      refine ⟨i, hi, fun j hj => ?_⟩
      have hle : i ≤ j := by
        by_contra hlt
        exact hfirst j (Nat.lt_of_not_le hlt) hj
      refine ⟨hle, .inr ?_⟩
      by_contra hge
      refine hrest (j - (i + pat.length)) (occursAt_drop.mpr ?_)
      rwa [Nat.add_sub_cancel' (Nat.le_of_not_lt hge)]
    · rintro ⟨i, hi, hall⟩
      have hfirst : ∀ j < i, ¬OccursAt pat content j :=
        fun j hj hoccurs => absurd (hall j hoccurs).1 (Nat.not_le_of_lt hj)
      have hpos := List.length_pos_iff.mpr hpat
      rw [(scan_of_first [] hpat hi hfirst).1, (countFrom_eq_zero_iff hpat).mpr]
      intro j hj
      have hwithin := (hall _ (occursAt_drop.mp hj)).2
      omega

/-- Then the first occurrence is what is replaced. -/
lemma replaceMatches_eq (h : AllWithin pat content i) :
    replaceMatches pat replace content = splice content i pat.length replace := by
  rw [replaceMatches]
  split_ifs with hpat
  · obtain ⟨hi, hall⟩ := h
    subst hpat
    rw [standsAt_nil] at hi
    have h0 := hall 0 (standsAt_nil.mpr (Nat.zero_le _))
    have hlast := hall content.length (standsAt_nil.mpr le_rfl)
    have hempty : content = [] := List.eq_nil_of_length_eq_zero (by
      rw [List.length_nil] at hlast
      omega)
    simp [hempty, splice]
  · simp only [AllWithin, standsAt_iff hpat] at h
    have hfirst : ∀ j < i, ¬OccursAt pat content j :=
      fun j hj hoccurs => absurd (h.2 j hoccurs).1 (Nat.not_le_of_lt hj)
    have hpos := List.length_pos_iff.mpr hpat
    have habsent : ∀ j, ¬OccursAt pat (content.drop (i + pat.length)) j := by
      intro j hj
      have hwithin := (h.2 _ (occursAt_drop.mp hj)).2
      omega
    rw [(scan_of_first replace hpat h.1 hfirst).2, (scan_of_absent replace habsent).2, splice]

lemma UniqueAt.allWithin (h : UniqueAt pat content i) : AllWithin pat content i := by
  refine ⟨h.1, fun j hj => ?_⟩
  have heq := h.2 j hj
  exact ⟨heq.ge, .inl heq⟩

lemma AllWithin.unique_or_overlaps (h : AllWithin pat content i) :
    UniqueAt pat content i ∨ OnlyOverlaps pat content := by
  by_cases hother : ∃ j, StandsAt pat content j ∧ j ≠ i
  · exact .inr ⟨i, h, hother⟩
  · push Not at hother
    exact .inl ⟨h.1, hother⟩

lemma UniqueAt.not_overlaps (h : UniqueAt pat content i) : ¬OnlyOverlaps pat content := by
  rintro ⟨k, hk, j, hj, hne⟩
  exact hne ((h.2 j hj).trans (h.2 k hk.1).symm)

lemma countMatches_of_unique (h : UniqueAt pat content i) : countMatches pat content = 1 :=
  countMatches_eq_one_iff.mpr ⟨i, h.allWithin⟩

/-! ## One edit -/

variable {edit : Edit} {edits : List Edit} {next patched : List Char}

/-- The content after the edit, if it is made. -/
def applied (content : List Char) (edit : Edit) : List Char :=
  replaceMatches (chosen content edit).1 (chosen content edit).2.1 content

/-- The edit is made. -/
def Makes (content : List Char) (edit : Edit) : Prop := (chosen content edit).2.2 = 1

lemma applyEdits_cons {k : ℕ} :
    applyEdits k (edit :: edits) content = .ok patched ↔
      Makes content edit ∧ applyEdits (k + 1) edits (applied content edit) = .ok patched := by
  rcases hchosen : chosen content edit with ⟨search, replace, found⟩
  simp only [applyEdits, Makes, applied, hchosen]
  by_cases hzero : found = 0
  · rw [if_pos hzero]
    exact iff_of_false (by simp) fun h => by omega
  · by_cases hmany : 1 < found
    · rw [if_neg hzero, if_pos hmany]
      exact iff_of_false (by simp) fun h => by omega
    · rw [if_neg hzero, if_neg hmany, and_iff_right (by omega)]

/-- The two ways in which an edit is made. -/
lemma makes_cases (h : Makes content edit) :
    (countMatches edit.search content = 1 ∧
        applied content edit = replaceMatches edit.search edit.replace content) ∨
      (countMatches edit.search content = 0 ∧ trim edit.search ≠ [] ∧
        countMatches (trim edit.search) content = 1 ∧
        applied content edit = replaceMatches (trim edit.search) (trim edit.replace) content) := by
  unfold Makes at h
  unfold applied
  by_cases hfuzzy : (decide (countMatches edit.search content = 0) && !(trim edit.search).isEmpty &&
      decide (countMatches (trim edit.search) content = 1)) = true
  · right
    have hchosen : chosen content edit = (trim edit.search, trim edit.replace, 1) := if_pos hfuzzy
    simp only [Bool.and_eq_true, decide_eq_true_eq, Bool.not_eq_true', List.isEmpty_eq_false_iff]
      at hfuzzy
    rw [hchosen]
    exact ⟨hfuzzy.1.1, hfuzzy.1.2, hfuzzy.2, rfl⟩
  · left
    have hchosen : chosen content edit
        = (edit.search, edit.replace, countMatches edit.search content) := if_neg hfuzzy
    rw [hchosen] at h ⊢
    exact ⟨h, rfl⟩

lemma chosen_of_found (h : countMatches edit.search content = 1) :
    chosen content edit = (edit.search, edit.replace, 1) := by
  unfold chosen
  simp only [h]
  rfl

lemma chosen_of_trimmed (habsent : countMatches edit.search content = 0)
    (hne : trim edit.search ≠ []) (h : countMatches (trim edit.search) content = 1) :
    chosen content edit = (trim edit.search, trim edit.replace, 1) := by
  have hnonempty : (trim edit.search).isEmpty = false := List.isEmpty_eq_false_iff.mpr hne
  unfold chosen
  simp only [habsent, hnonempty, h]
  rfl

lemma UniqueEdit.makes (h : UniqueEdit content edit next) :
    Makes content edit ∧ next = applied content edit := by
  unfold Makes applied
  cases h with
  | exact h =>
    rw [chosen_of_found (countMatches_of_unique h)]
    exact ⟨rfl, (replaceMatches_eq h.allWithin).symm⟩
  | trimmed habsent hne h =>
    rw [chosen_of_trimmed (countMatches_eq_zero_iff.mpr habsent) hne (countMatches_of_unique h)]
    exact ⟨rfl, (replaceMatches_eq h.allWithin).symm⟩

lemma UniqueEdit.not_overlapping (h : UniqueEdit content edit next) :
    ¬OverlappingEdit content edit := by
  rintro (hoverlaps | ⟨habsent', -, hoverlaps⟩)
  · cases h with
    | exact h => exact h.not_overlaps hoverlaps
    | trimmed habsent hne h =>
      obtain ⟨k, hk, -⟩ := hoverlaps
      exact habsent k hk.1
  · cases h with
    | exact h => exact habsent' _ h.1
    | trimmed habsent hne h => exact h.not_overlaps hoverlaps

lemma OverlappingEdit.makes (h : OverlappingEdit content edit) : Makes content edit := by
  unfold Makes
  rcases h with ⟨i, hi, -⟩ | ⟨habsent, hne, i, hi, -⟩
  · rw [chosen_of_found (countMatches_eq_one_iff.mpr ⟨i, hi⟩)]
  · rw [chosen_of_trimmed (countMatches_eq_zero_iff.mpr habsent) hne
      (countMatches_eq_one_iff.mpr ⟨i, hi⟩)]

/-- **What is made is unique or overlapping.** -/
lemma Makes.unique (h : Makes content edit) (hfree : ¬OverlappingEdit content edit) :
    UniqueEdit content edit (applied content edit) := by
  rcases makes_cases h with ⟨hone, heq⟩ | ⟨hzero, hne, hone, heq⟩
  · obtain ⟨i, hi⟩ := countMatches_eq_one_iff.mp hone
    have hunique := hi.unique_or_overlaps.resolve_right fun hover => hfree (.inl hover)
    rw [heq, replaceMatches_eq hi]
    exact .exact hunique
  · have habsent := countMatches_eq_zero_iff.mp hzero
    obtain ⟨i, hi⟩ := countMatches_eq_one_iff.mp hone
    have hunique := hi.unique_or_overlaps.resolve_right
      fun hover => hfree (.inr ⟨habsent, hne, hover⟩)
    rw [heq, replaceMatches_eq hi]
    exact .trimmed habsent hne hunique

/-! ## A list of edits -/

/-- Every edit that is made is unique. -/
def MadeUniquely (k : ℕ) (content : List Char) (edits : List Edit) : Prop :=
  ∀ earlier edit before after, earlier ++ [edit] <+: edits →
    applyEdits k earlier content = .ok before →
    applyEdits k (earlier ++ [edit]) content = .ok after → UniqueEdit before edit after

lemma madeUniquely_cons {k : ℕ} :
    MadeUniquely k content (edit :: edits) ↔
      (Makes content edit → UniqueEdit content edit (applied content edit) ∧
        MadeUniquely (k + 1) (applied content edit) edits) := by
  constructor
  · intro h hmakes
    constructor
    · exact h [] edit content _ (List.prefix_append [edit] edits) rfl
        (applyEdits_cons.mpr ⟨hmakes, rfl⟩)
    · intro earlier edit' before after hprefix hbefore hafter
      exact h (edit :: earlier) edit' before after ((List.prefix_cons_inj edit).mpr hprefix)
        (applyEdits_cons.mpr ⟨hmakes, hbefore⟩) (applyEdits_cons.mpr ⟨hmakes, hafter⟩)
  · intro h earlier edit' before after hprefix hbefore hafter
    cases earlier with
    | nil =>
      obtain rfl : edit' = edit := (List.cons_prefix_cons.mp hprefix).1
      obtain rfl : content = before := Except.ok.inj hbefore
      obtain ⟨hmakes, hnext⟩ := applyEdits_cons.mp hafter
      rw [← Except.ok.inj hnext]
      exact (h hmakes).1
    | cons first earlier =>
      obtain ⟨rfl, hrest⟩ := List.cons_prefix_cons.mp hprefix
      obtain ⟨hmakes, hbefore⟩ := applyEdits_cons.mp hbefore
      exact (h hmakes).2 earlier edit' before after hrest hbefore (applyEdits_cons.mp hafter).2

/-- The induction is on the edits; both sides go on with the content that the first edit leaves. -/
lemma madeUniquely_iff {k : ℕ} (content : List Char) (edits : List Edit) :
    MadeUniquely k content edits ↔ NeverOverlapping content edits := by
  induction edits generalizing k content with
  | nil =>
    refine iff_of_true (fun earlier edit before after hprefix => ?_) trivial
    exact absurd (List.prefix_nil.mp hprefix) (by simp)
  | cons edit edits ih =>
    rw [madeUniquely_cons, NeverOverlapping]
    constructor
    · intro h
      constructor
      · intro hoverlapping
        exact (h hoverlapping.makes).1.not_overlapping hoverlapping
      · intro next hnext
        obtain ⟨hmakes, rfl⟩ := hnext.makes
        exact (ih _).mp (h hmakes).2
    · rintro ⟨hfree, hrest⟩ hmakes
      have hunique := hmakes.unique hfree
      exact ⟨hunique, (ih _).mpr (hrest _ hunique)⟩

lemma uniqueEdits_of_applyEdits {k : ℕ} (h : NeverOverlapping content edits)
    (hedits : applyEdits k edits content = .ok patched) : UniqueEdits content edits patched := by
  induction edits generalizing k content with
  | nil =>
    obtain rfl : content = patched := Except.ok.inj hedits
    exact .nil content
  | cons edit edits ih =>
    obtain ⟨hmakes, hrest⟩ := applyEdits_cons.mp hedits
    have hunique := hmakes.unique h.1
    exact .cons hunique (ih (h.2 _ hunique) hrest)

/-! ## The tool -/

variable {fs : FileSystem} {c : Circumstances} {path : List Char}

/-- **A patch is atomic.**  The call succeeds when all edits are made and written, and otherwise leaves
the files as they were. -/
lemma patchFile_cases (fs : FileSystem) (c : Circumstances) (path : List Char) (edits : List Edit) :
    ((patchFile fs c path edits).succeeded = false ∧ (patchFile fs c path edits).files = fs) ∨
      ((patchFile fs c path edits).succeeded = true ∧ c.denied = none ∧ ∃ content patched,
        readToString fs c path = some content ∧ applyEdits 0 edits content = .ok patched ∧
          (patchFile fs c path edits).files = writeBytes fs c path patched) := by
  unfold patchFile
  cases hdenied : c.denied with
  | some violation => exact .inl ⟨rfl, rfl⟩
  | none =>
    simp only
    cases hread : readToString fs c path with
    | none => exact .inl ⟨rfl, rfl⟩
    | some content =>
      simp only
      cases hedits : applyEdits 0 edits content with
      | error message => exact .inl ⟨rfl, rfl⟩
      | ok patched =>
        simp only
        split_ifs
        · exact .inl ⟨rfl, rfl⟩
        · exact .inr ⟨rfl, trivial, content, patched, rfl, hedits, rfl⟩

/-- **Edits are unique unless they overlap.**  For every file and every list of edits the tool makes
only unique edits, leaves the file alone when it fails and has made all of them when it succeeds, if
and only if no edit has several positions that all overlap the first. -/
theorem uniquePatching_iff (fs : FileSystem) (c : Circumstances) (path : List Char)
    (edits : List Edit) :
    UniquePatching fs c path edits ↔
      (c.denied = none → ∀ content, readToString fs c path = some content →
        NeverOverlapping content edits) := by
  constructor
  · intro h hdenied content hread
    exact (madeUniquely_iff content edits).mp (h.made hdenied content hread)
  · intro h
    refine ⟨?_, ?_, ?_⟩
    · intro hdenied content hread
      exact (madeUniquely_iff content edits).mpr (h hdenied content hread)
    · intro hfailed
      rcases patchFile_cases fs c path edits with ⟨-, hfiles⟩ | ⟨hsucceeded, -⟩
      · exact hfiles
      · rw [hfailed] at hsucceeded
        exact absurd hsucceeded Bool.false_ne_true
    · intro hsucceeded
      rcases patchFile_cases fs c path edits with
        ⟨hfailed, -⟩ | ⟨-, hdenied, content, patched, hread, hedits, hfiles⟩
      · rw [hfailed] at hsucceeded
        exact absurd hsucceeded Bool.false_ne_true
      · exact ⟨content, patched, hread, uniqueEdits_of_applyEdits (h hdenied content hread) hedits,
          hfiles⟩

/-! ## An edit that overlaps itself -/

lemma fromUTF8?_toUTF8 (text : String) : String.fromUTF8? text.toUTF8 = some text :=
  dif_pos text.isValidUTF8

/-- What was written is read again. -/
lemma readToString_writeBytes (fs : FileSystem) (c : Circumstances) (path content : List Char)
    {c' : Circumstances} (h : c'.unreadable = false) :
    readToString (writeBytes fs c path content) c' path = some content := by
  have hbytes : (writeBytes fs c path content).bytes path = some (String.ofList content).toUTF8 := by
    simp [FileSystem.bytes, FileSystem.read, writeBytes, FileSystem.write]
  rw [readToString, h, hbytes, Option.bind_some, fromUTF8?_toUTF8, Option.map_some,
    String.toList_ofList]
  rfl

def emptyDisk : FileSystem where
  resolve _ := 0
  file _ := none

def allowed : Circumstances where
  now := 0

/-- A file with three equal characters. -/
def tripleFile : FileSystem := writeBytes emptyDisk allowed "f".toList "aaa".toList

def halfEdit : Edit where
  search := "aa".toList
  replace := "b".toList

lemma overlapping_halfEdit : OverlappingEdit "aaa".toList halfEdit := by
  have hstands : ∀ i, i ≤ 1 → StandsAt "aa".toList "aaa".toList i := by
    unfold StandsAt OccursAt
    decide
  refine .inl ⟨0, ⟨hstands 0 (Nat.zero_le 1), ?_⟩, 1, hstands 1 le_rfl, Nat.one_ne_zero⟩
  intro j hj
  have hlength : j + 2 ≤ 3 := hj.2.length_le (by decide)
  exact ⟨Nat.zero_le j, .inr (by change j < 0 + 2; omega)⟩

/-- Two of three equal characters stand at two positions, and the edit is made at the first. -/
theorem not_uniquePatching_overlapping :
    ¬ UniquePatching tripleFile allowed "f".toList [halfEdit] := by
  intro h
  have hread : readToString tripleFile allowed "f".toList = some "aaa".toList :=
    readToString_writeBytes emptyDisk allowed _ _ rfl
  have hmade : applyEdits 0 [halfEdit] "aaa".toList = .ok "ba".toList := by decide
  have hunique := h.made rfl _ hread [] halfEdit "aaa".toList "ba".toList List.prefix_rfl rfl hmade
  exact hunique.not_overlapping overlapping_halfEdit

end RustyClaw.Files
