import RustyClaw.Library.Json

/-!
# Skill files

A skill is a text with a YAML front matter between two lines `---` and instructions behind them.
`parse_skill_md` does not look for lines: it splits the text at the first two places where the three
dashes stand, whatever comes in front of them, and `YamlReader` stands for what reads the front
matter.

`skillParts_document` is the case it is written for, a front matter without the dashes.
`frontMatter_iff` says that nothing else works: dashes inside a line of the front matter cut it short
(`skillParts_ne_of_dashes`), and a text that begins otherwise is taken whenever what stands between
its first dashes is a front matter.
-/

namespace RustyClaw.SkillFile

open Glyph Text

/-! ## The parser -/

inductive SkillTrigger where
  | manualOnly | suggestOnly | manualOrSuggested
  deriving DecidableEq, Repr

inductive OutputMode where
  | freeform | designDocOnly | reviewOnly
  deriving DecidableEq, Repr

inductive ArtifactKind where
  | designDoc | reviewReport
  deriving DecidableEq, Repr

structure SkillConstraints where
  forbidCodeWrite : Bool := false
  requiredArtifactKind : Option ArtifactKind := none

structure SkillMeta where
  name : List Char
  version : List Char
  description : List Char
  trigger : SkillTrigger
  allowedTools : List (List Char)
  outputMode : Option OutputMode

structure SkillDef where
  skillMeta : SkillMeta
  instructions : List Char
  parameters : Option (Json Char)
  constraints : SkillConstraints

/-- The front matter as it is read; `ν` is a value of the YAML reader. -/
structure RawFrontmatter (ν : Type) where
  name : List Char
  version : List Char
  description : List Char
  trigger : Option (List Char)
  allowedTools : Option (List (List Char))
  outputMode : Option (List Char)
  constraints : Option SkillConstraints
  parameters : Option ν

/-- What the YAML library does with the front matter. -/
structure YamlReader (ν : Type) where
  fromStr : List Char → Option ν
  fromValue : ν → Option (RawFrontmatter ν)
  get : String → ν → Option ν
  toJson : ν → Option (Json Char)

variable {ν : Type}

/-- `str::splitn`. -/
def splitn : ℕ → List Char → List Char → List (List Char)
  | 0, _, _ => []
  | 1, _, s => [s]
  | n + 2, pat, s =>
    match find pat s with
    | none => [s]
    | some i => s.take i :: splitn (n + 1) pat (s.drop (i + pat.length))

def dashes : List Char := "---".toList

/-- The text for the YAML reader and the instructions. -/
def skillParts (content : List Char) : Option (List Char × List Char) :=
  match splitn 3 dashes content with
  | [_, yamlStr, body] => some (trim yamlStr, trim body)
  | _ => none

def readTrigger (trigger : Option (List Char)) : SkillTrigger :=
  if trigger = some "suggest_only".toList then .suggestOnly
  else if trigger = some "manual_or_suggested".toList then .manualOrSuggested
  else .manualOnly

def readOutputMode (outputMode : Option (List Char)) : Option OutputMode :=
  if outputMode = some "design_doc_only".toList then some .designDocOnly
  else if outputMode = some "review_only".toList then some .reviewOnly
  else if outputMode = some "freeform".toList then some .freeform
  else none

/-- The skill with this front matter and these instructions. -/
def skillFrom (yaml : YamlReader ν) (yamlStr body : List Char) : Option SkillDef := do
  let yamlVal ← yaml.fromStr yamlStr
  let raw ← yaml.fromValue yamlVal
  let parametersJson := (yaml.get "parameters" yamlVal).bind yaml.toJson
  return {
    skillMeta := {
      name := raw.name
      version := raw.version
      description := raw.description
      trigger := readTrigger raw.trigger
      allowedTools := raw.allowedTools.getD []
      outputMode := readOutputMode raw.outputMode }
    instructions := body
    parameters := parametersJson.or (raw.parameters.bind yaml.toJson)
    constraints := raw.constraints.getD {} }

def parseSkillMd (yaml : YamlReader ν) (content : List Char) : Option SkillDef :=
  (skillParts content).bind fun parts => skillFrom yaml parts.1 parts.2

/-! ## What a skill file should be -/

/-- A front matter between two lines of dashes, and the instructions. -/
def document (fm body : List Char) : List Char :=
  dashes ++ '\n' :: fm ++ '\n' :: (dashes ++ '\n' :: body)

/-- The YAML reader gets the front matter, and the body is the instructions. -/
def HandsOver (fm body : List Char) : Prop :=
  skillParts (document fm body) = some (trim fm, trim body)

def BeginsWithDelimiter (content : List Char) : Prop := (lines content).head? = some dashes

/-- The first place where the text stands. -/
def FirstAt (pat s : List Char) (i : ℕ) : Prop := OccursAt pat s i ∧ ∀ j < i, ¬OccursAt pat s j

/-- The dashes stand at two places, and what is between the first two of them is a front matter to the
YAML reader. -/
def HoldsFrontMatter (yaml : YamlReader ν) (content : List Char) : Prop :=
  ∃ i j, FirstAt dashes content i ∧ FirstAt dashes (content.drop (i + 3)) j ∧
    ((yaml.fromStr (trim ((content.drop (i + 3)).take j))).bind yaml.fromValue).isSome = true

/-! ## The first two dashes -/

lemma dashes_ne_nil : dashes ≠ [] := by decide

lemma find_dashes {s : List Char} {i : ℕ} : find dashes s = some i ↔ FirstAt dashes s i :=
  find_eq_some_iff dashes_ne_nil

lemma skillParts_of_first {content : List Char} {i j : ℕ} (hi : FirstAt dashes content i)
    (hj : FirstAt dashes (content.drop (i + 3)) j) :
    skillParts content = some (trim ((content.drop (i + 3)).take j),
      trim ((content.drop (i + 3)).drop (j + 3))) := by
  have hsplit : splitn 3 dashes content = [content.take i, (content.drop (i + 3)).take j,
      (content.drop (i + 3)).drop (j + 3)] := by
    simp only [splitn, find_dashes.mpr hi, show dashes.length = 3 from rfl, find_dashes.mpr hj]
  rw [skillParts, hsplit]

lemma skillParts_eq_some {content : List Char} (h : (skillParts content).isSome = true) :
    ∃ i j, FirstAt dashes content i ∧ FirstAt dashes (content.drop (i + 3)) j := by
  rw [skillParts] at h
  cases hi : find dashes content with
  | none => simp [splitn, hi] at h
  | some i =>
    cases hj : find dashes (content.drop (i + 3)) with
    | none => simp [splitn, hi, hj, show dashes.length = 3 from rfl] at h
    | some j => exact ⟨i, j, find_dashes.mp hi, find_dashes.mp hj⟩

/-- Whether there is a skill is up to the front matter. -/
lemma isSome_skillFrom (yaml : YamlReader ν) (yamlStr body : List Char) :
    (skillFrom yaml yamlStr body).isSome
      = ((yaml.fromStr yamlStr).bind yaml.fromValue).isSome := by
  rw [skillFrom]
  cases yaml.fromStr yamlStr with
  | none => rfl
  | some yamlVal =>
    simp only [Option.bind_eq_bind, Option.bind_some]
    cases yaml.fromValue yamlVal <;> rfl

/-- A text is taken for a skill exactly when its first dashes hold a front matter. -/
lemma isSome_parseSkillMd (yaml : YamlReader ν) (content : List Char) :
    (parseSkillMd yaml content).isSome = true ↔ HoldsFrontMatter yaml content := by
  constructor
  · intro h
    have hparts : (skillParts content).isSome = true := by
      rw [parseSkillMd] at h
      cases hnone : skillParts content with
      | none =>
        rw [hnone] at h
        exact absurd h Bool.false_ne_true
      | some parts => rfl
    obtain ⟨i, j, hi, hj⟩ := skillParts_eq_some hparts
    refine ⟨i, j, hi, hj, ?_⟩
    rwa [parseSkillMd, skillParts_of_first hi hj, Option.bind_some, isSome_skillFrom] at h
  · rintro ⟨i, j, hi, hj, hyaml⟩
    rwa [parseSkillMd, skillParts_of_first hi hj, Option.bind_some, isSome_skillFrom]

/-! ## A front matter between two lines -/

variable {fm body : List Char}

lemma isWhitespace_newline : isWhitespace '\n' = true := by decide

lemma trim_newline_cons (s : List Char) : trim ('\n' :: s) = trim s := by
  have hdrop : ('\n' :: s).dropWhile isWhitespace = s.dropWhile isWhitespace :=
    List.dropWhile_cons_of_pos isWhitespace_newline
  exact congrArg (List.rdropWhile isWhitespace) hdrop

lemma trim_concat_newline (s : List Char) : trim (s ++ ['\n']) = trim s := by
  refine trim_append_of_all isWhitespace ?_
  intro c hc
  rw [List.mem_singleton.mp hc]
  exact isWhitespace_newline

/-- An occurrence of the dashes is on one line. -/
lemma OccursAt.ne_newline {s : List Char} {i k : ℕ} (h : OccursAt dashes s i) (hk : k < 3) :
    s[i + k]? ≠ some '\n' := by
  rw [h.getElem? hk]
  have hall : ∀ k < 3, dashes[k]? ≠ some '\n' := by decide
  exact hall k hk

/-- Behind the first line the dashes stand first in the front matter, if at all, and otherwise behind
it. -/
lemma firstAt_behind (tail : List Char) {i : ℕ} (h : FirstAt dashes fm i) :
    FirstAt dashes ('\n' :: fm ++ '\n' :: tail) (i + 1) := by
  have hlen := h.1.length_le dashes_ne_nil
  have hshift : ∀ j, OccursAt dashes ('\n' :: fm ++ '\n' :: tail) (j + 1)
      ↔ OccursAt dashes (fm ++ '\n' :: tail) j := fun _ => Iff.rfl
  refine ⟨(hshift i).mpr ((occursAt_append_left hlen).mpr h.1), fun j hj => ?_⟩
  cases j with
  | zero => exact fun h0 => OccursAt.ne_newline h0 (by omega : 0 < 3) rfl
  | succ j =>
    intro hoccurs
    rw [hshift, occursAt_append_left (by omega)] at hoccurs
    exact h.2 j (by omega) hoccurs

lemma firstAt_delimiter (tail : List Char) (h : ∀ i, ¬OccursAt dashes fm i) :
    FirstAt dashes ('\n' :: fm ++ '\n' :: (dashes ++ tail)) (fm.length + 2) := by
  have hsplit : '\n' :: fm ++ '\n' :: (dashes ++ tail)
      = ('\n' :: fm ++ ['\n']) ++ (dashes ++ tail) := by simp
  have hlength : ('\n' :: fm ++ ['\n']).length = fm.length + 2 := by simp
  constructor
  · have hself := occursAt_append_right dashes ('\n' :: fm ++ ['\n']) (dashes ++ tail) 0
    rw [hlength, Nat.add_zero] at hself
    rw [hsplit]
    exact hself.mpr rfl
  · intro j hj hoccurs
    -- the newline that ends the front matter is not part of the occurrence
    have hend : ('\n' :: fm ++ '\n' :: (dashes ++ tail))[fm.length + 1]? = some '\n' := by
      rw [List.getElem?_append_right (by simp)]
      simp
    cases j with
    | zero => exact OccursAt.ne_newline hoccurs (by omega : 0 < 3) rfl
    | succ j =>
      by_cases hinside : j + 3 ≤ fm.length
      · have hfm : OccursAt dashes (fm ++ '\n' :: (dashes ++ tail)) j := hoccurs
        exact h j ((occursAt_append_left hinside).mp hfm)
      · refine OccursAt.ne_newline hoccurs (k := fm.length - j) (by omega) ?_
        rw [show j + 1 + (fm.length - j) = fm.length + 1 by omega]
        exact hend

lemma firstAt_document (fm body : List Char) : FirstAt dashes (document fm body) 0 :=
  ⟨rfl, fun _ hj => absurd hj (Nat.not_lt_zero _)⟩

lemma drop_document (fm body : List Char) :
    (document fm body).drop 3 = '\n' :: fm ++ '\n' :: (dashes ++ '\n' :: body) := rfl

/-- **A front matter without dashes is handed over.** -/
theorem skillParts_document (h : ∀ i, ¬OccursAt dashes fm i) : HandsOver fm body := by
  have hj : FirstAt dashes ((document fm body).drop (0 + 3)) (fm.length + 2) :=
    firstAt_delimiter _ h
  have hsplit : '\n' :: fm ++ '\n' :: (dashes ++ '\n' :: body)
      = ('\n' :: (fm ++ ['\n'])) ++ (dashes ++ '\n' :: body) := by simp
  have hlength : ('\n' :: (fm ++ ['\n'])).length = fm.length + 2 := by simp
  have htake : ((document fm body).drop 3).take (fm.length + 2) = '\n' :: (fm ++ ['\n']) := by
    rw [drop_document, hsplit, ← hlength, List.take_left]
  have hdrop : ((document fm body).drop 3).drop (fm.length + 2 + 3) = '\n' :: body := by
    rw [drop_document, hsplit, ← hlength, ← List.drop_drop, List.drop_left]
    rfl
  rw [HandsOver, skillParts_of_first (firstAt_document fm body) hj, Nat.zero_add, htake, hdrop,
    trim_newline_cons, trim_concat_newline, trim_newline_cons]

/-- Dashes in the front matter cut it short. -/
theorem skillParts_ne_of_dashes {i : ℕ} (h : OccursAt dashes fm i) : ¬HandsOver fm body := by
  intro hhands
  obtain ⟨k, hk⟩ : ∃ k, FirstAt dashes fm k := by
    have hfound : find dashes fm ≠ none := by
      rw [Ne, find_eq_none_iff dashes_ne_nil]
      exact fun hnone => hnone i h
    obtain ⟨k, hk⟩ := Option.ne_none_iff_exists'.mp hfound
    exact ⟨k, find_dashes.mp hk⟩
  have hj : FirstAt dashes ((document fm body).drop (0 + 3)) (k + 1) := firstAt_behind _ hk
  have hlen := hk.1.length_le dashes_ne_nil
  have hlen' : k ≤ fm.length := by omega
  rw [HandsOver, skillParts_of_first (firstAt_document fm body) hj, Option.some.injEq,
    Prod.mk.injEq, Nat.zero_add, drop_document] at hhands
  have htake : ('\n' :: fm ++ '\n' :: (dashes ++ '\n' :: body)).take (k + 1)
      = '\n' :: fm.take k := by
    rw [List.cons_append, List.take_succ_cons, List.take_append_of_le_length hlen']
  rw [htake, trim_newline_cons] at hhands
  -- what is cut off has three characters that trimming keeps
  obtain ⟨rest, hrest⟩ := occursAt_iff_exists.mp hk.1
  have hcount := countP_of_trim_eq isWhitespace hhands.1
  have hfm : fm = fm.take k ++ (dashes ++ rest) := by
    rw [← hrest, List.take_append_drop]
  have hdashes : dashes.countP (fun c => !isWhitespace c) = 3 := by decide
  conv_rhs at hcount => rw [hfm]
  rw [List.countP_append, List.countP_append, hdashes] at hcount
  omega

lemma handsOver_iff : HandsOver fm body ↔ contains dashes fm = false := by
  rw [contains_eq_false_iff dashes_ne_nil]
  constructor
  · intro h i hi
    exact skillParts_ne_of_dashes hi h
  · exact skillParts_document

/-- **When front matter is read as it is meant.**  A front matter without a line of dashes is handed
over, with the body, exactly when it has no dashes inside a line either; a text that does not begin
with a line of dashes is rejected exactly when its first two dashes do not hold a front matter. -/
theorem frontMatter_iff (yaml : YamlReader ν) :
    (∀ fm body, dashes ∉ lines fm → (HandsOver fm body ↔ contains dashes fm = false)) ∧
      ∀ content, ¬BeginsWithDelimiter content →
        (parseSkillMd yaml content = none ↔ ¬HoldsFrontMatter yaml content) := by
  refine ⟨fun fm body _ => handsOver_iff, fun content _ => ?_⟩
  rw [← isSome_parseSkillMd, Bool.not_eq_true, Option.isSome_eq_false_iff, Option.isNone_iff_eq_none]

/-! ## Dashes in the wrong places -/

/-- A YAML reader, on the one front matter of these examples. -/
def someYaml : YamlReader Unit where
  fromStr text := if text = "name: a\ndescription: b".toList then some () else none
  fromValue _ := some {
    name := "a".toList
    version := "0.1.0".toList
    description := "b".toList
    trigger := none
    allowedTools := none
    outputMode := none
    constraints := none
    parameters := none }
  get _ _ := none
  toJson _ := none

/-- A description with an em dash written as three dashes. -/
def dashedFrontMatter : List Char := "name: a\ndescription: first --- second".toList

/-- A text that has its front matter below a first line. -/
def lateFrontMatter : List Char := "Draft\n---\nname: a\ndescription: b\n---\nText".toList

/-- The description is cut at its dashes, and the second text is taken for a skill. -/
theorem not_frontMatter_dashed :
    ¬ (∀ fm body, dashes ∉ lines fm → HandsOver fm body) ∧
      ¬ ∀ content, ¬BeginsWithDelimiter content → parseSkillMd someYaml content = none := by
  constructor
  · intro h
    have hlines : dashes ∉ lines dashedFrontMatter := by decide
    have hinside : OccursAt dashes dashedFrontMatter 27 := by
      unfold OccursAt
      decide
    exact skillParts_ne_of_dashes hinside (h dashedFrontMatter [] hlines)
  · intro h
    have hfirst : ¬BeginsWithDelimiter lateFrontMatter := by
      unfold BeginsWithDelimiter
      decide
    have htaken : (parseSkillMd someYaml lateFrontMatter).isSome = true := by decide
    rw [h lateFrontMatter hfirst] at htaken
    exact Bool.false_ne_true htaken

end RustyClaw.SkillFile
