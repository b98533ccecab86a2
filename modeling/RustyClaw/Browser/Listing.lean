import RustyClaw.Browser.Snapshot

/-!
# The list of a snapshot and its table

The list that a model reads has one line for each entry of the table: line `i` begins with `[i]` and
the role of the element with the number `i`, the numbers are those from one on, and the list is as
long as the caller allows (`Faithful`).

The names and the values of the elements come from the page, and `build_snapshot` writes them as
they are: a name with a line break in it makes two lines of one element, and the second may look
like the line of another.  `faithful_iff_displays` says which pages are listed as they should be.
-/

namespace RustyClaw.Browser

open Glyph
open Json hiding str

/-! ## What a list should be -/

section Faithful

variable (unicode : Unicode) (nodes : List AxNode) (hint : Option (List Char))
  (maxElements maxChars : Nat)

def emptyPage : List Char := str "No interactive elements found on this page."

def refOf (element : ScoredElement) : ElementRef :=
  ⟨element.backendNodeId, element.role, element.name⟩

/-- Without a hint every element counts the same. -/
def hintScore (element : ScoredElement) : Nat :=
  match hint with
  | none => 0
  | some hint => (scored unicode (tokenize unicode hint) element).score

structure Faithful (result : SnapshotResult) : Prop where
  keys : ∀ id : UInt32,
    (result.nodeMap id).isSome = true ↔ 1 ≤ id.toNat ∧ id.toNat ≤ result.included
  count : result.included ≠ 0 → (result.output.splitOn '\n').length = result.included
  heads : ∀ (id : UInt32) (element : ElementRef), result.nodeMap id = some element →
    ∃ line, (result.output.splitOn '\n')[id.toNat - 1]? = some line ∧
      lineHead id element.role <+: line
  message : result.included = 0 → result.output = emptyPage
  size : result.included ≠ 1 → utf8Len result.output ≤ maxChars
  best : ∃ shown leftOut : List ScoredElement,
    (shown ++ leftOut).Perm (nodes.filterMap (interactive unicode)) ∧
      shown.length = result.included ∧
      (∀ (k : Nat) (element : ScoredElement), shown[k]? = some element →
        result.nodeMap (UInt32.ofNat (k + 1)) = some (refOf element)) ∧
      ∀ a ∈ shown, ∀ b ∈ leftOut, hintScore unicode hint b ≤ hintScore unicode hint a ∧
        (hint ≠ none → b.isFormField = true → a.isFormField = true)

/-! ## Which pages are listed so -/

/-- The lines of elements that are numbered from `i + 1` on. -/
def numberedLines : Nat → List ScoredElement → List (List Char)
  | _, [] => []
  | i, element :: elements =>
    lineOf (UInt32.ofNat (i + 1)) element :: numberedLines (i + 1) elements

/-- The elements of a page, in the order in which they are listed. -/
def candidates : List ScoredElement := ranked unicode hint (nodes.filterMap (interactive unicode))

/-- There is room for the first `k + 1` elements; for one there always is. -/
structure Fits (k : Nat) : Prop where
  wanted : k < maxElements
  found : k < (candidates unicode nodes hint).length
  small : k = 0 ∨ utf8Len (['\n'].intercalate
    (numberedLines 0 ((candidates unicode nodes hint).take (k + 1)))) ≤ maxChars

/-- What a line has of the page. -/
def shownTexts (element : ScoredElement) : List (List Char) :=
  if element.value = [] then [truncateName element.name 80]
  else [truncateName element.name 60, truncateName element.value 40]

/-- No text that is shown has a line break in it, the numbers do not run out, the message for an
empty page fits, and no element is listed because it matches a hundred words more than a form field
that is not. -/
structure Displays : Prop where
  unbroken : ∀ (k : Nat) (element : ScoredElement), Fits unicode nodes hint maxElements maxChars k →
    (candidates unicode nodes hint)[k]? = some element →
      ∀ text ∈ shownTexts element, '\n' ∉ text
  numbered : ∀ k, Fits unicode nodes hint maxElements maxChars k → k + 1 < 2 ^ 32
  message : ¬ Fits unicode nodes hint maxElements maxChars 0 → 43 ≤ maxChars
  formFields : hint ≠ none → ∀ (k l : Nat) (a b : ScoredElement),
    Fits unicode nodes hint maxElements maxChars k →
      ¬ Fits unicode nodes hint maxElements maxChars l →
      (candidates unicode nodes hint)[k]? = some a →
      (candidates unicode nodes hint)[l]? = some b →
        a.isFormField = false → b.isFormField = true → a.score < b.score

end Faithful

/-! ## Lines -/

section Lines

variable {unicode : Unicode} {maxChars : Nat}

lemma utf8Len_intercalate_cons (line : List Char) {lines : List (List Char)} (h : lines ≠ []) :
    utf8Len (['\n'].intercalate (line :: lines)) =
      utf8Len line + 1 + utf8Len (['\n'].intercalate lines) := by
  rw [List.intercalate_cons_of_ne_nil h, utf8Len_append, utf8Len_append]
  rfl

lemma length_splitOn (c : Char) (s : List Char) : (s.splitOn c).length = s.count c + 1 := by
  induction s with
  | nil => rfl
  | cons d s ih =>
    rw [List.splitOn_cons_eq_if_modifyHead, List.count_cons]
    split
    · rw [List.length_cons, ih]
    · rw [List.length_modifyHead, ih]

lemma count_intercalate {c : Char} {texts : List (List Char)} (h : texts ≠ []) :
    ([c].intercalate texts).count c + 1 = (texts.map (List.count c)).sum + texts.length := by
  induction texts with
  | nil => exact absurd rfl h
  | cons text texts ih =>
    rcases eq_or_ne texts [] with rfl | htexts
    · simp [List.intercalate]
    · rw [List.intercalate_cons_of_ne_nil htexts, List.count_append, List.count_append,
        List.map_cons, List.sum_cons, List.length_cons]
      have hc : [c].count c = 1 := List.count_singleton_self
      have := ih htexts
      omega

@[simp] lemma numberedLines_eq_nil {i : Nat} {elements : List ScoredElement} :
    numberedLines i elements = [] ↔ elements = [] := by
  cases elements <;> simp [numberedLines]

@[simp] lemma length_numberedLines (i : Nat) (elements : List ScoredElement) :
    (numberedLines i elements).length = elements.length := by
  induction elements generalizing i with
  | nil => rfl
  | cons element elements ih => rw [numberedLines, List.length_cons, List.length_cons, ih]

lemma getElem?_numberedLines (i k : Nat) (elements : List ScoredElement) :
    (numberedLines i elements)[k]? =
      elements[k]?.map (lineOf (UInt32.ofNat (i + k + 1))) := by
  induction elements generalizing i k with
  | nil => rfl
  | cons element elements ih =>
    cases k with
    | zero => rfl
    | succ k =>
      rw [numberedLines, List.getElem?_cons_succ, List.getElem?_cons_succ, ih,
        show i + 1 + k = i + (k + 1) by omega]

/-- The loop stops at the end of the elements, or where the next line would make the list too long. -/
lemma lt_length_listElements {i charCount k : Nat} {elements : List ScoredElement} :
    k < (listElements maxChars i charCount elements).length ↔
      k < elements.length ∧ (i + k = 0 ∨
        charCount + utf8Len (['\n'].intercalate (numberedLines i (elements.take (k + 1)))) ≤
          maxChars) := by
  induction elements generalizing i charCount k with
  | nil => simp [listElements]
  | cons element elements ih =>
    rw [listElements]
    set line := lineOf (UInt32.ofNat (i + 1)) element
    have hone : utf8Len (['\n'].intercalate (numberedLines i ((element :: elements).take 1))) =
        utf8Len line := by
      simp [numberedLines, List.intercalate, line]
    have hmore : ∀ j, j < elements.length →
        utf8Len (['\n'].intercalate (numberedLines i ((element :: elements).take (j + 2)))) =
          utf8Len line + 1 +
            utf8Len (['\n'].intercalate (numberedLines (i + 1) (elements.take (j + 1)))) := by
      intro j hj
      rw [List.take_succ_cons, numberedLines]
      apply utf8Len_intercalate_cons
      rw [Ne, numberedLines_eq_nil]
      exact List.ne_nil_of_length_pos (by rw [List.length_take]; omega)
    by_cases hstop : maxChars < charCount + utf8Len line ∧ 0 < i
    · rw [if_pos (by simpa using hstop)]
      -- the first line is part of every longer list
      constructor
      · intro h
        exact absurd h (Nat.not_lt_zero _)
      · rintro ⟨hk, hroom⟩
        cases k with
        | zero =>
          rw [hone] at hroom
          omega
        | succ j =>
          rw [hmore j (by simpa using hk)] at hroom
          omega
    · rw [if_neg (by simpa using hstop), List.length_cons, List.length_cons]
      cases k with
      | zero =>
        rw [hone]
        omega
      | succ j =>
        rw [Nat.add_lt_add_iff_right, ih, Nat.add_lt_add_iff_right]
        apply and_congr_right
        intro hj
        rw [hmore j hj]
        omega

lemma getElem?_listElements {i charCount k : Nat} {elements : List ScoredElement}
    (h : k < (listElements maxChars i charCount elements).length) :
    (listElements maxChars i charCount elements)[k]? = elements[k]?.map fun element =>
      ⟨UInt32.ofNat (i + k + 1), lineOf (UInt32.ofNat (i + k + 1)) element, refOf element⟩ := by
  induction elements generalizing i charCount k with
  | nil => exact absurd h (Nat.not_lt_zero _)
  | cons element elements ih =>
    rw [listElements] at h ⊢
    split at h
    · exact absurd h (Nat.not_lt_zero _)
    · rename_i hgo
      rw [if_neg hgo]
      cases k with
      | zero => rfl
      | succ k =>
        rw [List.getElem?_cons_succ, List.getElem?_cons_succ, ih (by simpa using h),
          show i + 1 + k = i + (k + 1) by omega]

/-- The lines of the list are those of the first elements. -/
lemma map_line_listElements (charCount : Nat) (elements : List ScoredElement) :
    (listElements maxChars 0 charCount elements).map Entry.line =
      numberedLines 0 (elements.take (listElements maxChars 0 charCount elements).length) := by
  apply List.ext_getElem?
  intro k
  rw [List.getElem?_map, getElem?_numberedLines]
  by_cases hk : k < (listElements maxChars 0 charCount elements).length
  · rw [getElem?_listElements hk, List.getElem?_take_of_lt hk, Option.map_map]
    rfl
  · rw [List.getElem?_eq_none (not_lt.mp hk), List.getElem?_eq_none]
    · rfl
    · rw [List.length_take]
      omega

end Lines

/-! ## The table -/

section Table

lemma isSome_nodeMapOf {entries : List Entry} {entry : Entry} (h : entry ∈ entries) :
    (nodeMapOf entries entry.id).isSome = true := by
  induction entries using List.reverseRecOn with
  | nil => cases h
  | append_singleton entries other ih =>
    rw [nodeMapOf, List.foldl_append, List.foldl_cons, List.foldl_nil, Function.update_apply]
    split
    · rfl
    · next hid =>
      rcases List.mem_append.mp h with h | h
      · exact ih h
      · rw [List.mem_singleton.mp h] at hid
        exact absurd rfl hid

lemma nodeMapOf_eq_none {entries : List Entry} {id : UInt32} (h : ∀ entry ∈ entries, entry.id ≠ id) :
    nodeMapOf entries id = none := by
  rcases hid : nodeMapOf entries id with _ | element
  · rfl
  · obtain ⟨entry, hentry, heq, -⟩ := exists_entry_of_nodeMapOf hid
    exact absurd heq (h entry hentry)

/-- As long as the numbers do not run out, an entry is in the table under its own number. -/
lemma nodeMapOf_eq_some {entries : List Entry} {k : Nat} {entry : Entry}
    (hids : ∀ (j : Nat) (other : Entry), entries[j]? = some other → other.id = UInt32.ofNat (j + 1))
    (hlen : entries.length < 2 ^ 32) (hk : entries[k]? = some entry) :
    nodeMapOf entries (UInt32.ofNat (k + 1)) = some entry.element := by
  obtain ⟨element, helement⟩ := Option.isSome_iff_exists.mp
    (isSome_nodeMapOf (List.mem_of_getElem? hk))
  rw [hids k entry hk] at helement
  obtain ⟨other, hother, hid, rfl⟩ := exists_entry_of_nodeMapOf helement
  obtain ⟨j, hj⟩ := List.getElem?_of_mem hother
  have hkl := (List.getElem?_eq_some_iff.mp hk).1
  have hjl := (List.getElem?_eq_some_iff.mp hj).1
  -- two places below `2 ^ 32` with one number are one place
  have hjk : j = k := by
    rw [hids j other hj, ← UInt32.toNat_inj, UInt32.toNat_ofNat', UInt32.toNat_ofNat'] at hid
    omega
  rw [hjk, hk] at hj
  rw [helement, Option.some_inj.mp hj]

end Table

/-! ## The order -/

section Order

variable {unicode : Unicode} {hint : Option (List Char)}

/-- What the ranking makes of an element. -/
def rescored (unicode : Unicode) (hint : Option (List Char)) (element : ScoredElement) :
    ScoredElement :=
  match hint with
  | none => element
  | some hint => scored unicode (tokenize unicode hint) element

/-- The elements in the order of the list, as they are before they are ranked. -/
def arranged (unicode : Unicode) (hint : Option (List Char)) (elements : List ScoredElement) :
    List ScoredElement :=
  match hint with
  | none => elements
  | some _ => elements.mergeSort fun a b =>
      decide (hintScore unicode hint b ≤ hintScore unicode hint a)

lemma ranked_eq_map (elements : List ScoredElement) :
    ranked unicode hint elements = (arranged unicode hint elements).map (rescored unicode hint) := by
  cases hint with
  | none => exact (List.map_id _).symm
  | some hint =>
    symm
    apply List.map_mergeSort
    intro a _ b _
    rfl

lemma arranged_perm (elements : List ScoredElement) :
    (arranged unicode hint elements).Perm elements := by
  cases hint with
  | none => exact List.Perm.refl _
  | some hint => exact List.mergeSort_perm _ _

lemma pairwise_arranged (elements : List ScoredElement) :
    (arranged unicode hint elements).Pairwise fun a b =>
      hintScore unicode hint b ≤ hintScore unicode hint a := by
  cases hint with
  | none =>
    apply List.pairwise_of_forall_mem_list
    intro a _ b _
    exact le_refl _
  | some hint =>
    refine (List.pairwise_mergeSort ?_ ?_ elements).imp of_decide_eq_true
    · intro a b c hab hbc
      exact decide_eq_true ((of_decide_eq_true hbc).trans (of_decide_eq_true hab))
    · intro a b
      rw [Bool.or_eq_true, decide_eq_true_eq, decide_eq_true_eq]
      exact le_total _ _

@[simp] lemma lineOf_rescored (id : UInt32) (element : ScoredElement) :
    lineOf id (rescored unicode hint element) = lineOf id element := by
  cases hint <;> rfl

@[simp] lemma refOf_rescored (element : ScoredElement) :
    refOf (rescored unicode hint element) = refOf element := by
  cases hint <;> rfl

@[simp] lemma isFormField_rescored (element : ScoredElement) :
    (rescored unicode hint element).isFormField = element.isFormField := by
  cases hint <;> rfl

@[simp] lemma shownTexts_rescored (element : ScoredElement) :
    shownTexts (rescored unicode hint element) = shownTexts element := by
  cases hint <;> rfl

lemma score_rescored (h : hint ≠ none) (element : ScoredElement) :
    (rescored unicode hint element).score = hintScore unicode hint element := by
  cases hint with
  | none => exact absurd rfl h
  | some hint => rfl

end Order

/-! ## What an element is like -/

section Elements

variable {unicode : Unicode}

lemma role_mem_of_interactive {node : AxNode} {element : ScoredElement}
    (h : interactive unicode node = some element) :
    element.role ∈ interactiveRoles ∧
      element.isFormField = formFieldRoles.contains element.role := by
  unfold interactive at h
  dsimp only at h
  split at h
  · cases h
  · next hkept =>
    obtain ⟨backendNodeId, -, rfl⟩ := Option.map_eq_some_iff.mp h
    refine ⟨?_, rfl⟩
    have hkept : (node.ignored = false ∧ axValueStr node.role ≠ []) ∧
        unicode.toLowercase (axValueStr node.role) ∈ interactiveRoles := by
      simpa using hkept
    exact hkept.2

lemma newline_not_mem_role : ∀ role ∈ interactiveRoles, '\n' ∉ role := by
  decide

lemma newline_not_mem_lineHead (id : UInt32) {role : List Char} (hrole : '\n' ∉ role) :
    '\n' ∉ lineHead id role := by
  have hdigits : '\n' ∉ Nat.toDigits 10 id.toNat := Text.not_mem_toDigits (by decide) _
  simp [lineHead, str_char, hdigits, hrole]

/-- A line is broken exactly where the page has broken it. -/
lemma newline_not_mem_lineOf (id : UInt32) {element : ScoredElement} (hrole : '\n' ∉ element.role) :
    '\n' ∉ lineOf id element ↔ ∀ text ∈ shownTexts element, '\n' ∉ text := by
  have hhead := newline_not_mem_lineHead id hrole
  unfold lineOf shownTexts
  by_cases hvalue : element.value = []
  · by_cases hname : element.name = []
    · simp [hvalue, hname, hhead, truncateName]
    · simp [hvalue, hname, hhead, str_char]
  · simp [hvalue, hhead, str_char]

end Elements

/-! ## The snapshot -/

section Outcome

variable {unicode : Unicode} {nodes : List AxNode} {hint : Option (List Char)}
  {maxElements maxChars : Nat}

lemma fits_iff {k : Nat} : Fits unicode nodes hint maxElements maxChars k ↔
    k < (buildSnapshot unicode nodes hint maxElements maxChars).included := by
  have hlength : k < (buildSnapshot unicode nodes hint maxElements maxChars).included ↔ _ :=
    lt_length_listElements
  rw [hlength, List.length_take, Nat.lt_min, Nat.zero_add, Nat.zero_add]
  constructor
  · intro h
    refine ⟨⟨h.wanted, h.found⟩, ?_⟩
    rw [List.take_take, min_eq_left h.wanted]
    exact h.small
  · rintro ⟨⟨hwanted, hfound⟩, hsmall⟩
    rw [List.take_take, min_eq_left hwanted] at hsmall
    exact ⟨hwanted, hfound, hsmall⟩

lemma included_le : (buildSnapshot unicode nodes hint maxElements maxChars).included ≤
    (candidates unicode nodes hint).length := by
  by_contra hlong
  exact absurd (fits_iff.mpr (not_le.mp hlong)).found (lt_irrefl _)

lemma candidates_eq : candidates unicode nodes hint =
    (arranged unicode hint (nodes.filterMap (interactive unicode))).map (rescored unicode hint) :=
  ranked_eq_map _

/-- The entry with the number `k + 1` is that of candidate `k`. -/
lemma getElem?_entries {k : Nat}
    (hk : k < (buildSnapshot unicode nodes hint maxElements maxChars).included) :
    (buildSnapshot unicode nodes hint maxElements maxChars).entries[k]? =
      (candidates unicode nodes hint)[k]?.map fun element =>
        ⟨UInt32.ofNat (k + 1), lineOf (UInt32.ofNat (k + 1)) element, refOf element⟩ := by
  have hentries : (buildSnapshot unicode nodes hint maxElements maxChars).entries[k]? = _ :=
    getElem?_listElements hk
  rw [hentries, List.getElem?_take_of_lt (fits_iff.mpr hk).wanted, Nat.zero_add]
  rfl

lemma lines_eq : (buildSnapshot unicode nodes hint maxElements maxChars).entries.map Entry.line =
    numberedLines 0 ((candidates unicode nodes hint).take
      (buildSnapshot unicode nodes hint maxElements maxChars).included) := by
  have hlines : (buildSnapshot unicode nodes hint maxElements maxChars).entries.map Entry.line = _ :=
    map_line_listElements 0 ((candidates unicode nodes hint).take maxElements)
  rw [hlines, List.take_take]
  have hle : (buildSnapshot unicode nodes hint maxElements maxChars).included ≤ maxElements := by
    by_contra hlong
    exact absurd (fits_iff.mpr (not_le.mp hlong)).wanted (lt_irrefl _)
  exact congrArg (fun n => numberedLines 0 ((candidates unicode nodes hint).take n))
    (min_eq_left hle)

lemma output_of_included_eq_zero
    (h : (buildSnapshot unicode nodes hint maxElements maxChars).included = 0) :
    (buildSnapshot unicode nodes hint maxElements maxChars).output = emptyPage :=
  if_pos (List.length_eq_zero_iff.mp h)

lemma output_of_included_ne_zero
    (h : (buildSnapshot unicode nodes hint maxElements maxChars).included ≠ 0) :
    (buildSnapshot unicode nodes hint maxElements maxChars).output =
      ['\n'].intercalate (numberedLines 0 ((candidates unicode nodes hint).take
        (buildSnapshot unicode nodes hint maxElements maxChars).included)) := by
  rw [← lines_eq]
  exact if_neg (List.length_eq_zero_iff.not.mp h)

lemma newline_not_mem_role_of_candidate {element : ScoredElement}
    (h : element ∈ candidates unicode nodes hint) : '\n' ∉ element.role := by
  rw [candidates_eq, List.mem_map] at h
  obtain ⟨other, hother, rfl⟩ := h
  obtain ⟨node, -, hnode⟩ := List.mem_filterMap.mp ((arranged_perm _).mem_iff.mp hother)
  have hrole := newline_not_mem_role _ (role_mem_of_interactive hnode).1
  cases hint <;> exact hrole

lemma splitOn_output (h : (buildSnapshot unicode nodes hint maxElements maxChars).included ≠ 0)
    (hfree : ∀ (k : Nat) (element : ScoredElement),
      k < (buildSnapshot unicode nodes hint maxElements maxChars).included →
        (candidates unicode nodes hint)[k]? = some element →
          ∀ text ∈ shownTexts element, '\n' ∉ text) :
    (buildSnapshot unicode nodes hint maxElements maxChars).output.splitOn '\n' =
      numberedLines 0 ((candidates unicode nodes hint).take
        (buildSnapshot unicode nodes hint maxElements maxChars).included) := by
  have hle : (buildSnapshot unicode nodes hint maxElements maxChars).included ≤
    (candidates unicode nodes hint).length := included_le
  rw [output_of_included_ne_zero h]
  apply List.splitOn_intercalate
  · intro line hline
    obtain ⟨k, hk⟩ := List.getElem?_of_mem hline
    rw [getElem?_numberedLines] at hk
    obtain ⟨element, helement, rfl⟩ := Option.map_eq_some_iff.mp hk
    rw [List.getElem?_take] at helement
    split at helement
    · next hkn =>
      have hrole := newline_not_mem_role_of_candidate (List.mem_of_getElem? helement)
      rw [newline_not_mem_lineOf _ hrole]
      exact hfree k element hkn helement
    · cases helement
  · rw [Ne, numberedLines_eq_nil]
    exact List.ne_nil_of_length_pos (by rw [List.length_take]; omega)

/-- The list has a line for every number exactly when no line of it is broken. -/
lemma unbroken_iff
    (h : (buildSnapshot unicode nodes hint maxElements maxChars).included ≠ 0) :
    ((buildSnapshot unicode nodes hint maxElements maxChars).output.splitOn '\n').length =
        (buildSnapshot unicode nodes hint maxElements maxChars).included ↔
      ∀ (k : Nat) (element : ScoredElement),
        k < (buildSnapshot unicode nodes hint maxElements maxChars).included →
          (candidates unicode nodes hint)[k]? = some element →
            ∀ text ∈ shownTexts element, '\n' ∉ text := by
  have hle : (buildSnapshot unicode nodes hint maxElements maxChars).included ≤
    (candidates unicode nodes hint).length := included_le
  constructor
  · intro hcount k element hk helement
    have hlines : numberedLines 0 ((candidates unicode nodes hint).take
        (buildSnapshot unicode nodes hint maxElements maxChars).included) ≠ [] := by
      rw [Ne, numberedLines_eq_nil]
      exact List.ne_nil_of_length_pos (by rw [List.length_take]; omega)
    rw [length_splitOn, output_of_included_ne_zero h, count_intercalate hlines,
      length_numberedLines, List.length_take, min_eq_left hle, Nat.add_eq_right,
      List.sum_eq_zero_iff_forall_eq_nat] at hcount
    have hat : (numberedLines 0 ((candidates unicode nodes hint).take
        (buildSnapshot unicode nodes hint maxElements maxChars).included))[k]? =
          some (lineOf (UInt32.ofNat (k + 1)) element) := by
      rw [getElem?_numberedLines, List.getElem?_take_of_lt hk, helement, Nat.zero_add]
      rfl
    have hrole := newline_not_mem_role_of_candidate (List.mem_of_getElem? helement)
    rw [← newline_not_mem_lineOf (UInt32.ofNat (k + 1)) hrole, ← List.count_eq_zero]
    exact hcount _ (List.mem_map_of_mem (List.mem_of_getElem? hat))
  · intro hfree
    rw [splitOn_output h hfree, length_numberedLines, List.length_take, min_eq_left hle]

/-- While the numbers do not run out, the table has the entry of the list under each number. -/
lemma nodeMap_eq_some
    (hlen : (buildSnapshot unicode nodes hint maxElements maxChars).included < 2 ^ 32) {k : Nat}
    (hk : k < (buildSnapshot unicode nodes hint maxElements maxChars).included) :
    (buildSnapshot unicode nodes hint maxElements maxChars).nodeMap (UInt32.ofNat (k + 1)) =
      (candidates unicode nodes hint)[k]?.map refOf := by
  have hids : ∀ (j : Nat) (other : Entry),
      (buildSnapshot unicode nodes hint maxElements maxChars).entries[j]? = some other →
        other.id = UInt32.ofNat (j + 1) := by
    intro j other hother
    rw [getElem?_entries (List.getElem?_eq_some_iff.mp hother).1] at hother
    obtain ⟨element, -, rfl⟩ := Option.map_eq_some_iff.mp hother
    rfl
  obtain ⟨element, helement⟩ : ∃ element, (candidates unicode nodes hint)[k]? = some element :=
    ⟨_, List.getElem?_eq_getElem (hk.trans_le included_le)⟩
  have hentry := getElem?_entries hk
  rw [helement, Option.map_some] at hentry
  rw [helement, Option.map_some]
  exact nodeMapOf_eq_some hids hlen hentry

lemma nodeMap_isSome_iff
    (hlen : (buildSnapshot unicode nodes hint maxElements maxChars).included < 2 ^ 32)
    (id : UInt32) :
    ((buildSnapshot unicode nodes hint maxElements maxChars).nodeMap id).isSome = true ↔
      1 ≤ id.toNat ∧
        id.toNat ≤ (buildSnapshot unicode nodes hint maxElements maxChars).included := by
  constructor
  · intro h
    obtain ⟨element, helement⟩ := Option.isSome_iff_exists.mp h
    obtain ⟨entry, hentry, rfl, -⟩ := exists_entry_of_nodeMap helement
    obtain ⟨k, hk⟩ := List.getElem?_of_mem hentry
    have hkl : k < (buildSnapshot unicode nodes hint maxElements maxChars).included :=
      (List.getElem?_eq_some_iff.mp hk).1
    rw [getElem?_entries hkl] at hk
    obtain ⟨other, -, rfl⟩ := Option.map_eq_some_iff.mp hk
    rw [UInt32.toNat_ofNat', Nat.mod_eq_of_lt (by omega)]
    omega
  · rintro ⟨hpos, hle⟩
    obtain ⟨k, hk⟩ : ∃ k, id.toNat = k + 1 := ⟨id.toNat - 1, by omega⟩
    have hid : id = UInt32.ofNat (k + 1) := by rw [← hk, UInt32.ofNat_toNat]
    have hfound : (buildSnapshot unicode nodes hint maxElements maxChars).included ≤
      (candidates unicode nodes hint).length := included_le
    rw [hid, nodeMap_eq_some hlen (by omega), List.getElem?_eq_getElem (by omega)]
    rfl

/-- When the numbers run out, the number zero is used. -/
lemma included_lt_of_keys
    (h : ((buildSnapshot unicode nodes hint maxElements maxChars).nodeMap 0).isSome = true → False) :
    (buildSnapshot unicode nodes hint maxElements maxChars).included < 2 ^ 32 := by
  by_contra hlong
  have hk : 2 ^ 32 - 1 < (buildSnapshot unicode nodes hint maxElements maxChars).included := by
    omega
  obtain ⟨element, helement⟩ :
      ∃ element, (candidates unicode nodes hint)[2 ^ 32 - 1]? = some element :=
    ⟨_, List.getElem?_eq_getElem (hk.trans_le included_le)⟩
  have hentry := getElem?_entries hk
  rw [helement, Option.map_some] at hentry
  exact h (isSome_nodeMapOf (List.mem_of_getElem? hentry))

/-- A list of more than one line is as short as it should be. -/
lemma size_le
    (h : (buildSnapshot unicode nodes hint maxElements maxChars).included ≠ 0)
    (h' : (buildSnapshot unicode nodes hint maxElements maxChars).included ≠ 1) :
    utf8Len (buildSnapshot unicode nodes hint maxElements maxChars).output ≤ maxChars := by
  obtain ⟨n, hn⟩ := Nat.exists_eq_succ_of_ne_zero h
  have hfits : Fits unicode nodes hint maxElements maxChars n := fits_iff.mpr (by omega)
  rw [output_of_included_ne_zero h, hn]
  exact hfits.small.resolve_left (by omega)

/-- The first elements of the order are the best ones. -/
lemma best_of_displays (h : Displays unicode nodes hint maxElements maxChars)
    (hlen : (buildSnapshot unicode nodes hint maxElements maxChars).included < 2 ^ 32) :
    ∃ shown leftOut : List ScoredElement,
      (shown ++ leftOut).Perm (nodes.filterMap (interactive unicode)) ∧
        shown.length = (buildSnapshot unicode nodes hint maxElements maxChars).included ∧
        (∀ (k : Nat) (element : ScoredElement), shown[k]? = some element →
          (buildSnapshot unicode nodes hint maxElements maxChars).nodeMap (UInt32.ofNat (k + 1)) =
            some (refOf element)) ∧
        ∀ a ∈ shown, ∀ b ∈ leftOut, hintScore unicode hint b ≤ hintScore unicode hint a ∧
          (hint ≠ none → b.isFormField = true → a.isFormField = true) := by
  set elements := arranged unicode hint (nodes.filterMap (interactive unicode))
  have hle : (buildSnapshot unicode nodes hint maxElements maxChars).included ≤
    (candidates unicode nodes hint).length := included_le
  have hcandidates : candidates unicode nodes hint = elements.map (rescored unicode hint) :=
    candidates_eq
  have hlength : (candidates unicode nodes hint).length = elements.length := by
    rw [hcandidates, List.length_map]
  refine ⟨elements.take (buildSnapshot unicode nodes hint maxElements maxChars).included,
    elements.drop (buildSnapshot unicode nodes hint maxElements maxChars).included, ?_, ?_, ?_, ?_⟩
  · rw [List.take_append_drop]
    exact arranged_perm _
  · rw [List.length_take]
    omega
  · intro k element hk
    have hkn : k < (buildSnapshot unicode nodes hint maxElements maxChars).included := by
      have := (List.getElem?_eq_some_iff.mp hk).1
      rw [List.length_take] at this
      omega
    rw [List.getElem?_take_of_lt hkn] at hk
    rw [nodeMap_eq_some hlen hkn, hcandidates, List.getElem?_map, hk]
    simp
  · intro a ha b hb
    have hscore : hintScore unicode hint b ≤ hintScore unicode hint a := by
      have hpairwise : elements.Pairwise fun a b =>
        hintScore unicode hint b ≤ hintScore unicode hint a := pairwise_arranged _
      rw [← List.take_append_drop
        (buildSnapshot unicode nodes hint maxElements maxChars).included elements,
        List.pairwise_append] at hpairwise
      exact hpairwise.2.2 a ha b hb
    refine ⟨hscore, fun hhint hbform => ?_⟩
    by_contra haform
    -- the bonus of `b` would have put it in front of `a`
    obtain ⟨k, hk⟩ := List.getElem?_of_mem ha
    obtain ⟨l, hl⟩ := List.getElem?_of_mem hb
    have hkn : k < (buildSnapshot unicode nodes hint maxElements maxChars).included := by
      have := (List.getElem?_eq_some_iff.mp hk).1
      rw [List.length_take] at this
      omega
    rw [List.getElem?_take_of_lt hkn] at hk
    rw [List.getElem?_drop] at hl
    have hlt := h.formFields hhint k _ (rescored unicode hint a) (rescored unicode hint b)
      (fits_iff.mpr hkn) (fits_iff.not.mpr (Nat.not_lt.mpr (Nat.le_add_right _ l)))
      (by rw [hcandidates, List.getElem?_map, hk]; rfl)
      (by rw [hcandidates, List.getElem?_map, hl]; rfl)
      (by simpa using haform) (by simpa using hbform)
    rw [score_rescored hhint, score_rescored hhint] at hlt
    omega

/-- Elements of the same roles are form fields alike. -/
lemma countP_isFormField {elements others : List ScoredElement}
    (hroles : elements.map ScoredElement.role = others.map ScoredElement.role)
    (h : ∀ element ∈ elements ++ others,
      element.isFormField = formFieldRoles.contains element.role) :
    elements.countP ScoredElement.isFormField = others.countP ScoredElement.isFormField := by
  have hby : ∀ l : List ScoredElement, l ⊆ elements ++ others →
      l.countP ScoredElement.isFormField =
        (l.map ScoredElement.role).countP formFieldRoles.contains := by
    intro l hl
    rw [List.countP_map]
    apply List.countP_congr
    intro element helement
    rw [h element (hl helement), Function.comp_apply]
  rw [hby elements (List.subset_append_left _ _), hby others (List.subset_append_right _ _), hroles]

/-- When form fields come first in a list with the table of the snapshot, they do so in its own. -/
lemma formFields_of_faithful
    (h : Faithful unicode nodes hint maxChars
      (buildSnapshot unicode nodes hint maxElements maxChars))
    (hlen : (buildSnapshot unicode nodes hint maxElements maxChars).included < 2 ^ 32)
    (hhint : hint ≠ none) {k l : Nat} {a b : ScoredElement}
    (hk : Fits unicode nodes hint maxElements maxChars k)
    (hl : ¬ Fits unicode nodes hint maxElements maxChars l)
    (ha : (candidates unicode nodes hint)[k]? = some a)
    (hb : (candidates unicode nodes hint)[l]? = some b) (haform : a.isFormField = false) :
    b.isFormField = false := by
  obtain ⟨shown, leftOut, hperm, hlength, hmap, hbest⟩ := h.best
  have hle : (buildSnapshot unicode nodes hint maxElements maxChars).included ≤
    (candidates unicode nodes hint).length := included_le
  rw [fits_iff] at hk hl
  have hcandidates : candidates unicode nodes hint = (arranged unicode hint
    (nodes.filterMap (interactive unicode))).map (rescored unicode hint) := candidates_eq
  have hform : ∀ element, element ∈ candidates unicode nodes hint ∨ element ∈ shown →
      element.isFormField = formFieldRoles.contains element.role := by
    intro element helement
    obtain ⟨other, hother, hsame⟩ : ∃ other ∈ nodes.filterMap (interactive unicode),
        element.isFormField = other.isFormField ∧ element.role = other.role := by
      rcases helement with helement | helement
      · rw [hcandidates, List.mem_map] at helement
        obtain ⟨other, hother, rfl⟩ := helement
        refine ⟨other, (arranged_perm _).mem_iff.mp hother, isFormField_rescored other, ?_⟩
        exact congrArg ElementRef.role (refOf_rescored other)
      · exact ⟨element, hperm.mem_iff.mp (List.mem_append_left _ helement), rfl, rfl⟩
    obtain ⟨node, -, hnode⟩ := List.mem_filterMap.mp hother
    rw [hsame.1, hsame.2]
    exact (role_mem_of_interactive hnode).2
  generalize hn : (buildSnapshot unicode nodes hint maxElements maxChars).included = n at *
  -- both lists show elements of the same roles
  have hroles : shown.map ScoredElement.role =
      ((candidates unicode nodes hint).take n).map ScoredElement.role := by
    apply List.ext_getElem?
    intro j
    rw [List.getElem?_map, List.getElem?_map]
    by_cases hj : j < n
    · obtain ⟨element, helement⟩ : ∃ element, shown[j]? = some element :=
        ⟨_, List.getElem?_eq_getElem (by omega)⟩
      have href := hmap j element helement
      rw [nodeMap_eq_some (by omega) (by omega)] at href
      obtain ⟨other, hother, href⟩ := Option.map_eq_some_iff.mp href
      rw [helement, List.getElem?_take_of_lt hj, hother, Option.map_some, Option.map_some]
      exact congrArg some (congrArg ElementRef.role href).symm
    · rw [List.getElem?_eq_none (by omega), List.getElem?_eq_none]
      · rw [List.length_take]
        omega
  have hcount := countP_isFormField hroles fun element helement => by
    rcases List.mem_append.mp helement with helement | helement
    · exact hform element (Or.inr helement)
    · exact hform element (Or.inl (List.mem_of_mem_take helement))
  have harranged : (arranged unicode hint (nodes.filterMap (interactive unicode))).Perm
    (shown ++ leftOut) := (arranged_perm _).trans hperm.symm
  have hall : (candidates unicode nodes hint).countP ScoredElement.isFormField =
      (shown ++ leftOut).countP ScoredElement.isFormField := by
    rw [← harranged.countP_eq, hcandidates, List.countP_map]
    apply List.countP_congr
    intro element _
    rw [Function.comp_apply, isFormField_rescored]
  rw [← List.take_append_drop n (candidates unicode nodes hint), List.countP_append,
    List.countP_append, hcount, Nat.add_left_cancel_iff] at hall
  -- an element that is shown and no form field keeps form fields from being left out
  obtain ⟨a', ha', hsame⟩ : ∃ a' ∈ shown, a'.role = a.role := by
    have hmem : a.role ∈ shown.map ScoredElement.role := by
      rw [hroles]
      apply List.mem_map_of_mem
      exact List.mem_of_getElem? ((List.getElem?_take_of_lt hk).trans ha)
    exact List.mem_map.mp hmem
  have ha'form : a'.isFormField = false := by
    rw [hform a' (Or.inr ha'), hsame, ← hform a (Or.inl (List.mem_of_getElem? ha)), haform]
  have hnone : leftOut.countP ScoredElement.isFormField = 0 := by
    rw [List.countP_eq_zero]
    intro b' hb' hb'form
    rw [(hbest a' ha' b' hb').2 hhint hb'form] at ha'form
    cases ha'form
  rw [hnone, List.countP_eq_zero] at hall
  have hbmem : b ∈ (candidates unicode nodes hint).drop n := by
    apply List.mem_of_getElem? (i := l - n)
    rw [List.getElem?_drop, show n + (l - n) = l by omega, hb]
  exact Bool.eq_false_iff.mpr (hall b hbmem)

/-- A snapshot is listed as it should be exactly when no text that it shows has a line break, the
numbers do not run out, the message for an empty page fits, and the bonus of a form field is enough
to keep it. -/
theorem faithful_iff_displays (unicode : Unicode) (nodes : List AxNode)
    (hint : Option (List Char)) (maxElements maxChars : Nat) :
    Faithful unicode nodes hint maxChars
        (buildSnapshot unicode nodes hint maxElements maxChars) ↔
      Displays unicode nodes hint maxElements maxChars := by
  constructor
  · intro h
    have hlen := included_lt_of_keys fun hzero => by
      have := ((h.keys 0).mp hzero).1
      exact absurd this (by decide)
    refine ⟨?_, ?_, ?_, ?_⟩
    · intro k element hk
      have hne : (buildSnapshot unicode nodes hint maxElements maxChars).included ≠ 0 :=
        Nat.ne_of_gt (Nat.zero_lt_of_lt (fits_iff.mp hk))
      exact (unbroken_iff hne).mp (h.count hne) k element (fits_iff.mp hk)
    · intro k hk
      exact lt_of_le_of_lt (fits_iff.mp hk) hlen
    · intro hnone
      have hzero : (buildSnapshot unicode nodes hint maxElements maxChars).included = 0 :=
        Nat.eq_zero_of_not_pos (fits_iff.not.mp hnone)
      have hsize := h.size (by omega)
      rw [h.message hzero] at hsize
      exact hsize
    · intro hhint k l a b hk hl ha hb haform hbform
      rw [formFields_of_faithful h hlen hhint hk hl ha hb haform] at hbform
      cases hbform
  · intro h
    have hlen : (buildSnapshot unicode nodes hint maxElements maxChars).included < 2 ^ 32 := by
      by_contra hlong
      have := h.numbered (2 ^ 32 - 1) (fits_iff.mpr (by omega))
      omega
    refine ⟨nodeMap_isSome_iff hlen, ?_, ?_, output_of_included_eq_zero, ?_,
      best_of_displays h hlen⟩
    · intro hne
      exact (unbroken_iff hne).mpr fun k element hk => h.unbroken k element (fits_iff.mpr hk)
    · intro id element helement
      obtain ⟨hpos, hle⟩ := (nodeMap_isSome_iff hlen id).mp (Option.isSome_iff_exists.mpr
        ⟨element, helement⟩)
      obtain ⟨k, hk⟩ : ∃ k, id.toNat = k + 1 := ⟨id.toNat - 1, by omega⟩
      have hid : id = UInt32.ofNat (k + 1) := by rw [← hk, UInt32.ofNat_toNat]
      rw [hid, nodeMap_eq_some hlen (by omega)] at helement
      obtain ⟨candidate, hcandidate, rfl⟩ := Option.map_eq_some_iff.mp helement
      refine ⟨lineOf id candidate, ?_, List.prefix_append _ _⟩
      rw [splitOn_output (by omega) fun j other hj => h.unbroken j other (fits_iff.mpr hj),
        getElem?_numberedLines, List.getElem?_take_of_lt (by omega), hk, Nat.add_sub_cancel,
        hcandidate, hid, Nat.zero_add]
      rfl
    · intro hne
      rcases Nat.eq_zero_or_pos (buildSnapshot unicode nodes hint maxElements maxChars).included
        with hzero | hpos
      · rw [output_of_included_eq_zero hzero]
        exact h.message (fits_iff.not.mpr (by omega))
      · exact size_le (by omega) hne

/-- A link whose name is `Home`, a line break and the line of another element. -/
def forgingPage : List AxNode :=
  [⟨false, some (some (.str "link".toList)),
    some (some (.str "Home\n[2] button \"Pay\"".toList)), none, some 1⟩]

def asciiUnicode : Unicode := ⟨List.map Char.toLower, Char.isAlphanum⟩

theorem not_faithful_forgingPage : ¬ ∀ (nodes : List AxNode) (hint : Option (List Char))
    (maxElements maxChars : Nat), Faithful asciiUnicode nodes hint maxChars
      (buildSnapshot asciiUnicode nodes hint maxElements maxChars) := by
  intro h
  have hincluded : (buildSnapshot asciiUnicode forgingPage none 100 8000).included = 1 := by
    decide +kernel
  have hlines : ((buildSnapshot asciiUnicode forgingPage none 100 8000).output.splitOn
      '\n').length = 2 := by
    decide +kernel
  have hcount := (h forgingPage none 100 8000).count (by omega)
  omega

end Outcome

end RustyClaw.Browser
