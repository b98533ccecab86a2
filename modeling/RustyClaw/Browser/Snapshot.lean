import Mathlib.Logic.Function.Basic
import RustyClaw.Library.JsonData

/-!
# Snapshots of a page

`build_snapshot` takes the interactive elements out of an accessibility tree, puts those that match
a hint first, and lists as many as there is room for, with numbers from one on.  The table from
these numbers to the elements is what a later action looks its target up in.

`exists_entry_of_nodeMap` ties the two: what is in the table under a number stands in the list with
this number, and comes from the tree.  The Unicode tables of the standard library are a parameter.
-/

namespace RustyClaw.Browser

open Glyph
open Json hiding str

/-! ## The data -/

/-- The `value` of an `AxValue`, where there is one. -/
abbrev AxValue := Option (Json Char)

structure AxNode where
  ignored : Bool
  role : Option AxValue
  name : Option AxValue
  value : Option AxValue
  backendDomNodeId : Option Int

structure ElementRef where
  backendNodeId : Int
  role : List Char
  name : List Char

/-- A line of the list, with the number it begins with and what the number stands for. -/
structure Entry where
  id : UInt32
  line : List Char
  element : ElementRef

structure SnapshotResult where
  entries : List Entry
  output : List Char
  nodeMap : UInt32 → Option ElementRef
  totalFound : Nat
  included : Nat

structure Unicode where
  toLowercase : List Char → List Char
  isAlphanumeric : Char → Bool

def interactiveRoles : List (List Char) :=
  ["button", "link", "menuitem", "menuitemcheckbox", "menuitemradio", "tab", "textbox", "searchbox",
    "combobox", "spinbutton", "checkbox", "radio", "switch", "slider", "option", "treeitem",
    "listbox", "select"].map String.toList

def formFieldRoles : List (List Char) :=
  ["textbox", "searchbox", "combobox", "spinbutton", "checkbox", "radio", "switch", "slider",
    "listbox", "select"].map String.toList

structure ScoredElement where
  role : List Char
  name : List Char
  value : List Char
  backendNodeId : Int
  score : Nat
  isFormField : Bool

/-! ## Building a snapshot -/

def axValueStr (value : Option AxValue) : List Char := (value.join.bind asStr).getD []

/-- The state of the loop of `tokenize`: the tokens so far, and the current one. -/
def takeChar (unicode : Unicode) (state : List (List Char) × List Char) (c : Char) :
    List (List Char) × List Char :=
  if unicode.isAlphanumeric c then (state.1, state.2 ++ [c])
  else if state.2 = [] then state
  else (state.1 ++ [state.2], [])

def tokenize (unicode : Unicode) (text : List Char) : List (List Char) :=
  let (tokens, current) := (unicode.toLowercase text).foldl (takeChar unicode) ([], [])
  if current = [] then tokens else tokens ++ [current]

def truncateName (s : List Char) (max : Nat) : List Char :=
  if s.length ≤ max then s else s.take (max - 1) ++ ['…']

/-- The element of a node that can be interacted with. -/
def interactive (unicode : Unicode) (node : AxNode) : Option ScoredElement :=
  let role := axValueStr node.role
  let roleLower := unicode.toLowercase role
  if node.ignored || role == [] || !interactiveRoles.contains roleLower then none
  else
    node.backendDomNodeId.map fun backendNodeId =>
      { role := roleLower
        name := axValueStr node.name
        value := axValueStr node.value
        backendNodeId := backendNodeId
        score := 0
        isFormField := formFieldRoles.contains roleLower }

def scored (unicode : Unicode) (hintTokens : List (List Char)) (element : ScoredElement) :
    ScoredElement :=
  let text := unicode.toLowercase
    (element.role ++ str " " ++ element.name ++ str " " ++ element.value)
  let matching := ((tokenize unicode text).filter fun token => hintTokens.contains token).length
  { element with score := if element.isFormField then matching + 100 else matching }

/-- The elements in the order in which they are listed. -/
def ranked (unicode : Unicode) (hint : Option (List Char)) (elements : List ScoredElement) :
    List ScoredElement :=
  match hint with
  | none => elements
  | some hint =>
    (elements.map (scored unicode (tokenize unicode hint))).mergeSort fun a b =>
      decide (b.score ≤ a.score)

/-- `[id] role`, the beginning of a line. -/
def lineHead (id : UInt32) (role : List Char) : List Char :=
  str "[" ++ Nat.toDigits 10 id.toNat ++ str "] " ++ role

def lineOf (id : UInt32) (element : ScoredElement) : List Char :=
  lineHead id element.role ++
    if element.value = [] then
      if element.name = [] then [] else str " \"" ++ truncateName element.name 80 ++ str "\""
    else
      str " \"" ++ truncateName element.name 60 ++ str "\" = \"" ++ truncateName element.value 40 ++
        str "\""

/-- The loop that lists the elements; `i` have been listed, with `charCount` characters. -/
def listElements (maxChars : Nat) : Nat → Nat → List ScoredElement → List Entry
  | _, _, [] => []
  | i, charCount, element :: elements =>
    let id := UInt32.ofNat (i + 1)
    let line := lineOf id element
    if decide (maxChars < charCount + utf8Len line) && decide (0 < i) then []
    else
      ⟨id, line, ⟨element.backendNodeId, element.role, element.name⟩⟩ ::
        listElements maxChars (i + 1) (charCount + utf8Len line + 1) elements

def nodeMapOf (entries : List Entry) : UInt32 → Option ElementRef :=
  entries.foldl (fun nodeMap entry => Function.update nodeMap entry.id (some entry.element))
    fun _ => none

def buildSnapshot (unicode : Unicode) (nodes : List AxNode) (hint : Option (List Char))
    (maxElements maxChars : Nat) : SnapshotResult :=
  let elements := nodes.filterMap (interactive unicode)
  let entries := listElements maxChars 0 0 ((ranked unicode hint elements).take maxElements)
  { entries := entries
    output :=
      if entries = [] then str "No interactive elements found on this page."
      else ['\n'].intercalate (entries.map Entry.line)
    nodeMap := nodeMapOf entries
    totalFound := elements.length
    included := entries.length }

/-! ## The list and the table -/

section Listed

variable {unicode : Unicode} {nodes : List AxNode} {hint : Option (List Char)}
  {maxElements maxChars : Nat}

/-- What is in the table stands in the list. -/
lemma exists_entry_of_nodeMapOf {entries : List Entry} {id : UInt32} {element : ElementRef}
    (h : nodeMapOf entries id = some element) :
    ∃ entry ∈ entries, entry.id = id ∧ entry.element = element := by
  induction entries using List.reverseRecOn with
  | nil => cases h
  | append_singleton entries entry ih =>
    rw [nodeMapOf, List.foldl_append, List.foldl_cons, List.foldl_nil, Function.update_apply] at h
    split at h
    · next hid =>
      exact ⟨entry, by simp, hid.symm, Option.some_inj.mp h⟩
    · obtain ⟨other, hmem, hother⟩ := ih h
      exact ⟨other, List.mem_append_left _ hmem, hother⟩

/-- Every line begins with the number and the role of its element. -/
lemma lineHead_prefix {i charCount : Nat} {elements : List ScoredElement} {entry : Entry}
    (h : entry ∈ listElements maxChars i charCount elements) :
    lineHead entry.id entry.element.role <+: entry.line := by
  induction elements generalizing i charCount with
  | nil => cases h
  | cons element elements ih =>
    rw [listElements] at h
    split at h
    · cases h
    · rcases List.mem_cons.mp h with rfl | h
      · exact List.prefix_append _ _
      · exact ih h

lemma exists_element_of_mem {i charCount : Nat} {elements : List ScoredElement} {entry : Entry}
    (h : entry ∈ listElements maxChars i charCount elements) :
    ∃ element ∈ elements, entry.element.backendNodeId = element.backendNodeId := by
  induction elements generalizing i charCount with
  | nil => cases h
  | cons element elements ih =>
    rw [listElements] at h
    split at h
    · cases h
    · rcases List.mem_cons.mp h with rfl | h
      · exact ⟨element, List.mem_cons_self, rfl⟩
      · obtain ⟨other, hmem, hother⟩ := ih h
        exact ⟨other, List.mem_cons_of_mem _ hmem, hother⟩

/-- Ranking neither adds nor changes elements. -/
lemma exists_of_mem_ranked {elements : List ScoredElement} {element : ScoredElement}
    (h : element ∈ ranked unicode hint elements) :
    ∃ other ∈ elements, element.backendNodeId = other.backendNodeId := by
  unfold ranked at h
  split at h
  · exact ⟨element, h, rfl⟩
  · rw [List.mem_mergeSort, List.mem_map] at h
    obtain ⟨other, hmem, rfl⟩ := h
    exact ⟨other, hmem, rfl⟩

lemma exists_node_of_mem {entry : Entry}
    (h : entry ∈ (buildSnapshot unicode nodes hint maxElements maxChars).entries) :
    ∃ node ∈ nodes, node.backendDomNodeId = some entry.element.backendNodeId := by
  obtain ⟨element, helement, hentry⟩ := exists_element_of_mem h
  obtain ⟨other, hother, hid⟩ := exists_of_mem_ranked (List.mem_of_mem_take helement)
  obtain ⟨node, hnode, hinteractive⟩ := List.mem_filterMap.mp hother
  refine ⟨node, hnode, ?_⟩
  rw [hentry, hid]
  unfold interactive at hinteractive
  dsimp only at hinteractive
  split at hinteractive
  · cases hinteractive
  · obtain ⟨backendNodeId, hbackend, rfl⟩ := Option.map_eq_some_iff.mp hinteractive
    exact hbackend

/-- What is in the table of a snapshot under a number is listed with this number, and is an element
of the tree. -/
theorem exists_entry_of_nodeMap {id : UInt32} {element : ElementRef}
    (h : (buildSnapshot unicode nodes hint maxElements maxChars).nodeMap id = some element) :
    ∃ entry ∈ (buildSnapshot unicode nodes hint maxElements maxChars).entries,
      entry.id = id ∧ entry.element = element ∧ lineHead id element.role <+: entry.line ∧
        ∃ node ∈ nodes, node.backendDomNodeId = some element.backendNodeId := by
  obtain ⟨entry, hentry, rfl, rfl⟩ := exists_entry_of_nodeMapOf h
  exact ⟨entry, hentry, rfl, rfl, lineHead_prefix hentry, exists_node_of_mem hentry⟩

end Listed

end RustyClaw.Browser
