import Mathlib.Data.List.Basic

/-!
# Paths

A path with `/` as its separator, as the list of its components: an optional root, names, and
the steps `.` and `..`.  Two paths are equal when they have the same components, so doubled and
trailing separators and a `.` that is not the first part make no difference.

* `UnixPath.parse` reads a string, `UnixPath.join` puts one path behind another (an absolute one
  replaces it), `UnixPath.startsWith` compares whole components;
* `UnixPath.locate` follows a path from a directory when there are no links.  `locate_join` says
  that a joined path leads where its second part leads from where the first one led.
-/

inductive PathComponent where
  | rootDir | curDir | parentDir
  | normal (name : List Char)
  deriving DecidableEq, Repr

/-- The components of a path. -/
abbrev UnixPath := List PathComponent

namespace UnixPath

/-! ## Reading and joining -/

def parsePart (part : List Char) : Option PathComponent :=
  if part = [] ∨ part = ['.'] then none
  else if part = ['.', '.'] then some .parentDir
  else some (.normal part)

def parse (s : List Char) : UnixPath :=
  let parts := s.splitOn '/'
  let components := parts.filterMap parsePart
  if s.head? = some '/' then .rootDir :: components
  else if parts.head? = some ['.'] then .curDir :: components
  else components

/-- The path has a root, which can only be its first component. -/
def isAbsolute (path : UnixPath) : Bool := path.contains .rootDir

def join (base path : UnixPath) : UnixPath :=
  if path.isAbsolute ∨ base = [] then path else base ++ path.filter (· ≠ .curDir)

/-- `path` is `base` or lies below it, component by component. -/
def startsWith (path base : UnixPath) : Bool := base.isPrefixOf path

/-- A name: what stands between separators and is no step. -/
def IsName (s : List Char) : Prop := s ≠ [] ∧ s ≠ ['.'] ∧ s ≠ ['.', '.'] ∧ '/' ∉ s

lemma parse_of_isName {s : List Char} (h : IsName s) : parse s = [.normal s] := by
  obtain ⟨hnil, hdot, hdots, hslash⟩ := h
  have hparts : s.splitOn '/' = [s] := List.splitOn_eq_singleton hslash
  have hhead : s.head? ≠ some '/' := fun hhead => hslash (List.mem_of_mem_head? hhead)
  simp [parse, hparts, hhead, parsePart, hnil, hdot, hdots]

lemma join_of_isName {base : UnixPath} {s : List Char} (hbase : base ≠ []) (h : IsName s) :
    base.join (parse s) = base ++ [.normal s] := by
  simp [join, parse_of_isName h, isAbsolute, hbase]

@[simp] lemma startsWith_iff {path base : UnixPath} :
    path.startsWith base = true ↔ base <+: path := List.isPrefixOf_iff_prefix

/-! ## Where a path leads -/

/-- The directory a step leads to; there is nothing above the root. -/
def step (place : List (List Char)) : PathComponent → List (List Char)
  | .rootDir => []
  | .curDir => place
  | .parentDir => place.dropLast
  | .normal name => place ++ [name]

/-- Where a path leads from a directory, which is given by the names below the root. -/
def locate (place : List (List Char)) (path : UnixPath) : List (List Char) := path.foldl step place

variable {place : List (List Char)} {path path' : UnixPath}

lemma locate_append : locate place (path ++ path') = locate (locate place path) path' :=
  List.foldl_append

lemma locate_filter_curDir : locate place (path.filter (· ≠ .curDir)) = locate place path := by
  induction path generalizing place with
  | nil => rfl
  | cons component path ih =>
    cases component with
    | curDir => exact ih
    | rootDir | parentDir | normal => exact ih

/-- An absolute path leads to the same place from everywhere. -/
lemma locate_of_isAbsolute (h : path.isAbsolute = true) (place' : List (List Char)) :
    locate place path = locate place' path := by
  induction path generalizing place place' with
  | nil => cases h
  | cons component path ih =>
    by_cases hroot : component = .rootDir
    · subst hroot
      rfl
    · refine ih ?_ _
      simpa [isAbsolute, Ne.symm hroot] using h

theorem locate_join : locate place (path.join path') = locate (locate place path) path' := by
  unfold join
  split
  · next h =>
    rcases h with h | rfl
    · exact locate_of_isAbsolute h _
    · rfl
  · rw [locate_append, locate_filter_curDir]

end UnixPath
