import Mathlib.Data.Finmap
import RustyClaw.Library.JsonPretty
import RustyClaw.Library.JsonValue

/-!
# Finite tables and their texts

A hash map is a finite map (`Finmap`): its entries have no order, and two maps with the same
entries are equal.  Changing all values (`mapValues`) and keeping some entries (`filter`) are
determined by what they do to a lookup.

Whoever iterates over a table meets its entries in some order; `order.Lists t` says that `order`
is one.  A table is written as an object with its fields in such an order and filled again field by
field (`readTable`); `readTable_tableJson` is the round trip, whatever the order.
-/

/-- A finite map with values of one type. -/
abbrev Table (κ ν : Type) := Finmap fun _ : κ => ν

namespace Table

variable {κ ν : Type}

/-- Entries in the order of an iteration. -/
abbrev Order (κ ν : Type) := List (κ × ν)

/-- The entries without their order. -/
def Order.entries (order : Order κ ν) : Multiset (Sigma fun _ : κ => ν) :=
  ((order.map fun entry => ⟨entry.1, entry.2⟩ : List (Sigma fun _ : κ => ν)) :
    Multiset (Sigma fun _ : κ => ν))

/-- The order is one in which the entries of the table can be met. -/
def Order.Lists (order : Order κ ν) (t : Table κ ν) : Prop := Order.entries order = t.entries

instance [DecidableEq κ] [DecidableEq ν] (order : Order κ ν) (t : Table κ ν) :
    Decidable (order.Lists t) :=
  inferInstanceAs (Decidable (Order.entries order = t.entries))

lemma exists_lists (t : Table κ ν) : ∃ order : Order κ ν, order.Lists t := by
  obtain ⟨entries, hentries⟩ := Quot.exists_rep t.entries
  refine ⟨entries.map fun entry => (entry.1, entry.2), ?_⟩
  rw [Order.Lists, Order.entries, List.map_map, ← hentries]
  exact congrArg _ (List.map_id entries)

/-- An order in which the entries of a table are met. -/
abbrev Iteration (t : Table κ ν) := {order : Order κ ν // order.Lists t}

/-! ## Operations -/

section Operations

lemma nodupKeys_iff {entries : Multiset (Sigma fun _ : κ => ν)} :
    entries.NodupKeys ↔ (entries.map Sigma.fst).Nodup := by
  induction entries using Quot.inductionOn with
  | h entries => rfl

lemma nodupKeys_mapValues (f : κ → ν → ν) (t : Table κ ν) :
    (t.entries.map fun entry => (⟨entry.1, f entry.1 entry.2⟩ : Sigma fun _ : κ => ν)).NodupKeys := by
  rw [nodupKeys_iff, Multiset.map_map]
  exact nodupKeys_iff.mp t.nodupKeys

/-- Another value for every key. -/
def mapValues (f : κ → ν → ν) (t : Table κ ν) : Table κ ν :=
  ⟨t.entries.map fun entry => ⟨entry.1, f entry.1 entry.2⟩, nodupKeys_mapValues f t⟩

lemma nodupKeys_filter (p : κ → ν → Bool) (t : Table κ ν) :
    (t.entries.filter fun entry => p entry.1 entry.2).NodupKeys := by
  rw [nodupKeys_iff]
  exact Multiset.nodup_of_le (Multiset.map_le_map (Multiset.filter_le _ _))
    (nodupKeys_iff.mp t.nodupKeys)

/-- The entries that meet a test. -/
def filter (p : κ → ν → Bool) (t : Table κ ν) : Table κ ν :=
  ⟨t.entries.filter fun entry => p entry.1 entry.2, nodupKeys_filter p t⟩

/-- An iteration meets every key once. -/
lemma Order.Lists.nodup {order : Order κ ν} {t : Table κ ν} (h : order.Lists t) :
    (order.map Prod.fst).Nodup := by
  have hkeys := nodupKeys_iff.mp t.nodupKeys
  rw [← h, Order.entries, Multiset.map_coe, List.map_map, Multiset.coe_nodup] at hkeys
  exact hkeys

variable [DecidableEq κ]

lemma lookup_eq_some_iff {t : Table κ ν} {key : κ} {value : ν} :
    t.lookup key = some value ↔ ⟨key, value⟩ ∈ t.entries := by
  rw [Finmap.lookup_eq_some_iff]

/-- An iteration meets every entry. -/
lemma Order.Lists.mem_iff {order : Order κ ν} {t : Table κ ν} (h : order.Lists t) {key : κ}
    {value : ν} : (key, value) ∈ order ↔ t.lookup key = some value := by
  rw [lookup_eq_some_iff, ← h, Order.entries, Multiset.mem_coe, List.mem_map]
  constructor
  · exact fun hmem => ⟨_, hmem, rfl⟩
  · rintro ⟨entry, hmem, heq⟩
    cases heq
    exact hmem

variable (t : Table κ ν) (key : κ)

@[simp] lemma lookup_mapValues (f : κ → ν → ν) :
    (mapValues f t).lookup key = (t.lookup key).map (f key) := by
  refine Option.ext fun value => ?_
  rw [lookup_eq_some_iff, Option.map_eq_some_iff]
  constructor
  · intro hmem
    obtain ⟨entry, hentry, heq⟩ := Multiset.mem_map.mp hmem
    cases heq
    exact ⟨entry.2, lookup_eq_some_iff.mpr hentry, rfl⟩
  · rintro ⟨value, hvalue, rfl⟩
    exact Multiset.mem_map.mpr ⟨⟨key, value⟩, lookup_eq_some_iff.mp hvalue, rfl⟩

@[simp] lemma lookup_filter (p : κ → ν → Bool) :
    (filter p t).lookup key = (t.lookup key).filter (p key) := by
  refine Option.ext fun value => ?_
  rw [lookup_eq_some_iff, Option.filter_eq_some_iff, lookup_eq_some_iff]
  exact Multiset.mem_filter

/-- Filling a table with entries for keys it does not have. -/
lemma entries_foldl_insert (order : Order κ ν)
    (h : (t.entries.map Sigma.fst + (order.map Prod.fst : Multiset κ)).Nodup) :
    (order.foldl (fun (t : Table κ ν) entry => t.insert entry.1 entry.2) t).entries =
      t.entries + order.entries := by
  induction order generalizing t with
  | nil => exact (add_zero t.entries).symm
  | cons entry order ih =>
    have hcons : t.entries.map Sigma.fst + (((entry :: order).map Prod.fst : List κ) : Multiset κ) =
        entry.1 ::ₘ (t.entries.map Sigma.fst + ((order.map Prod.fst : List κ) : Multiset κ)) := by
      rw [List.map_cons, ← Multiset.cons_coe, Multiset.add_cons]
    rw [hcons, Multiset.nodup_cons] at h
    have hfresh : entry.1 ∉ t := by
      intro hmem
      obtain ⟨value, hvalue⟩ := Finmap.mem_iff.mp hmem
      refine h.1 (Multiset.mem_add.mpr (.inl ?_))
      exact Multiset.mem_map_of_mem Sigma.fst (lookup_eq_some_iff.mp hvalue)
    have hinsert : (t.insert entry.1 entry.2).entries = ⟨entry.1, entry.2⟩ ::ₘ t.entries :=
      Finmap.entries_insert_of_notMem hfresh
    rw [List.foldl_cons, ih _ ?_, hinsert]
    · rw [Order.entries, Order.entries, List.map_cons, ← Multiset.cons_coe, Multiset.add_cons,
        Multiset.cons_add]
    · rw [hinsert, Multiset.map_cons, Multiset.cons_add, Multiset.nodup_cons]
      exact h

/-- A table filled in the order of an iteration over it is the same table. -/
lemma foldl_insert_of_lists {order : Order κ ν} (h : order.Lists t) :
    order.foldl (fun (t : Table κ ν) entry => t.insert entry.1 entry.2) ∅ = t := by
  have hkeys : ((order.map Prod.fst : List κ) : Multiset κ) = t.entries.map Sigma.fst := by
    rw [← h, Order.entries, Multiset.map_coe, List.map_map]
    rfl
  refine Finmap.ext ?_
  rw [entries_foldl_insert ∅ order ?_]
  · exact (zero_add _).trans h
  · rw [hkeys]
    exact (congrArg Multiset.Nodup (zero_add _)).mpr (nodupKeys_iff.mp t.nodupKeys)

end Operations

/-! ## The text of a table -/

section Text

open Json

variable {χ : Type} [Glyph χ]

/-- A table as an object, with its fields in the order of an iteration. -/
def tableJson (write : ν → Json χ) (order : Order (List χ) ν) : Json χ :=
  .obj (order.map fun entry => (entry.1, write entry.2))

/-- A table is filled in the order of the text: a later field replaces an earlier one. -/
def readTable [DecidableEq χ] (read : Json χ → Option ν) : Json χ → Option (Table (List χ) ν)
  | .obj fields =>
    fields.foldlM (fun t field => (read field.2).map (Finmap.insert field.1 · t)) ∅
  | _ => none

variable {write : ν → Json χ} {read : Json χ → Option ν}

theorem readTable_tableJson [DecidableEq χ] (hread : ∀ value, read (write value) = some value)
    {t : Table (List χ) ν} {order : Order (List χ) ν} (h : order.Lists t) :
    readTable read (tableJson write order) = some t := by
  have hfold : ∀ (order : Order (List χ) ν) (t : Table (List χ) ν),
      (order.map fun entry => (entry.1, write entry.2)).foldlM
          (fun t field => (read field.2).map (Finmap.insert field.1 · t)) t =
        some (order.foldl (fun (t : Table (List χ) ν) entry => t.insert entry.1 entry.2) t) := by
    intro order
    induction order with
    | nil => exact fun _ => rfl
    | cons entry order ih =>
      intro t
      rw [List.map_cons, List.foldlM_cons, hread]
      exact ih _
  rw [tableJson, readTable, hfold, foldl_insert_of_lists t h]

/-- A table is one level deeper than its deepest value. -/
lemma depth_tableJson {bound : Nat} (hwrite : ∀ value, depth (write value) ≤ bound)
    (order : Order (List χ) ν) : depth (tableJson write order) ≤ bound + 1 := by
  have hfields : depthFields (order.map fun entry => (entry.1, write entry.2)) ≤ bound := by
    induction order with
    | nil => exact Nat.zero_le _
    | cons entry order ih =>
      rw [List.map_cons, depthFields]
      exact Nat.max_le.mpr ⟨hwrite entry.2, ih⟩
  rw [tableJson, depth]
  omega

end Text

end Table
