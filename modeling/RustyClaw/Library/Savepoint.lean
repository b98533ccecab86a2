import Mathlib.Data.List.Sublists
import Mathlib.Logic.Function.Basic

/-!
# Values with a saved copy

A program takes items of many keys.  For each key it computes a value item by item, keeps the value
in memory, and saves it whenever it changes.  When it is started again it goes on from what it can
load.  A write may not happen at all, or be cut short, and then nothing can be loaded.

A *ledger* has the items that the value in memory and the saved value come from, so all that has
been lost is what is missing in it.  `agrees_run` says that the program keeps to the ledgers:
every key has the value of its own items, whatever comes between them.  `kept_eq_items_iff` says
when nothing is lost.
-/

namespace Savepoint

/-- How the items of a key make a value, and how a value is saved. -/
structure Folding (κ ι σ τ : Type*) where
  key : ι → κ
  /-- the value in front of the first item -/
  first : ι → σ
  next : σ → ι → σ
  save : σ → τ
  load : τ → Option σ
  /-- what a write leaves that ends after a number of units -/
  cut : τ → ℕ → τ
  /-- whether that is all of it -/
  whole : τ → ℕ → Bool
  load_cut : ∀ v n, load (cut (save v) n) = if whole (save v) n then some v else none

inductive Write where
  | unopened
  | written (n : ℕ)
  deriving DecidableEq, Repr

inductive Label (ι : Type*) where
  | item (i : ι) (write : Write)
  | restart

structure Store (κ σ τ : Type*) where
  cache : κ → Option σ
  files : κ → Option τ

def Store.empty {κ σ τ : Type*} : Store κ σ τ := ⟨fun _ => none, fun _ => none⟩

/-- The items that the value in memory and the saved value of a key come from. -/
structure Ledger (ι : Type*) where
  kept : List ι := []
  saved : List ι := []

namespace Folding

variable {κ ι σ τ : Type*} (F : Folding κ ι σ τ)

/-! ## The program -/

def loaded (s : Store κ σ τ) (k : κ) : Option σ := (s.files k).bind F.load

/-- The value that the next item is added to. -/
def value (s : Store κ σ τ) (k : κ) : Option σ := (s.cache k).or (F.loaded s k)

/-- The value with one more item. -/
def add (old : Option σ) (i : ι) : σ := F.next (old.getD (F.first i)) i

def writeTo (file : Option τ) (v : σ) : Write → Option τ
  | .unopened => file
  | .written n => some (F.cut (F.save v) n)

def step [DecidableEq κ] (s : Store κ σ τ) : Label ι → Store κ σ τ
  | .item i write =>
    let v := F.add (F.value s (F.key i)) i
    { cache := Function.update s.cache (F.key i) (some v)
      files := Function.update s.files (F.key i) (F.writeTo (s.files (F.key i)) v write) }
  | .restart => { s with cache := fun _ => none }

def run [DecidableEq κ] (labels : List (Label ι)) : Store κ σ τ := labels.foldl F.step .empty

/-! ## The ledgers -/

/-- The value of some items. -/
def fold (items : List ι) : Option σ := items.foldl (fun v i => some (F.add v i)) none

/-- Whether a write of the value of some items is complete. -/
def wholly (items : List ι) (n : ℕ) : Bool := (F.fold items).any fun v => F.whole (F.save v) n

def entry (l : Ledger ι) (i : ι) (write : Write) : Ledger ι where
  kept := l.kept ++ [i]
  saved := match write with
    | .unopened => l.saved
    | .written n => if F.wholly (l.kept ++ [i]) n then l.kept ++ [i] else []

def record [DecidableEq κ] (k : κ) (l : Ledger ι) : Label ι → Ledger ι
  | .item i write => if F.key i = k then F.entry l i write else l
  | .restart => { l with kept := l.saved }

def ledger [DecidableEq κ] (k : κ) (labels : List (Label ι)) : Ledger ι := labels.foldl (F.record k) {}

/-- The items of a key. -/
def items [DecidableEq κ] (k : κ) : List (Label ι) → List ι
  | [] => []
  | .item i _ :: labels => if F.key i = k then i :: items k labels else items k labels
  | .restart :: labels => items k labels

/-- A value and its saved copy are those of the items in the ledger. -/
structure Agrees (s : Store κ σ τ) (k : κ) (l : Ledger ι) : Prop where
  value : F.value s k = F.fold l.kept
  loaded : F.loaded s k = F.fold l.saved

variable {F} {s : Store κ σ τ} {k : κ} {l : Ledger ι} {labels : List (Label ι)}

lemma fold_concat (items : List ι) (i : ι) :
    F.fold (items ++ [i]) = some (F.add (F.fold items) i) := by
  rw [fold, List.foldl_append]
  rfl

lemma fold_eq_none_iff {items : List ι} : F.fold items = none ↔ items = [] := by
  rcases List.eq_nil_or_concat items with rfl | ⟨front, i, rfl⟩
  · exact iff_of_true rfl rfl
  · rw [List.concat_eq_append, fold_concat]
    simp

lemma wholly_concat (items : List ι) (i : ι) (n : ℕ) :
    F.wholly (items ++ [i]) n = F.whole (F.save (F.add (F.fold items) i)) n := by
  rw [wholly, fold_concat, Option.any_some]

/-! ## One step -/

@[simp] lemma record_item [DecidableEq κ] (i : ι) (write : Write) :
    F.record k l (.item i write) = if F.key i = k then F.entry l i write else l := rfl

@[simp] lemma record_restart [DecidableEq κ] :
    F.record k l .restart = { l with kept := l.saved } := rfl

@[simp] lemma kept_entry (i : ι) (write : Write) : (F.entry l i write).kept = l.kept ++ [i] := rfl

@[simp] lemma saved_entry_unopened (i : ι) : (F.entry l i .unopened).saved = l.saved := rfl

@[simp] lemma saved_entry_written (i : ι) (n : ℕ) : (F.entry l i (.written n)).saved =
    if F.wholly (l.kept ++ [i]) n then l.kept ++ [i] else [] := rfl

lemma agrees_empty : F.Agrees (.empty : Store κ σ τ) k {} := ⟨rfl, rfl⟩

/-- What can be loaded when a value has been written. -/
lemma load_writeTo (file : Option τ) (v : σ) (write : Write) :
    (F.writeTo file v write).bind F.load = match write with
      | .unopened => file.bind F.load
      | .written n => if F.whole (F.save v) n then some v else none := by
  cases write with
  | unopened => rfl
  | written n => exact F.load_cut v n

variable [DecidableEq κ]

lemma Agrees.item (h : F.Agrees s k l) (i : ι) (write : Write) :
    F.Agrees (F.step s (.item i write)) k (F.record k l (.item i write)) := by
  by_cases hk : F.key i = k
  · subst hk
    have hvalue := h.value
    have hloaded := h.loaded
    rw [Folding.loaded] at hloaded
    rw [record_item, if_pos rfl]
    refine ⟨?_, ?_⟩
    · simp only [step, Folding.value, Function.update_self, Option.some_or]
      rw [← Folding.value, hvalue, kept_entry, fold_concat]
    · simp only [step, Folding.loaded, Function.update_self]
      rw [load_writeTo, hvalue]
      cases write with
      | unopened => exact hloaded
      | written n =>
        dsimp only
        rw [saved_entry_written, wholly_concat]
        split
        · rw [fold_concat]
        · rfl
  · have hother : k ≠ F.key i := Ne.symm hk
    rw [record_item, if_neg hk]
    refine ⟨?_, ?_⟩
    · simp only [step, Folding.value, Folding.loaded, Function.update_of_ne hother]
      exact h.value
    · simp only [step, Folding.loaded, Function.update_of_ne hother]
      exact h.loaded

lemma Agrees.restart (h : F.Agrees s k l) :
    F.Agrees (F.step s .restart) k (F.record k l .restart) := ⟨h.loaded, h.loaded⟩

lemma Agrees.step (h : F.Agrees s k l) (label : Label ι) :
    F.Agrees (F.step s label) k (F.record k l label) := by
  cases label with
  | item i write => exact h.item i write
  | restart => exact h.restart

/-! ## All steps -/

lemma Agrees.foldl (h : F.Agrees s k l) (labels : List (Label ι)) :
    F.Agrees (labels.foldl F.step s) k (labels.foldl (F.record k) l) := by
  induction labels generalizing s l with
  | nil => exact h
  | cons label labels ih => exact ih (h.step label)

/-- Every key has the value of its own items. -/
theorem agrees_run (k : κ) (labels : List (Label ι)) :
    F.Agrees (F.run labels) k (F.ledger k labels) := agrees_empty.foldl labels

/-! ## What is lost -/

lemma ledger_concat (label : Label ι) :
    F.ledger k (labels ++ [label]) = F.record k (F.ledger k labels) label := by
  rw [ledger, List.foldl_append]
  rfl

lemma items_append (labels labels' : List (Label ι)) :
    F.items k (labels ++ labels') = F.items k labels ++ F.items k labels' := by
  induction labels with
  | nil => rfl
  | cons label labels ih =>
    cases label with
    | item i write =>
      simp only [List.cons_append, items, ih]
      split <;> rfl
    | restart => exact ih

lemma key_of_mem_items {i : ι} (h : i ∈ F.items k labels) : F.key i = k := by
  induction labels with
  | nil => cases h
  | cons label labels ih =>
    cases label with
    | item j write =>
      rw [items] at h
      split at h
      · next hk =>
        rcases List.mem_cons.mp h with rfl | hrest
        · exact hk
        · exact ih hrest
      · exact ih h
    | restart => exact ih h

/-- The saved items are the first ones of those that are kept, and these are all of the key with
some left out. -/
lemma saved_prefix_and_sublist (labels : List (Label ι)) :
    (F.ledger k labels).saved <+: (F.ledger k labels).kept ∧
      (F.ledger k labels).kept.Sublist (F.items k labels) := by
  induction labels using List.reverseRecOn with
  | nil => exact ⟨List.prefix_refl _, List.Sublist.refl _⟩
  | append_singleton labels label ih =>
    obtain ⟨hsaved, hkept⟩ := ih
    rw [ledger_concat, items_append]
    cases label with
    | item i write =>
      by_cases hk : F.key i = k
      · rw [record_item, if_pos hk]
        refine ⟨?_, ?_⟩
        · cases write with
          | unopened => exact hsaved.trans (List.prefix_append _ _)
          | written n =>
            rw [saved_entry_written, kept_entry]
            split
            · exact List.prefix_refl _
            · exact List.nil_prefix
        · simpa [items, hk] using hkept
      · rw [record_item, if_neg hk]
        exact ⟨hsaved, by simpa [items, hk] using hkept⟩
    | restart =>
      refine ⟨List.prefix_refl _, ?_⟩
      rw [items, items, List.append_nil]
      exact hsaved.sublist.trans hkept

/-- No restart comes when the last write of the key has failed. -/
def Lossless (F : Folding κ ι σ τ) (k : κ) (labels : List (Label ι)) : Prop :=
  ∀ front back, labels = front ++ .restart :: back →
    (F.ledger k front).saved = (F.ledger k front).kept

lemma lossless_concat {label : Label ι} :
    F.Lossless k (labels ++ [label]) ↔ F.Lossless k labels ∧
      (label = .restart → (F.ledger k labels).saved = (F.ledger k labels).kept) := by
  constructor
  · intro h
    refine ⟨fun front back hlabels => h front (back ++ [label]) ?_, ?_⟩
    · rw [hlabels, List.append_assoc, List.cons_append]
    · rintro rfl
      exact h labels [] rfl
  · rintro ⟨hfront, hlast⟩ front back hlabels
    rcases List.eq_nil_or_concat back with rfl | ⟨back, other, rfl⟩
    · obtain ⟨rfl, hlabel⟩ := List.append_inj' hlabels rfl
      exact hlast (List.singleton_inj.mp hlabel)
    · rw [List.concat_eq_append, ← List.cons_append, ← List.append_assoc] at hlabels
      obtain ⟨rfl, -⟩ := List.append_inj' hlabels rfl
      exact hfront front back rfl

/-- All items of a key are kept exactly when no restart comes between a failed write and the next
one that succeeds. -/
theorem kept_eq_items_iff (k : κ) (labels : List (Label ι)) :
    (F.ledger k labels).kept = F.items k labels ↔ F.Lossless k labels := by
  induction labels using List.reverseRecOn with
  | nil =>
    refine iff_of_true rfl fun front back hlabels => ?_
    exact absurd hlabels.symm (List.append_ne_nil_of_right_ne_nil _ (List.cons_ne_nil _ _))
  | append_singleton labels label ih =>
    obtain ⟨hsaved, hkept⟩ := saved_prefix_and_sublist (F := F) (k := k) labels
    rw [lossless_concat, ← ih, ledger_concat, items_append]
    cases label with
    | item i write =>
      have hnot : (Label.item i write = Label.restart → (F.ledger k labels).saved =
          (F.ledger k labels).kept) := fun h => by cases h
      by_cases hk : F.key i = k
      · simp [items, hk]
      · simp [items, hk]
    | restart =>
      simp only [record_restart, items, List.append_nil, forall_const]
      constructor
      · intro h
        have hall : (F.ledger k labels).kept = F.items k labels := by
          apply hkept.eq_of_length_le
          rw [← h]
          exact hsaved.length_le
        exact ⟨hall, h.trans hall.symm⟩
      · rintro ⟨hall, hwhole⟩
        rw [hwhole, hall]

end Folding

end Savepoint
