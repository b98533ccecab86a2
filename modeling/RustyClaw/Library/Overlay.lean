import Mathlib.Data.List.Basic
import Mathlib.Data.List.Infix

/-!
# Ordered layers

Where several layers apply to the same thing, the last one decides: a mount covers what was mounted
at or below its destination before it, a rule overrides the rules in front of it.

* `decisive` is the last layer that applies.  `decisive_append` is the rule for lists that are put
  together: what comes later decides where it applies at all.
* A `Mount` puts a tree of the host, or something of its own, at a destination.  `shows` follows a
  path of the mounted tree back to the host, and `CanRead` and `CanWrite` are the host paths that
  can be reached so.
-/

namespace Overlay

section Decisive

variable {β γ : Type*} (applies : β → Bool)

/-- The last of the layers that applies. -/
def decisive (layers : List β) : Option β := (layers.filter applies).getLast?

variable {applies} {layers layers' : List β} {layer : β}

@[simp] lemma decisive_nil : decisive applies [] = none := rfl

lemma decisive_append :
    decisive applies (layers ++ layers') = (decisive applies layers').or (decisive applies layers) := by
  rw [decisive, List.filter_append, List.getLast?_append]
  rfl

lemma decisive_singleton :
    decisive applies [layer] = if applies layer then some layer else none := by
  unfold decisive
  split
  · next h => rw [List.filter_cons_of_pos h]; rfl
  · next h => rw [List.filter_cons_of_neg h]; rfl

lemma decisive_cons : decisive applies (layer :: layers) =
    (decisive applies layers).or (if applies layer then some layer else none) := by
  rw [← List.singleton_append, decisive_append, decisive_singleton]

lemma decisive_eq_none_iff :
    decisive applies layers = none ↔ ∀ layer ∈ layers, applies layer = false := by
  simp [decisive]

lemma mem_of_decisive (h : decisive applies layers = some layer) :
    layer ∈ layers ∧ applies layer = true :=
  List.mem_filter.mp (List.mem_of_getLast? h)

/-- Layers that are made from others decide as those do. -/
lemma decisive_map {applies' : γ → Bool} {f : β → γ} (h : ∀ layer, applies' (f layer) = applies layer) :
    decisive applies' (layers.map f) = (decisive applies layers).map f := by
  have hcomp : applies' ∘ f = applies := funext h
  rw [decisive, List.filter_map, hcomp, List.getLast?_map, decisive]

end Decisive

section Mounts

variable {α : Type*} [DecidableEq α]

/-- What stands at a destination: a tree of the host, or something of its own. -/
structure Mount (α : Type*) where
  source : Option (List α)
  dest : List α
  writable : Bool

/-- The mount on which a path lies. -/
def covering (mounts : List (Mount α)) (path : List α) : Option (Mount α) :=
  decisive (fun mount => mount.dest.isPrefixOf path) mounts

/-- The host path that a path shows, and whether it can be written to there. -/
def shows (mounts : List (Mount α)) (path : List α) : Option (List α × Bool) :=
  (covering mounts path).bind fun mount =>
    mount.source.map fun source => (source ++ path.drop mount.dest.length, mount.writable)

def CanRead (mounts : List (Mount α)) (hostPath : List α) : Prop :=
  ∃ path writable, shows mounts path = some (hostPath, writable)

def CanWrite (mounts : List (Mount α)) (hostPath : List α) : Prop :=
  ∃ path, shows mounts path = some (hostPath, true)

end Mounts

end Overlay
