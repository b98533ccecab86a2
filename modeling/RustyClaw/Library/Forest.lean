import Mathlib.Data.List.Basic
import Mathlib.Data.List.Nodup
import Mathlib.Data.List.Perm.Subperm

/-!
# Forests from parent links

Some nodes and, for some of them, a parent among the nodes (`Links`).  Nothing else is known: the
links may run in circles.  `grow` builds the tree below a node by descending to the nodes that name
it as their parent, and `growAll` does so for a list of nodes.  A descent that goes round in a
circle has no end, so `grow` counts the levels that it may still go down.

A node from which the links lead to one without a parent has a depth (`Links.HasDepth`), and only
one.  No circle comes into reach from there: the nodes above it are all different, so there are
fewer levels than nodes.  `exists_growAll` draws the conclusion for nodes of one depth: the descent
ends, and it meets exactly the nodes from which the links lead to one of these, each once.
-/

namespace Forest

inductive RoseTree (ι : Type*) where
  | node (value : ι) (children : List (RoseTree ι))

variable {ι : Type*}

def RoseTree.root : RoseTree ι → ι
  | .node i _ => i

mutual

/-- The values of a tree, each before those below it. -/
def RoseTree.values : RoseTree ι → List ι
  | .node i ts => i :: values ts

def values : List (RoseTree ι) → List ι
  | [] => []
  | t :: ts => t.values ++ values ts

end

mutual

/-- `P` holds of every value and the values right below it. -/
def RoseTree.Every (P : ι → List ι → Prop) : RoseTree ι → Prop
  | .node i ts => P i (ts.map RoseTree.root) ∧ Every P ts

def Every (P : ι → List ι → Prop) : List (RoseTree ι) → Prop
  | [] => True
  | t :: ts => t.Every P ∧ Every P ts

end

mutual

lemma RoseTree.Every.imp {P Q : ι → List ι → Prop} (h : ∀ i is, P i is → Q i is) :
    ∀ {t : RoseTree ι}, t.Every P → t.Every Q
  | .node _ _, ht => ⟨h _ _ ht.1, Every.imp h ht.2⟩

lemma Every.imp {P Q : ι → List ι → Prop} (h : ∀ i is, P i is → Q i is) :
    ∀ {ts : List (RoseTree ι)}, Every P ts → Every Q ts
  | [], _ => trivial
  | _ :: _, hts => ⟨RoseTree.Every.imp h hts.1, Every.imp h hts.2⟩

end

/-- The tree below a node, unless it has more levels than allowed. -/
def grow (kids : ι → List ι) : ℕ → ι → Option (RoseTree ι)
  | 0, _ => none
  | fuel + 1, i => ((kids i).mapM (grow kids fuel)).map (.node i)

def growAll (kids : ι → List ι) (fuel : ℕ) (is : List ι) : Option (List (RoseTree ι)) :=
  is.mapM (grow kids fuel)

lemma growAll_cons (kids : ι → List ι) (fuel : ℕ) (i : ι) (is : List ι) :
    growAll kids fuel (i :: is) =
      (grow kids fuel i).bind fun t => (growAll kids fuel is).map (t :: ·) := by
  rw [growAll, List.mapM_cons]
  cases grow kids fuel i with
  | none => rfl
  | some t =>
    show (growAll kids fuel is).bind (fun ts => some (t :: ts)) =
      (growAll kids fuel is).map (t :: ·)
    rw [Option.map_eq_bind]
    rfl

lemma growAll_cons_eq_some {kids : ι → List ι} {fuel : ℕ} {i : ι} {is : List ι}
    {ts : List (RoseTree ι)} (h : growAll kids fuel (i :: is) = some ts) :
    ∃ t ts', grow kids fuel i = some t ∧ growAll kids fuel is = some ts' ∧ ts = t :: ts' := by
  rw [growAll_cons] at h
  obtain ⟨t, ht, h⟩ := Option.bind_eq_some_iff.mp h
  obtain ⟨ts', hts, rfl⟩ := Option.map_eq_some_iff.mp h
  exact ⟨t, ts', ht, hts, rfl⟩

/-- More levels than needed change nothing. -/
lemma grow_mono {kids : ι → List ι} {fuel fuel' : ℕ} (hle : fuel ≤ fuel') {i : ι} {t : RoseTree ι}
    (h : grow kids fuel i = some t) : grow kids fuel' i = some t := by
  induction fuel generalizing fuel' i t with
  | zero => cases h
  | succ fuel ih =>
    obtain ⟨fuel', rfl⟩ := Nat.exists_eq_add_one.mpr (show 0 < fuel' by omega)
    obtain ⟨ts, hts, rfl⟩ := Option.map_eq_some_iff.mp h
    have hall : ∀ (is : List ι) (ts : List (RoseTree ι)), growAll kids fuel is = some ts →
        growAll kids fuel' is = some ts := by
      intro is
      induction is with
      | nil => exact fun _ h => h
      | cons j is ihis =>
        intro ts hts
        obtain ⟨t, ts', ht, hts', rfl⟩ := growAll_cons_eq_some hts
        rw [growAll_cons, ih (by omega) ht, ihis ts' hts']
        rfl
    have hts' : (kids i).mapM (grow kids fuel') = some ts := hall _ _ hts
    rw [grow, hts', Option.map_some]

lemma growAll_mono {kids : ι → List ι} {fuel fuel' : ℕ} (hle : fuel ≤ fuel') {is : List ι}
    {ts : List (RoseTree ι)} (h : growAll kids fuel is = some ts) :
    growAll kids fuel' is = some ts := by
  induction is generalizing ts with
  | nil => exact h
  | cons i is ih =>
    obtain ⟨t, ts', ht, hts, rfl⟩ := growAll_cons_eq_some h
    rw [growAll_cons, grow_mono hle ht, ih hts]
    rfl

lemma root_of_grow {kids : ι → List ι} {fuel : ℕ} {i : ι} {t : RoseTree ι}
    (h : grow kids fuel i = some t) : t.root = i := by
  cases fuel with
  | zero => cases h
  | succ fuel =>
    obtain ⟨ts, -, rfl⟩ := Option.map_eq_some_iff.mp h
    rfl

/-- The trees that have grown, as a function of their roots. -/
lemma exists_of_growAll {kids : ι → List ι} {fuel : ℕ} {is : List ι} {ts : List (RoseTree ι)}
    (h : growAll kids fuel is = some ts) :
    ∃ tree : ι → RoseTree ι, ts = is.map tree ∧ (∀ i ∈ is, grow kids fuel i = some (tree i)) ∧
      ∀ i, (tree i).root = i := by
  refine ⟨fun i => (grow kids fuel i).getD (.node i []), ?_, ?_, fun i => ?_⟩
  · induction is generalizing ts with
    | nil =>
      cases h
      rfl
    | cons i is ih =>
      obtain ⟨t, ts', ht, hts, rfl⟩ := growAll_cons_eq_some h
      rw [List.map_cons, ← ih hts, ht]
      rfl
  · induction is generalizing ts with
    | nil => exact fun i hi => absurd hi List.not_mem_nil
    | cons i is ih =>
      obtain ⟨t, ts', ht, hts, -⟩ := growAll_cons_eq_some h
      intro j hj
      rcases List.mem_cons.mp hj with rfl | hj
      · show grow kids fuel j = some ((grow kids fuel j).getD (.node j []))
        rw [ht, Option.getD_some]
      · exact ih hts j hj
  · show ((grow kids fuel i).getD (.node i [])).root = i
    cases htree : grow kids fuel i with
    | none => rfl
    | some t => exact root_of_grow htree

/-! ## Links -/

structure Links (ι : Type*) where
  nodes : List ι
  parent : ι → Option ι
  parent_mem : ∀ {i p}, i ∈ nodes → parent i = some p → p ∈ nodes

namespace Links

variable (L : Links ι)

/-- The links lead in so many steps to a node without a parent. -/
inductive HasDepth : ι → ℕ → Prop
  | root {i : ι} (hroot : L.parent i = none) : HasDepth i 0
  | child {i p : ι} {d : ℕ} (hparent : L.parent i = some p) (hp : HasDepth p d) :
    HasDepth i (d + 1)

/-- The links lead in so many steps from the first node to the second. -/
inductive Climbs : ι → ℕ → ι → Prop
  | refl (i : ι) : Climbs i 0 i
  | step {i p j : ι} {n : ℕ} (hparent : L.parent i = some p) (hp : Climbs p n j) :
    Climbs i (n + 1) j

variable {L} {i j k : ι} {d e n m : ℕ}

lemma HasDepth.unique (h : L.HasDepth i d) (h' : L.HasDepth i e) : d = e := by
  induction h generalizing e with
  | root hroot =>
    cases h' with
    | root => rfl
    | child hparent =>
      rw [hroot] at hparent
      cases hparent
  | child hparent _ ih =>
    cases h' with
    | root hroot =>
      rw [hroot] at hparent
      cases hparent
    | child hparent' hp =>
      rw [hparent] at hparent'
      cases hparent'
      rw [ih hp]

lemma Climbs.unique (h : L.Climbs i n j) (h' : L.Climbs i n k) : j = k := by
  induction h with
  | refl =>
    cases h'
    rfl
  | step hparent _ ih =>
    cases h' with
    | step hparent' hp =>
      rw [hparent] at hparent'
      cases hparent'
      exact ih hp

lemma Climbs.hasDepth (h : L.Climbs i n j) (hj : L.HasDepth j d) : L.HasDepth i (d + n) := by
  induction h with
  | refl => exact hj
  | step hparent _ ih => exact .child hparent (ih hj)

lemma Climbs.trans_parent (h : L.Climbs i n j) (hj : L.parent j = some k) :
    L.Climbs i (n + 1) k := by
  induction h with
  | refl => exact .step hj (.refl _)
  | step hparent _ ih => exact .step hparent (ih hj)

/-- The last step of a climb. -/
lemma Climbs.exists_last (h : L.Climbs i (n + 1) k) :
    ∃ j, L.Climbs i n j ∧ L.parent j = some k := by
  induction n generalizing i with
  | zero =>
    cases h with
    | step hparent hp =>
      cases hp
      exact ⟨i, .refl i, hparent⟩
  | succ n ih =>
    cases h with
    | step hparent hp =>
      obtain ⟨j, hj, hk⟩ := ih hp
      exact ⟨j, .step hparent hj, hk⟩

lemma Climbs.mem (h : L.Climbs i n j) (hi : i ∈ L.nodes) : j ∈ L.nodes := by
  induction h with
  | refl => exact hi
  | step hparent _ ih => exact ih (L.parent_mem hi hparent)

lemma hasDepth_iff : L.HasDepth i d ↔ ∃ r, L.parent r = none ∧ L.Climbs i d r := by
  constructor
  · intro h
    induction h with
    | root hroot => exact ⟨_, hroot, .refl _⟩
    | child hparent _ ih =>
      obtain ⟨r, hr, hp⟩ := ih
      exact ⟨r, hr, .step hparent hp⟩
  · rintro ⟨r, hr, h⟩
    have hdepth := h.hasDepth (.root hr)
    rwa [Nat.zero_add] at hdepth

/-- The nodes above a node are all different, for each has a depth of its own. -/
lemma HasDepth.exists_ancestors (h : L.HasDepth i d) (hi : i ∈ L.nodes) :
    ∃ above : List ι, above.length = d + 1 ∧ above.Nodup ∧ above ⊆ L.nodes ∧
      ∀ j ∈ above, ∃ e ≤ d, L.HasDepth j e := by
  induction h with
  | @root i hroot =>
    refine ⟨[i], rfl, List.nodup_singleton i, List.cons_subset.mpr ⟨hi, List.nil_subset _⟩, ?_⟩
    intro j hj
    rw [List.mem_singleton.mp hj]
    exact ⟨0, Nat.le_refl 0, .root hroot⟩
  | @child i p d hparent hp ih =>
    obtain ⟨above, hlength, hnodup, hsub, hdepth⟩ := ih (L.parent_mem hi hparent)
    have hself : L.HasDepth i (d + 1) := .child hparent hp
    refine ⟨i :: above, by rw [List.length_cons, hlength], ?_, ?_, ?_⟩
    · refine List.nodup_cons.mpr ⟨fun hmem => ?_, hnodup⟩
      obtain ⟨e, he, hi'⟩ := hdepth i hmem
      have hsame := hself.unique hi'
      omega
    · exact List.cons_subset.mpr ⟨hi, hsub⟩
    · intro j hj
      rcases List.mem_cons.mp hj with rfl | hj
      · exact ⟨d + 1, Nat.le_refl _, hself⟩
      · obtain ⟨e, he, hj'⟩ := hdepth j hj
        exact ⟨e, Nat.le_succ_of_le he, hj'⟩

lemma HasDepth.lt_length (h : L.HasDepth i d) (hi : i ∈ L.nodes) : d < L.nodes.length := by
  obtain ⟨above, hlength, hnodup, hsub, -⟩ := h.exists_ancestors hi
  have hle := (List.subperm_of_subset hnodup hsub).length_le
  omega

/-! ## What grows -/

variable (L) in
/-- The children of a node, in some order. -/
structure Kids (kids : ι → List ι) : Prop where
  nodup : ∀ i ∈ L.nodes, (kids i).Nodup
  mem_iff : ∀ i ∈ L.nodes, ∀ c, c ∈ kids i ↔ c ∈ L.nodes ∧ L.parent c = some i

variable (L) in
/-- The trees have these nodes at their roots, and every node from which the links lead to one of
them, once. -/
structure Grown (kids : ι → List ι) (is : List ι) (ts : List (RoseTree ι)) : Prop where
  roots : ts.map RoseTree.root = is
  nodup : (values ts).Nodup
  mem_iff : ∀ x, x ∈ values ts ↔ x ∈ L.nodes ∧ ∃ i ∈ is, ∃ n, L.Climbs x n i
  every : Every (fun i is => is = kids i) ts

variable {kids : ι → List ι}

lemma grown_nil : L.Grown kids [] [] where
  roots := rfl
  nodup := List.nodup_nil
  mem_iff _ := iff_of_false List.not_mem_nil fun h => List.not_mem_nil h.2.choose_spec.1
  every := trivial

/-- Trees below different nodes of one depth have nothing in common. -/
lemma Grown.cons {is : List ι} {t : RoseTree ι} {ts : List (RoseTree ι)} (hi : L.HasDepth i d)
    (his : ∀ j ∈ is, L.HasDepth j d) (hnot : i ∉ is) (ht : L.Grown kids [i] [t])
    (hts : L.Grown kids is ts) : L.Grown kids (i :: is) (t :: ts) := by
  have hvalues : values [t] = t.values := List.append_nil _
  refine ⟨?_, ?_, fun x => ?_, ht.every.1, hts.every⟩
  · have hroot : [t].map RoseTree.root = [i] := ht.roots
    rw [List.map_cons, hts.roots, (List.cons.inj hroot).1]
  · rw [values, ← hvalues, List.nodup_append']
    refine ⟨ht.nodup, hts.nodup, fun x hx hx' => ?_⟩
    obtain ⟨-, j, hj, n, hn⟩ := (ht.mem_iff x).mp hx
    obtain ⟨-, j', hj', m, hm⟩ := (hts.mem_iff x).mp hx'
    rw [List.mem_singleton] at hj
    subst hj
    have hsame := (hn.hasDepth hi).unique (hm.hasDepth (his j' hj'))
    obtain rfl : n = m := by omega
    exact hnot (hn.unique hm ▸ hj')
  · rw [values, List.mem_append, ← hvalues, ht.mem_iff, hts.mem_iff]
    constructor
    · rintro (⟨hx, j, hj, hn⟩ | ⟨hx, j, hj, hn⟩)
      · exact ⟨hx, j, List.mem_cons.mpr (.inl (List.mem_singleton.mp hj)), hn⟩
      · exact ⟨hx, j, List.mem_cons_of_mem _ hj, hn⟩
    · rintro ⟨hx, j, hj, hn⟩
      rcases List.mem_cons.mp hj with rfl | hj
      · exact .inl ⟨hx, j, List.mem_singleton_self j, hn⟩
      · exact .inr ⟨hx, j, hj, hn⟩

/-- A node on top of the trees below its children. -/
lemma Grown.node {ts : List (RoseTree ι)} (hkids : L.Kids kids) (hi : L.HasDepth i d)
    (hmem : i ∈ L.nodes) (h : L.Grown kids (kids i) ts) : L.Grown kids [i] [.node i ts] := by
  have hvalues : values [RoseTree.node i ts] = i :: values ts := List.append_nil _
  refine ⟨rfl, ?_, fun x => ?_, ⟨h.roots, h.every⟩, trivial⟩
  · rw [hvalues, List.nodup_cons]
    refine ⟨fun hbelow => ?_, h.nodup⟩
    obtain ⟨-, c, hc, n, hn⟩ := (h.mem_iff i).mp hbelow
    have hclimb := hn.trans_parent ((hkids.mem_iff i hmem c).mp hc).2
    have hsame := (hclimb.hasDepth hi).unique hi
    omega
  · rw [hvalues, List.mem_cons, h.mem_iff]
    constructor
    · rintro (rfl | ⟨hx, c, hc, n, hn⟩)
      · exact ⟨hmem, x, List.mem_singleton_self x, 0, .refl x⟩
      · exact ⟨hx, i, List.mem_singleton_self i, n + 1,
          hn.trans_parent ((hkids.mem_iff i hmem c).mp hc).2⟩
    · rintro ⟨hx, j, hj, n, hn⟩
      rw [List.mem_singleton] at hj
      subst hj
      rcases n with _ | n
      · cases hn
        exact .inl rfl
      · obtain ⟨c, hc, hparent⟩ := hn.exists_last
        exact .inr ⟨hx, c, (hkids.mem_iff j hmem c).mpr ⟨hc.mem hx, hparent⟩, n, hc⟩

lemma exists_growAll_of_grow {fuel : ℕ} {is : List ι} (hnodup : is.Nodup)
    (his : ∀ i ∈ is, L.HasDepth i d)
    (h : ∀ i ∈ is, ∃ t, grow kids fuel i = some t ∧ L.Grown kids [i] [t]) :
    ∃ ts, growAll kids fuel is = some ts ∧ L.Grown kids is ts := by
  induction is with
  | nil => exact ⟨[], rfl, grown_nil⟩
  | cons i is ih =>
    obtain ⟨hnot, hnodup⟩ := List.nodup_cons.mp hnodup
    have hrest := fun j hj => his j (List.mem_cons_of_mem _ hj)
    obtain ⟨t, ht, hgrown⟩ := h i List.mem_cons_self
    obtain ⟨ts, hts, hgrowns⟩ := ih hnodup hrest fun j hj => h j (List.mem_cons_of_mem _ hj)
    refine ⟨t :: ts, ?_, hgrown.cons (his i List.mem_cons_self) hrest hnot hgrowns⟩
    rw [growAll_cons, ht, hts]
    rfl

lemma exists_grow (hkids : L.Kids kids) {fuel : ℕ} (hi : L.HasDepth i d) (hmem : i ∈ L.nodes)
    (hfuel : L.nodes.length < fuel + d) :
    ∃ t, grow kids fuel i = some t ∧ L.Grown kids [i] [t] := by
  induction fuel generalizing i d with
  | zero =>
    have hlt := hi.lt_length hmem
    omega
  | succ fuel ih =>
    have hdepth : ∀ c ∈ kids i, L.HasDepth c (d + 1) := fun c hc =>
      .child ((hkids.mem_iff i hmem c).mp hc).2 hi
    obtain ⟨ts, hts, hgrown⟩ := exists_growAll_of_grow (hkids.nodup i hmem) hdepth fun c hc =>
      ih (hdepth c hc) ((hkids.mem_iff i hmem c).mp hc).1 (by omega)
    have hts' : (kids i).mapM (grow kids fuel) = some ts := hts
    refine ⟨.node i ts, ?_, hgrown.node hkids hi hmem⟩
    rw [grow, hts', Option.map_some]

/-- From nodes of one depth the descent ends, whatever circles there are elsewhere. -/
theorem exists_growAll (hkids : L.Kids kids) {fuel : ℕ} {is : List ι} (hnodup : is.Nodup)
    (his : ∀ i ∈ is, L.HasDepth i d ∧ i ∈ L.nodes) (hfuel : L.nodes.length < fuel + d) :
    ∃ ts, growAll kids fuel is = some ts ∧ L.Grown kids is ts :=
  exists_growAll_of_grow hnodup (fun i hi => (his i hi).1) fun i hi =>
    exists_grow hkids (his i hi).1 (his i hi).2 hfuel

end Links

end Forest
