import RustyClaw.Library.Forest
import RustyClaw.Library.Table
import RustyClaw.Trace.Query

/-!
# The tree of a run

`get_tree` (`trace/query.rs`) makes a forest of the records of a run: a node for each span that was
started, with the last record of its start and of its end, below the node that its start names as
its parent.  Spans whose parent was never started are roots.  The nodes are grouped by their parents
in a hash map, and hash maps are iterated over in any order.

Nothing keeps the names of parents from running in circles, and `build_tree_node` has no guard
against them; but it starts from the roots, from where no circle can be reached.
`getTree_faithful` says so: the recursion ends, and the forest has exactly the spans from which the
parents lead to a root (`LeadsToRoot`), each once and where it belongs (`FaithfulForest`).
-/

namespace RustyClaw.Trace

open Arrangement Forest
open Json hiding str

/-! ## The nodes -/

/-- A `TraceTreeNode` without its children. -/
structure TraceSpan where
  spanId : List Char
  parentSpanId : Option (List Char)
  actor : TraceActor
  name : List Char
  status : String
  startedAtUnixMs : UInt64
  durationMs : Option UInt64
  summary : Option (List Char)
  attrs : Value Char

abbrev TraceTreeNode := RoseTree TraceSpan

/-- The key that roots and children are sorted by. -/
def TraceSpan.time (span : TraceSpan) : Nat := span.startedAtUnixMs.toNat

def startedAt (node : TraceTreeNode) : Nat := node.root.time

def treeNode (spanId : List Char) (start : TraceRecord) (finish : Option TraceRecord) :
    TraceSpan where
  spanId := spanId
  parentSpanId := start.parentSpanId
  actor := start.actor
  name := start.name
  status := (finish.map fun record => record.status.asStr).getD "running"
  startedAtUnixMs := start.tsUnixMs
  durationMs := finish.bind TraceRecord.durationMs
  summary := (finish.bind TraceRecord.summary).or start.summary
  attrs := start.attrs

abbrev RecordTable := Table (List Char) TraceRecord

/-- A later record of the same span replaces an earlier one. -/
def insertRecord (kind : TraceKind) (t : RecordTable) (record : TraceRecord) : RecordTable :=
  match record.spanId with
  | some spanId => if record.kind = kind then t.insert spanId record else t
  | none => t

def startRecords (records : List TraceRecord) : RecordTable :=
  records.foldl (insertRecord .spanStart) ∅

def endRecords (records : List TraceRecord) : RecordTable :=
  records.foldl (insertRecord .spanEnd) ∅

structure Grouped where
  nodes : Table (List Char) TraceSpan
  childrenByParent : Option (List Char) → List (List Char)

def group (ends : RecordTable) (s : Grouped) (entry : List Char × TraceRecord) : Grouped where
  nodes := s.nodes.insert entry.1 (treeNode entry.1 entry.2 (ends.lookup entry.1))
  childrenByParent := Function.update s.childrenByParent entry.2.parentSpanId
    (s.childrenByParent entry.2.parentSpanId ++ [entry.1])

def grouped (records : List TraceRecord) (starts : Table.Iteration (startRecords records)) :
    Grouped :=
  starts.1.foldl (group (endRecords records)) ⟨∅, fun _ => []⟩

/-! ## The tree -/

/-- A node whose parent has no node becomes a root. -/
def addRoot (nodes : Table (List Char) TraceSpan) (rootIds : List (List Char))
    (node : TraceSpan) : List (List Char) :=
  match node.parentSpanId with
  | some parentSpanId =>
    if (nodes.lookup parentSpanId).isNone && !rootIds.contains node.spanId then
      rootIds ++ [node.spanId]
    else rootIds
  | none => rootIds

/-- `build_tree_node`, to so many levels; there is no node for an id that has none. -/
def buildTreeNode (s : Grouped) : ℕ → List Char → Option (Option TraceTreeNode)
  | 0, _ => none
  | levels + 1, spanId =>
    match s.nodes.lookup spanId with
    | none => some none
    | some node =>
      ((s.childrenByParent (some spanId)).mapM (buildTreeNode s levels)).map fun children =>
        some (.node node (sortByKey startedAt (children.filterMap id)))

section GetTree

variable (records : List TraceRecord) (starts : Table.Iteration (startRecords records))
  (nodes : Table.Iteration (grouped records starts).nodes)

/-- The groups without that of the spans that name no parent. -/
def withoutRoots : Grouped :=
  { grouped records starts with
    childrenByParent := Function.update (grouped records starts).childrenByParent none [] }

def rootIds : List (List Char) :=
  (nodes.1.map Prod.snd).foldl (addRoot (grouped records starts).nodes)
    ((grouped records starts).childrenByParent none)

/-- `get_tree` behind the query, where `starts` and `nodes` are the orders in which it meets the
entries of its maps, and the recursion goes down so many levels. -/
def getTree (levels : ℕ) : Option (List TraceTreeNode) :=
  ((rootIds records starts nodes).mapM (buildTreeNode (withoutRoots records starts) levels)).map
    fun roots => sortByKey startedAt (roots.filterMap id)

end GetTree

/-! ## What is promised -/

section Promise

variable (records : List TraceRecord)

/-- No start of the parent is among the records. -/
def NoParent (start : TraceRecord) : Prop :=
  ∀ parentSpanId ∈ start.parentSpanId, (startRecords records).lookup parentSpanId = none

/-- The span was started, and from parent to parent one comes to a span without one. -/
inductive LeadsToRoot : List Char → Prop
  | root {spanId : List Char} {start : TraceRecord}
    (hstart : (startRecords records).lookup spanId = some start) (hroot : NoParent records start) :
    LeadsToRoot spanId
  | child {spanId parentSpanId : List Char} {start : TraceRecord}
    (hstart : (startRecords records).lookup spanId = some start)
    (hparent : start.parentSpanId = some parentSpanId) (hleads : LeadsToRoot parentSpanId) :
    LeadsToRoot spanId

structure FaithfulForest (forest : List TraceTreeNode) : Prop where
  /-- A node says what the last records of its span say. -/
  recorded : ∀ span ∈ values forest, ∃ start,
    (startRecords records).lookup span.spanId = some start ∧
      span = treeNode span.spanId start ((endRecords records).lookup span.spanId)
  once : ((values forest).map TraceSpan.spanId).Nodup
  mem_iff : ∀ spanId, spanId ∈ (values forest).map TraceSpan.spanId ↔ LeadsToRoot records spanId
  roots : ∀ node ∈ forest, ∀ parentSpanId ∈ node.root.parentSpanId,
    (startRecords records).lookup parentSpanId = none
  children : Every (fun span children =>
    ∀ child ∈ children, child.parentSpanId = some span.spanId) forest
  rootsSorted : forest.Pairwise fun a b => startedAt a ≤ startedAt b
  childrenSorted : Every (fun _ children =>
    children.Pairwise fun a b => a.time ≤ b.time) forest

end Promise

/-! ## The groups -/

section Groups

variable {ends : RecordTable} {order : List (List Char × TraceRecord)}

lemma foldl_group_concat (order : List (List Char × TraceRecord))
    (entry : List Char × TraceRecord) (s : Grouped) :
    (order ++ [entry]).foldl (group ends) s = group ends (order.foldl (group ends) s) entry := by
  rw [List.foldl_append]
  rfl

lemma lookup_foldl_group (hnodup : (order.map Prod.fst).Nodup) (spanId : List Char)
    (span : TraceSpan) :
    (order.foldl (group ends) ⟨∅, fun _ => []⟩).nodes.lookup spanId = some span ↔
      ∃ start, (spanId, start) ∈ order ∧ span = treeNode spanId start (ends.lookup spanId) := by
  induction order using List.reverseRecOn with
  | nil => simp
  | append_singleton order entry ih =>
    rw [List.map_append, List.nodup_append] at hnodup
    obtain ⟨hbefore, -, hfresh⟩ := hnodup
    rw [foldl_group_concat, group]
    by_cases hid : spanId = entry.1
    · subst hid
      rw [Finmap.lookup_insert, Option.some_inj]
      constructor
      · rintro rfl
        exact ⟨entry.2, List.mem_append_right _ (List.mem_singleton_self _), rfl⟩
      · rintro ⟨start, hmem, rfl⟩
        rcases List.mem_append.mp hmem with hmem | hmem
        · exact absurd rfl (hfresh _ (List.mem_map_of_mem hmem) _ (List.mem_singleton_self _))
        · rw [← List.mem_singleton.mp hmem]
    · rw [Finmap.lookup_insert_of_ne _ hid, ih hbefore]
      refine exists_congr fun start => and_congr_left fun _ => ?_
      rw [List.mem_append, List.mem_singleton]
      constructor
      · exact .inl
      · rintro (hmem | heq)
        · exact hmem
        · exact absurd (congrArg Prod.fst heq) hid

lemma childrenByParent_foldl_group (order : List (List Char × TraceRecord))
    (parent : Option (List Char)) :
    (order.foldl (group ends) ⟨∅, fun _ => []⟩).childrenByParent parent =
      (order.filter fun entry => entry.2.parentSpanId = parent).map Prod.fst := by
  induction order using List.reverseRecOn with
  | nil => rfl
  | append_singleton order entry ih =>
    rw [foldl_group_concat, group, List.filter_append, List.map_append, ← ih]
    dsimp only
    rw [Function.update_apply]
    by_cases hparent : parent = entry.2.parentSpanId
    · have hown : [entry].filter (fun entry => decide (entry.2.parentSpanId = parent)) = [entry] :=
        List.filter_cons_of_pos (decide_eq_true hparent.symm)
      rw [if_pos hparent, hown, hparent]
      rfl
    · rw [if_neg hparent, List.filter_cons_of_neg]
      · exact (List.append_nil _).symm
      · rw [decide_eq_true_eq]
        exact fun heq => hparent heq.symm

end Groups

section Starts

variable {records : List TraceRecord} {starts : Table.Iteration (startRecords records)}
  {nodes : Table.Iteration (grouped records starts).nodes} {spanId : List Char}

lemma lookup_nodes {span : TraceSpan} :
    (grouped records starts).nodes.lookup spanId = some span ↔
      ∃ start, (startRecords records).lookup spanId = some start ∧
        span = treeNode spanId start ((endRecords records).lookup spanId) := by
  rw [grouped, lookup_foldl_group starts.2.nodup]
  simp only [starts.2.mem_iff]

variable (starts) in
lemma lookup_treeNode {start : TraceRecord}
    (h : (startRecords records).lookup spanId = some start) :
    (grouped records starts).nodes.lookup spanId =
      some (treeNode spanId start ((endRecords records).lookup spanId)) :=
  lookup_nodes.mpr ⟨start, h, rfl⟩

lemma lookup_nodes_eq_none :
    (grouped records starts).nodes.lookup spanId = none ↔
      (startRecords records).lookup spanId = none := by
  rw [Option.eq_none_iff_forall_ne_some, Option.eq_none_iff_forall_ne_some]
  constructor
  · intro h start hstart
    exact h _ (lookup_nodes.mpr ⟨start, hstart, rfl⟩)
  · intro h span hspan
    obtain ⟨start, hstart, -⟩ := lookup_nodes.mp hspan
    exact h start hstart

lemma nodup_children (parent : Option (List Char)) :
    ((grouped records starts).childrenByParent parent).Nodup := by
  rw [grouped, childrenByParent_foldl_group]
  exact starts.2.nodup.sublist (List.filter_sublist.map _)

lemma mem_children {parent : Option (List Char)} :
    spanId ∈ (grouped records starts).childrenByParent parent ↔
      ∃ span, (grouped records starts).nodes.lookup spanId = some span ∧
        span.parentSpanId = parent := by
  rw [grouped, childrenByParent_foldl_group, List.mem_map]
  constructor
  · rintro ⟨⟨spanId, start⟩, hmem, rfl⟩
    obtain ⟨hmem, hparent⟩ := List.mem_filter.mp hmem
    exact ⟨_, lookup_nodes.mpr ⟨start, starts.2.mem_iff.mp hmem, rfl⟩, of_decide_eq_true hparent⟩
  · rintro ⟨span, hspan, rfl⟩
    obtain ⟨start, hstart, rfl⟩ := lookup_nodes.mp hspan
    exact ⟨(spanId, start),
      List.mem_filter.mpr ⟨starts.2.mem_iff.mpr hstart, decide_eq_true rfl⟩, rfl⟩

lemma spanId_of_lookup {span : TraceSpan}
    (h : (grouped records starts).nodes.lookup spanId = some span) : span.spanId = spanId := by
  obtain ⟨start, -, rfl⟩ := lookup_nodes.mp h
  rfl

/-! ### Roots -/

lemma mem_foldl_addRoot (table : Table (List Char) TraceSpan) (spans : List TraceSpan)
    (ids : List (List Char)) :
    spanId ∈ spans.foldl (addRoot table) ids ↔ spanId ∈ ids ∨ ∃ span ∈ spans,
      span.spanId = spanId ∧ ∃ parent, span.parentSpanId = some parent ∧
        table.lookup parent = none := by
  induction spans generalizing ids with
  | nil => simp
  | cons span spans ih =>
    have hstep : spanId ∈ addRoot table ids span ↔ spanId ∈ ids ∨ (span.spanId = spanId ∧
        ∃ parent, span.parentSpanId = some parent ∧ table.lookup parent = none) := by
      unfold addRoot
      cases hparent : span.parentSpanId with
      | none => simp
      | some parent =>
        cases hlookup : table.lookup parent with
        | some _ => simp [hlookup]
        | none =>
          by_cases hmem : span.spanId ∈ ids
          · have hkeep : ids.contains span.spanId = true := List.contains_iff_mem.mpr hmem
            simp only [hlookup, hkeep, Option.isNone_none, Bool.not_true, Bool.and_false,
              Bool.false_eq_true, if_false]
            constructor
            · exact .inl
            · rintro (h | ⟨rfl, -⟩)
              · exact h
              · exact hmem
          · have hadd : ids.contains span.spanId = false := by
              rw [Bool.eq_false_iff]
              exact fun h => hmem (List.contains_iff_mem.mp h)
            simp only [hlookup, hadd, Option.isNone_none, Bool.not_false, Bool.and_true, if_true,
              List.mem_append, List.mem_singleton]
            exact or_congr_right
              ⟨fun h => ⟨h.symm, parent, rfl, hlookup⟩, fun h => h.1.symm⟩
    rw [List.foldl_cons, ih, hstep, or_assoc, List.exists_mem_cons_iff]

lemma nodup_foldl_addRoot (table : Table (List Char) TraceSpan) (spans : List TraceSpan)
    {ids : List (List Char)} (h : ids.Nodup) : (spans.foldl (addRoot table) ids).Nodup := by
  induction spans generalizing ids with
  | nil => exact h
  | cons span spans ih =>
    refine ih ?_
    unfold addRoot
    split
    · split_ifs with hadd
      · rw [Bool.and_eq_true, Bool.not_eq_true', ← Bool.not_eq_true, List.contains_iff_mem] at hadd
        exact List.Nodup.append h (List.nodup_singleton _)
          (List.disjoint_singleton.mpr hadd.2)
      · exact h
    · exact h

lemma nodup_rootIds : (rootIds records starts nodes).Nodup :=
  nodup_foldl_addRoot _ _ (nodup_children none)

/-- The roots are the spans whose parent has no node. -/
lemma mem_rootIds :
    spanId ∈ rootIds records starts nodes ↔
      ∃ span, (grouped records starts).nodes.lookup spanId = some span ∧
        span.parentSpanId.bind (grouped records starts).nodes.lookup = none := by
  rw [rootIds, mem_foldl_addRoot, mem_children]
  constructor
  · rintro (⟨span, hspan, hparent⟩ | ⟨span, hmem, rfl, parent, hparent, hnone⟩)
    · exact ⟨span, hspan, by rw [hparent, Option.bind_none]⟩
    · obtain ⟨entry, hentry, rfl⟩ := List.mem_map.mp hmem
      have hspan := nodes.2.mem_iff.mp hentry
      rw [spanId_of_lookup hspan]
      exact ⟨entry.2, hspan, by rw [hparent, Option.bind_some, hnone]⟩
  · rintro ⟨span, hspan, hroot⟩
    cases hparent : span.parentSpanId with
    | none => exact .inl ⟨span, hspan, hparent⟩
    | some parent =>
      rw [hparent, Option.bind_some] at hroot
      refine .inr ⟨span, ?_, spanId_of_lookup hspan, parent, hparent, hroot⟩
      exact List.mem_map.mpr ⟨(spanId, span), nodes.2.mem_iff.mpr hspan, rfl⟩

end Starts

/-! ## The recursion -/

lemma mapM_eq_some_map {α β : Type} {f : α → Option β} {g : α → β} {l : List α}
    (h : ∀ a ∈ l, f a = some (g a)) : l.mapM f = some (l.map g) := by
  induction l with
  | nil => rfl
  | cons a l ih =>
    have hrest := ih fun b hb => h b (List.mem_cons_of_mem _ hb)
    rw [List.mapM_cons, h a List.mem_cons_self, hrest]
    rfl

section Recursion

variable {s : Grouped}

def kids (s : Grouped) (span : TraceSpan) : List TraceSpan :=
  sortByKey TraceSpan.time ((s.childrenByParent (some span.spanId)).filterMap s.nodes.lookup)

/-- Every id in the groups has a node, and the node has the id. -/
structure Grouped.Sound (s : Grouped) : Prop where
  spanId_eq : ∀ spanId span, s.nodes.lookup spanId = some span → span.spanId = spanId
  exists_node : ∀ parent, ∀ spanId ∈ s.childrenByParent (some parent),
    ∃ span, s.nodes.lookup spanId = some span

lemma Grouped.Sound.map_spanId (hs : s.Sound) {ids : List (List Char)}
    (h : ∀ spanId ∈ ids, ∃ span, s.nodes.lookup spanId = some span) :
    (ids.filterMap s.nodes.lookup).map TraceSpan.spanId = ids := by
  induction ids with
  | nil => rfl
  | cons spanId ids ih =>
    obtain ⟨span, hspan⟩ := h spanId List.mem_cons_self
    rw [List.filterMap_cons, hspan, List.map_cons, hs.spanId_eq _ _ hspan,
      ih fun spanId' hmem => h spanId' (List.mem_cons_of_mem _ hmem)]

/-- Building the nodes and sorting them is growing the sorted nodes. -/
lemma mapM_buildTreeNode {levels : ℕ} {spans : List TraceSpan} {ts : List TraceTreeNode}
    (hgrow : growAll (kids s) levels (sortByKey TraceSpan.time spans) = some ts)
    (hbuild : ∀ span ∈ spans, ∀ t, grow (kids s) levels span = some t →
      buildTreeNode s levels span.spanId = some (some t)) :
    ((spans.map TraceSpan.spanId).mapM (buildTreeNode s levels)).map
        (fun built => sortByKey startedAt (built.filterMap id)) = some ts := by
  obtain ⟨tree, rfl, htree, hroot⟩ := exists_of_growAll hgrow
  have hmem : ∀ span ∈ spans, grow (kids s) levels span = some (tree span) := fun span hspan =>
    htree span ((sortByKey_perm _ _).mem_iff.mpr hspan)
  have hbuilt : (spans.map TraceSpan.spanId).mapM (buildTreeNode s levels) =
      some (spans.map fun span => some (tree span)) := by
    rw [List.mapM_map]
    exact mapM_eq_some_map fun span hspan => hbuild span hspan _ (hmem span hspan)
  have hall : (spans.map fun span => some (tree span)).filterMap id = spans.map tree := by
    rw [List.filterMap_map, ← List.filterMap_eq_map]
    rfl
  rw [hbuilt, Option.map_some, hall, sortByKey, sortByKey]
  refine congrArg some (List.map_mergeSort fun a _ b _ => ?_).symm
  rw [startedAt, startedAt, hroot, hroot]

lemma buildTreeNode_of_grow (hs : s.Sound) {levels : ℕ} {span : TraceSpan} {t : TraceTreeNode}
    (hspan : s.nodes.lookup span.spanId = some span) (h : grow (kids s) levels span = some t) :
    buildTreeNode s levels span.spanId = some (some t) := by
  induction levels generalizing span t with
  | zero => cases h
  | succ levels ih =>
    obtain ⟨ts, hts, rfl⟩ := Option.map_eq_some_iff.mp h
    have hchildren := hs.exists_node span.spanId
    have hbuilt := mapM_buildTreeNode hts fun child hchild t ht => by
      obtain ⟨spanId, -, hlookup⟩ := List.mem_filterMap.mp hchild
      exact ih (by rwa [hs.spanId_eq _ _ hlookup]) ht
    rw [hs.map_spanId hchildren] at hbuilt
    obtain ⟨built, hall, rfl⟩ := Option.map_eq_some_iff.mp hbuilt
    rw [buildTreeNode, hspan]
    dsimp only
    rw [hall, Option.map_some]

end Recursion

/-! ## The forest -/

section Faithful

variable (records : List TraceRecord) (starts : Table.Iteration (startRecords records))
  (nodes : Table.Iteration (grouped records starts).nodes)

lemma sound_withoutRoots : (withoutRoots records starts).Sound where
  spanId_eq _ _ := spanId_of_lookup
  exists_node parent spanId hmem := by
    have hmem' : spanId ∈ (grouped records starts).childrenByParent (some parent) := hmem
    obtain ⟨span, hspan, -⟩ := mem_children.mp hmem'
    exact ⟨span, hspan⟩

def spans : List TraceSpan := nodes.1.map Prod.snd

variable {records starts nodes}

lemma mem_spans {span : TraceSpan} :
    span ∈ spans records starts nodes ↔
      (grouped records starts).nodes.lookup span.spanId = some span := by
  rw [spans, List.mem_map]
  constructor
  · rintro ⟨⟨spanId, span⟩, hmem, rfl⟩
    have hspan := nodes.2.mem_iff.mp hmem
    rwa [spanId_of_lookup hspan]
  · intro hspan
    exact ⟨(span.spanId, span), nodes.2.mem_iff.mpr hspan, rfl⟩

variable (records starts nodes) in
/-- The spans of a run and their parents. -/
def spanLinks : Links TraceSpan where
  nodes := spans records starts nodes
  parent span := span.parentSpanId.bind (grouped records starts).nodes.lookup
  parent_mem _ h := by
    obtain ⟨parent, -, hlookup⟩ := Option.bind_eq_some_iff.mp h
    rw [mem_spans, spanId_of_lookup hlookup, hlookup]

lemma kids_spanLinks :
    (spanLinks records starts nodes).Kids (kids (withoutRoots records starts)) where
  nodup span _ := by
    refine (sortByKey_perm _ _).nodup_iff.mpr ?_
    apply List.Nodup.of_map TraceSpan.spanId
    rw [(sound_withoutRoots records starts).map_spanId
      ((sound_withoutRoots records starts).exists_node span.spanId)]
    exact nodup_children (some span.spanId)
  mem_iff span hspan child := by
    rw [kids, (sortByKey_perm _ _).mem_iff, List.mem_filterMap]
    constructor
    · rintro ⟨spanId, hmem, hlookup⟩
      obtain ⟨child', hchild, hparent⟩ := mem_children.mp hmem
      obtain rfl : child' = child := Option.some_inj.mp (hchild.symm.trans hlookup)
      refine ⟨mem_spans.mpr (by rwa [spanId_of_lookup hchild]), ?_⟩
      show child'.parentSpanId.bind _ = some span
      rw [hparent]
      exact mem_spans.mp hspan
    · rintro ⟨hmem, hparent⟩
      obtain ⟨parent, hid, hlookup⟩ := Option.bind_eq_some_iff.mp hparent
      refine ⟨child.spanId, ?_, mem_spans.mp hmem⟩
      rw [spanId_of_lookup hlookup]
      exact mem_children.mpr ⟨child, mem_spans.mp hmem, hid⟩

/-- Following the parents is climbing the links. -/
lemma leadsToRoot_iff {spanId : List Char} :
    LeadsToRoot records spanId ↔ ∃ span ∈ spans records starts nodes, span.spanId = spanId ∧
      ∃ d, (spanLinks records starts nodes).HasDepth span d := by
  constructor
  · intro h
    induction h with
    | @root spanId start hstart hroot =>
      have hspan := lookup_treeNode starts hstart
      refine ⟨_, mem_spans.mpr (by rwa [spanId_of_lookup hspan]), rfl, 0, .root ?_⟩
      show start.parentSpanId.bind _ = none
      rw [Option.bind_eq_none_iff]
      exact fun parent hparent => lookup_nodes_eq_none.mpr (hroot parent hparent)
    | @child spanId parentSpanId start hstart hparent _ ih =>
      obtain ⟨parent, hmem, rfl, d, hdepth⟩ := ih
      have hspan := lookup_treeNode starts hstart
      refine ⟨_, mem_spans.mpr (by rwa [spanId_of_lookup hspan]), rfl, d + 1, .child ?_ hdepth⟩
      show start.parentSpanId.bind _ = some parent
      rw [hparent]
      exact mem_spans.mp hmem
  · rintro ⟨span, hmem, rfl, d, hdepth⟩
    induction hdepth with
    | @root span hroot =>
      obtain ⟨start, hstart, hspan⟩ := lookup_nodes.mp (mem_spans.mp hmem)
      refine .root hstart fun parent hparent => ?_
      have hid : span.parentSpanId = some parent := by
        rw [hspan]
        exact hparent
      exact lookup_nodes_eq_none.mp (Option.bind_eq_none_iff.mp hroot parent hid)
    | @child span parent d hparent _ ih =>
      obtain ⟨start, hstart, hspan⟩ := lookup_nodes.mp (mem_spans.mp hmem)
      obtain ⟨parentSpanId, hid, hlookup⟩ := Option.bind_eq_some_iff.mp hparent
      have hstartId : start.parentSpanId = some parent.spanId := by
        rw [spanId_of_lookup hlookup, ← hid, hspan]
        rfl
      exact .child hstart hstartId (ih ((spanLinks records starts nodes).parent_mem hmem hparent))

lemma faithful_of_grown {is : List TraceSpan} {forest : List TraceTreeNode}
    (his : ∀ span, span ∈ is ↔ span ∈ spans records starts nodes ∧
      (spanLinks records starts nodes).parent span = none)
    (hsorted : is.Pairwise fun a b => a.time ≤ b.time)
    (h : (spanLinks records starts nodes).Grown (kids (withoutRoots records starts)) is forest) :
    FaithfulForest records forest where
  recorded span hspan := by
    obtain ⟨hmem, -⟩ := (h.mem_iff span).mp hspan
    exact lookup_nodes.mp (mem_spans.mp hmem)
  once := by
    refine List.Nodup.map_on ?_ h.nodup
    intro span hspan span' hspan' heq
    have hlookup := mem_spans.mp ((h.mem_iff span).mp hspan).1
    have hlookup' := mem_spans.mp ((h.mem_iff span').mp hspan').1
    rw [heq, hlookup'] at hlookup
    exact (Option.some_inj.mp hlookup).symm
  mem_iff spanId := by
    rw [leadsToRoot_iff, List.mem_map]
    constructor
    · rintro ⟨span, hspan, rfl⟩
      obtain ⟨hmem, root, hroot, n, hn⟩ := (h.mem_iff span).mp hspan
      exact ⟨span, hmem, rfl, n, Links.hasDepth_iff.mpr ⟨root, ((his root).mp hroot).2, hn⟩⟩
    · rintro ⟨span, hmem, rfl, d, hdepth⟩
      obtain ⟨root, hroot, hn⟩ := Links.hasDepth_iff.mp hdepth
      exact ⟨span, (h.mem_iff span).mpr ⟨hmem, root, (his root).mpr ⟨hn.mem hmem, hroot⟩, d, hn⟩,
        rfl⟩
  roots node hnode parent hparent := by
    have hroot : node.root ∈ is := h.roots ▸ List.mem_map_of_mem hnode
    have hnone := ((his node.root).mp hroot).2
    exact lookup_nodes_eq_none.mp (Option.bind_eq_none_iff.mp hnone parent hparent)
  children := h.every.imp fun span children hchildren child hchild => by
    rw [hchildren, kids, (sortByKey_perm _ _).mem_iff] at hchild
    obtain ⟨spanId, hmem, hlookup⟩ := List.mem_filterMap.mp hchild
    obtain ⟨child', hchild', hparent⟩ := mem_children.mp hmem
    rw [← Option.some_inj.mp (hchild'.symm.trans hlookup), hparent]
  rootsSorted := by
    have hroots := hsorted
    rw [← h.roots, List.pairwise_map] at hroots
    exact hroots
  childrenSorted := h.every.imp fun span children hchildren => by
    rw [hchildren]
    exact pairwise_sortByKey _ _

/-- Whatever the records are, and however the maps are iterated over, the recursion of `get_tree`
ends and its forest is faithful. -/
theorem getTree_faithful (records : List TraceRecord)
    (starts : Table.Iteration (startRecords records))
    (nodes : Table.Iteration (grouped records starts).nodes) :
    ∃ forest, (∀ levels, nodes.1.length < levels →
        getTree records starts nodes levels = some forest) ∧ FaithfulForest records forest := by
  have hids : ∀ spanId ∈ rootIds records starts nodes,
      ∃ span, (withoutRoots records starts).nodes.lookup spanId = some span := by
    intro spanId hmem
    obtain ⟨span, hspan, -⟩ := mem_rootIds.mp hmem
    exact ⟨span, hspan⟩
  have hmap := (sound_withoutRoots records starts).map_spanId hids
  generalize hroots : (rootIds records starts nodes).filterMap
    (withoutRoots records starts).nodes.lookup = roots at hmap
  have hmem : ∀ span, span ∈ sortByKey TraceSpan.time roots ↔
      span ∈ spans records starts nodes ∧ (spanLinks records starts nodes).parent span = none := by
    intro span
    rw [(sortByKey_perm _ _).mem_iff, ← hroots, List.mem_filterMap]
    constructor
    · rintro ⟨spanId, hroot, hlookup⟩
      obtain ⟨span', hspan', hparent⟩ := mem_rootIds.mp hroot
      obtain rfl : span' = span := Option.some_inj.mp (hspan'.symm.trans hlookup)
      exact ⟨mem_spans.mpr (by rwa [spanId_of_lookup hspan']), hparent⟩
    · rintro ⟨hspan, hparent⟩
      exact ⟨span.spanId, mem_rootIds.mpr ⟨span, mem_spans.mp hspan, hparent⟩, mem_spans.mp hspan⟩
  have hnodup : (sortByKey TraceSpan.time roots).Nodup := by
    refine (sortByKey_perm _ _).nodup_iff.mpr (List.Nodup.of_map TraceSpan.spanId ?_)
    rw [hmap]
    exact nodup_rootIds
  have hlength : (spans records starts nodes).length = nodes.1.length := List.length_map _
  have hgrow : ∃ ts, growAll (kids (withoutRoots records starts)) (nodes.1.length + 1)
      (sortByKey TraceSpan.time roots) = some ts ∧ (spanLinks records starts nodes).Grown
        (kids (withoutRoots records starts)) (sortByKey TraceSpan.time roots) ts :=
    Links.exists_growAll kids_spanLinks (d := 0) hnodup
      (fun span hspan => ⟨.root ((hmem span).mp hspan).2, ((hmem span).mp hspan).1⟩)
      (show (spans records starts nodes).length < _ by omega)
  obtain ⟨forest, hforest, hgrown⟩ := hgrow
  refine ⟨forest, fun levels hlevels => ?_,
    faithful_of_grown hmem (pairwise_sortByKey _ _) hgrown⟩
  have hbuilt := mapM_buildTreeNode (growAll_mono hlevels hforest) fun span hspan t ht => by
    have hlookup := mem_spans.mp ((hmem span).mp ((sortByKey_perm _ _).mem_iff.mpr hspan)).1
    exact buildTreeNode_of_grow (sound_withoutRoots records starts) hlookup ht
  rw [hmap] at hbuilt
  exact hbuilt

end Faithful

end RustyClaw.Trace
