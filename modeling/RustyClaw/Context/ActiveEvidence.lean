import RustyClaw.Context.Freshness
import RustyClaw.Library.Overlay

/-!
# One item of evidence for each source

The results of a run are handled one after the other.  A result carries evidence when its envelope
names a kind, a source and a summary; whatever else a result says leaves the items alone, apart from
the mark that a write puts on diagnostics.

A `Topic` is what new evidence displaces: the items of its kind and path for files and directories,
all diagnostics for a diagnostic.  The step lemma `filter_handle` says what one result does to the
items of a topic, and from it `filter_handled` follows for a whole run: of the results that carry
evidence on the topic the latest decides.  `evidenceUnique` states it for the two kinds of topic.
-/

namespace RustyClaw.Freshness

open Overlay

/-! ## Handling results -/

/-- A successful result when its effects are handled: its text, what the file system tells at that
moment, and a fresh identifier. -/
structure ToolResult where
  text : List Char
  metadata : Metadata
  uuid : List Char

def ToolResult.envelope (result : ToolResult) : Option StructuredToolOutput :=
  ToolExecutionEnvelope.fromJsonStr result.text

/-- The effects of the result on the items; nothing is known of the call it comes from. -/
def handle (items : List Item) (result : ToolResult) : List Item :=
  match result.envelope with
  | some output =>
    handleSuccessfulToolEffects result.metadata result.uuid
      { output := output, bytes := none, writesBefore := 0 } items
  | none => items

def handled (results : List ToolResult) : List Item := results.foldl handle []

/-- `active_evidence` after the results. -/
def activeEvidence (results : List ToolResult) : List Evidence :=
  (handled results).map Item.evidence

/-- The evidence that the result carries. -/
def ToolResult.evidence (result : ToolResult) : Option Evidence := do
  let output ← result.envelope
  let kind ← output.effects.evidenceKind
  let sourcePath ← output.effects.evidenceSourcePath
  let summary ← output.effects.evidenceSummary
  return Evidence.new result.metadata (kind ++ "_".toList ++ result.uuid) kind sourcePath 1.0 summary
    output.result.output

/-- The evidence on a topic that was carried last. -/
def latest (topic : Evidence → Bool) (results : List ToolResult) : Option Evidence :=
  decisive topic (results.filterMap ToolResult.evidence)

/-- The evidence of this kind about this path. -/
def about (kind sourcePath : List Char) (ev : Evidence) : Bool :=
  ev.sourceKind = kind && ev.sourcePath = sourcePath

def isDiagnostic (ev : Evidence) : Bool := ev.sourceKind = "diagnostic".toList

/-- The evidence without its version, which for a diagnostic is no more than the mark of a write. -/
def unversioned (ev : Evidence) : Evidence := { ev with sourceVersion := none }

/-- Each file or directory has at most one item of its kind, there is at most one diagnostic, and
each is the one that the latest result with such evidence carried. -/
structure EvidenceUnique (results : List ToolResult) : Prop where
  path_le_one : ∀ kind sourcePath, Evidence.hasPath kind = true →
    ((activeEvidence results).filter (about kind sourcePath)).length ≤ 1
  path_latest : ∀ kind sourcePath, Evidence.hasPath kind = true →
    (activeEvidence results).filter (about kind sourcePath)
      = (latest (about kind sourcePath) results).toList
  diagnostic_le_one : ((activeEvidence results).filter isDiagnostic).length ≤ 1
  diagnostic_latest : ((activeEvidence results).filter isDiagnostic).map unversioned
    = (latest isDiagnostic results).toList

/-! ## Topics -/

/-- What new evidence displaces: all items of its topic and no others.  `view` is what a write does
not change about the items of the topic. -/
structure Topic (topic : Evidence → Bool) (view : Evidence → Evidence) : Prop where
  invalidate : ∀ item : Item, topic item.invalidate.evidence = topic item.evidence
  view_invalidate : ∀ item : Item, topic item.evidence = true →
    view item.invalidate.evidence = view item.evidence
  displaced : ∀ (ev : Evidence) (items : List Item), topic ev = true →
    (retain ev.sourceKind ev.sourcePath items).filter (topic ·.evidence) = []
  kept : ∀ (ev : Evidence) (items : List Item), topic ev = false →
    (retain ev.sourceKind ev.sourcePath items).filter (topic ·.evidence)
      = items.filter (topic ·.evidence)

variable {topic : Evidence → Bool} {view : Evidence → Evidence}

lemma invalidate_of_ne {item : Item} (h : item.evidence.sourceKind ≠ "diagnostic".toList) :
    item.invalidate = item :=
  if_neg h

lemma sourceKind_invalidate (item : Item) :
    item.invalidate.evidence.sourceKind = item.evidence.sourceKind := by
  unfold Item.invalidate
  split <;> rfl

lemma sourcePath_invalidate (item : Item) :
    item.invalidate.evidence.sourcePath = item.evidence.sourcePath := by
  unfold Item.invalidate
  split <;> rfl

lemma unversioned_invalidate (item : Item) :
    unversioned item.invalidate.evidence = unversioned item.evidence := by
  unfold Item.invalidate
  split <;> rfl

lemma hasPath_iff {kind : List Char} :
    Evidence.hasPath kind = true ↔ kind = "file".toList ∨ kind = "directory".toList := by
  rw [Evidence.hasPath, Bool.or_eq_true, decide_eq_true_eq, decide_eq_true_eq]

lemma retain_of_hasPath {kind : List Char} (sourcePath : List Char) (items : List Item)
    (h : Evidence.hasPath kind = true) :
    retain kind sourcePath items = items.filter fun item => !about kind sourcePath item.evidence := by
  have hkind : (decide (kind = "directory".toList) || decide (kind = "file".toList)) = true := by
    rw [Bool.or_eq_true, decide_eq_true_eq, decide_eq_true_eq]
    exact (hasPath_iff.mp h).symm
  rw [retain, if_pos hkind]
  refine List.filter_congr fun item _ => ?_
  rw [about, Bool.not_and, decide_not, decide_not]

lemma retain_diagnostic (sourcePath : List Char) (items : List Item) :
    retain "diagnostic".toList sourcePath items
      = items.filter fun item => !isDiagnostic item.evidence := by
  rw [retain, if_neg (by decide), if_pos rfl]
  refine List.filter_congr fun item _ => ?_
  rw [isDiagnostic, decide_not]

lemma retain_other {kind : List Char} (sourcePath : List Char) (items : List Item)
    (hpath : ¬Evidence.hasPath kind = true) (hkind : kind ≠ "diagnostic".toList) :
    retain kind sourcePath items = items := by
  have hkind' : ¬(decide (kind = "directory".toList) || decide (kind = "file".toList)) = true := by
    rw [Bool.or_eq_true, decide_eq_true_eq, decide_eq_true_eq, or_comm]
    exact fun h => hpath (hasPath_iff.mpr h)
  rw [retain, if_neg hkind', if_neg hkind]

lemma not_hasPath_diagnostic : Evidence.hasPath "diagnostic".toList = false := by decide

/-- The evidence about a file or a directory is a topic, and a write changes nothing about it. -/
lemma topic_about {kind : List Char} (sourcePath : List Char) (h : Evidence.hasPath kind = true) :
    Topic (about kind sourcePath) id where
  invalidate := by
    intro item
    simp only [about, sourceKind_invalidate, sourcePath_invalidate]
  view_invalidate := by
    intro item hitem
    have hkind : item.evidence.sourceKind = kind := by
      simp only [about, Bool.and_eq_true, decide_eq_true_eq] at hitem
      exact hitem.1
    rw [invalidate_of_ne]
    rintro heq
    rw [← hkind, heq, not_hasPath_diagnostic] at h
    exact Bool.false_ne_true h
  displaced := by
    intro ev items hev
    simp only [about, Bool.and_eq_true, decide_eq_true_eq] at hev
    obtain ⟨rfl, rfl⟩ := hev
    rw [retain_of_hasPath _ _ h, List.filter_filter]
    simp
  kept := by
    intro ev items hev
    by_cases hpath : Evidence.hasPath ev.sourceKind = true
    · rw [retain_of_hasPath _ _ hpath, List.filter_filter]
      refine List.filter_congr fun item _ => ?_
      -- an item on the topic is not about the source of the new evidence
      cases hitem : about kind sourcePath item.evidence
      · rfl
      · simp only [about, Bool.and_eq_true, decide_eq_true_eq, Bool.and_eq_false_iff,
          decide_eq_false_iff_not] at hitem hev
        obtain ⟨rfl, rfl⟩ := hitem
        simp only [about, Bool.true_and, Bool.not_eq_true', Bool.and_eq_false_iff,
          decide_eq_false_iff_not]
        exact hev.imp Ne.symm Ne.symm
    · by_cases hdiagnostic : ev.sourceKind = "diagnostic".toList
      · rw [hdiagnostic, retain_diagnostic, List.filter_filter]
        refine List.filter_congr fun item _ => ?_
        cases hitem : about kind sourcePath item.evidence
        · rfl
        · simp only [about, Bool.and_eq_true, decide_eq_true_eq] at hitem
          simp only [isDiagnostic, Bool.true_and, Bool.not_eq_true', decide_eq_false_iff_not]
          rw [hitem.1]
          rintro rfl
          rw [not_hasPath_diagnostic] at h
          exact Bool.false_ne_true h
      · rw [retain_other _ _ hpath hdiagnostic]

/-- All diagnostics are one topic, and a write changes their version only. -/
lemma topic_isDiagnostic : Topic isDiagnostic unversioned where
  invalidate := by
    intro item
    simp only [isDiagnostic, sourceKind_invalidate]
  view_invalidate := by
    intro item _
    exact unversioned_invalidate item
  displaced := by
    intro ev items hev
    simp only [isDiagnostic, decide_eq_true_eq] at hev
    rw [hev, retain_diagnostic, List.filter_filter]
    simp
  kept := by
    intro ev items hev
    simp only [isDiagnostic, decide_eq_false_iff_not] at hev
    by_cases hpath : Evidence.hasPath ev.sourceKind = true
    · rw [retain_of_hasPath _ _ hpath, List.filter_filter]
      refine List.filter_congr fun item _ => ?_
      cases hitem : isDiagnostic item.evidence
      · rfl
      · simp only [isDiagnostic, decide_eq_true_eq] at hitem
        simp only [about, hitem, Bool.true_and, Bool.not_eq_true', Bool.and_eq_false_iff,
          decide_eq_false_iff_not]
        exact .inl (Ne.symm hev)
    · rw [retain_other _ _ hpath hev]

/-! ## One result -/

/-- What `view` shows of the items on a topic. -/
def onTopic (topic : Evidence → Bool) (view : Evidence → Evidence) (items : List Item) :
    List Evidence :=
  (items.filter (topic ·.evidence)).map (view ·.evidence)

lemma Topic.onTopic_invalidate (h : Topic topic view) (items : List Item) :
    onTopic topic view (items.map Item.invalidate) = onTopic topic view items := by
  have hcomp : (fun item : Item => topic item.evidence) ∘ Item.invalidate
      = fun item => topic item.evidence := funext h.invalidate
  rw [onTopic, List.filter_map, hcomp, List.map_map, onTopic]
  refine List.map_congr_left fun item hitem => ?_
  exact h.view_invalidate item (List.mem_filter.mp hitem).2

/-- New evidence takes the place of what there was on its topic. -/
lemma Topic.onTopic_addEvidence (h : Topic topic view) (ev : Evidence) (items : List Item)
    (item : Item) (hitem : item.evidence = ev) :
    onTopic topic view (retain ev.sourceKind ev.sourcePath items ++ [item])
      = if topic ev then [view ev] else onTopic topic view items := by
  rw [onTopic, List.filter_append]
  split_ifs with hev
  · rw [h.displaced ev items hev, List.nil_append, List.filter_cons_of_pos (by rwa [hitem])]
    simp [hitem]
  · have hev' : topic ev = false := Bool.not_eq_true _ ▸ hev
    rw [h.kept ev items hev', List.filter_cons_of_neg (by rw [hitem, hev']; exact Bool.false_ne_true)]
    simp [onTopic]

/-- **What one result does to a topic.** -/
lemma Topic.onTopic_handle (h : Topic topic view) (items : List Item) (result : ToolResult) :
    onTopic topic view (handle items result)
      = (decisive topic result.evidence.toList).elim (onTopic topic view items)
          fun ev => [view ev] := by
  unfold handle ToolResult.evidence
  cases result.envelope with
  | none => rfl
  | some output =>
    have hmark : onTopic topic view (handleSuccessfulToolEffects result.metadata result.uuid
          { output := output, bytes := none, writesBefore := 0 } items)
        = onTopic topic view (addEvidence result.metadata result.uuid
          { output := output, bytes := none, writesBefore := 0 } items) := by
      rw [handleSuccessfulToolEffects]
      split_ifs
      · exact h.onTopic_invalidate _
      · rfl
    simp only [hmark, addEvidence, Option.bind_eq_bind, Option.bind_some]
    cases output.effects.evidenceKind with
    | none => rfl
    | some kind =>
      cases output.effects.evidenceSourcePath with
      | none => rfl
      | some sourcePath =>
        cases output.effects.evidenceSummary with
        | none => rfl
        | some summary =>
          simp only [Option.bind_some, Option.pure_def, Option.toList_some]
          rw [decisive_singleton]
          refine (h.onTopic_addEvidence (Evidence.new result.metadata
            (kind ++ "_".toList ++ result.uuid) kind sourcePath 1.0 summary output.result.output)
            items _ rfl).trans ?_
          split_ifs <;> rfl

/-! ## A run of results -/

/-- **The latest result decides.** -/
theorem Topic.onTopic_handled (h : Topic topic view) (results : List ToolResult) :
    onTopic topic view (handled results) = (latest topic results).toList.map view := by
  induction results using List.reverseRecOn with
  | nil => rfl
  | append_singleton results result ih =>
    have hlast : handled (results ++ [result]) = handle (handled results) result := by
      simp [handled]
    rw [hlast, h.onTopic_handle, ih]
    unfold latest
    rw [List.filterMap_append, decisive_append]
    have hone : [result].filterMap ToolResult.evidence = result.evidence.toList := by
      rw [List.filterMap_cons]
      cases result.evidence <;> rfl
    rw [hone]
    cases decisive topic result.evidence.toList with
    | none => rfl
    | some ev => rfl

lemma filter_activeEvidence (results : List ToolResult) :
    ((activeEvidence results).filter topic).map view = onTopic topic view (handled results) := by
  rw [activeEvidence, List.filter_map, List.map_map]
  rfl

lemma unversioned_latest (results : List ToolResult) :
    (latest isDiagnostic results).map unversioned = latest isDiagnostic results := by
  cases hlatest : latest isDiagnostic results with
  | none => rfl
  | some ev =>
    obtain ⟨hmem, hkind⟩ := mem_of_decisive hlatest
    obtain ⟨result, -, hev⟩ := List.mem_filterMap.mp hmem
    simp only [ToolResult.evidence, Option.bind_eq_bind, Option.bind_eq_some_iff, Option.pure_def,
      Option.some.injEq] at hev
    obtain ⟨output, -, kind, -, sourcePath, -, summary, -, rfl⟩ := hev
    simp only [isDiagnostic, decide_eq_true_eq] at hkind
    have hversion : Evidence.generateFreshness result.metadata kind sourcePath = none := by
      rw [show kind = "diagnostic".toList from hkind, Evidence.generateFreshness,
        not_hasPath_diagnostic]
      rfl
    simp only [Option.map_some, unversioned, Evidence.new, hversion]

/-- **Evidence stays unique.**  After any results there is at most one item for a file or directory
and at most one diagnostic, and it is the one from the latest result that carries such evidence. -/
theorem evidenceUnique (results : List ToolResult) : EvidenceUnique results := by
  have hpath : ∀ kind sourcePath, Evidence.hasPath kind = true →
      (activeEvidence results).filter (about kind sourcePath)
        = (latest (about kind sourcePath) results).toList := by
    intro kind sourcePath hkind
    have h := (topic_about sourcePath hkind).onTopic_handled results
    rw [← filter_activeEvidence, List.map_id, List.map_id] at h
    exact h
  have hdiagnostic : ((activeEvidence results).filter isDiagnostic).map unversioned
      = (latest isDiagnostic results).toList := by
    rw [filter_activeEvidence, topic_isDiagnostic.onTopic_handled, ← Option.toList_map,
      unversioned_latest]
  refine ⟨?_, hpath, ?_, hdiagnostic⟩
  · intro kind sourcePath hkind
    rw [hpath kind sourcePath hkind]
    exact Option.length_toList_le
  · rw [← List.length_map unversioned, hdiagnostic]
    exact Option.length_toList_le

end RustyClaw.Freshness
