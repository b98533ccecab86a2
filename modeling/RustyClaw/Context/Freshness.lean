import RustyClaw.Context.Assembler
import RustyClaw.Library.Transition
import RustyClaw.Tools.Files

/-!
# Whether evidence is still current

The results of the tools become evidence, later calls change the files, and every prompt is assembled
from what evidence there is.  A run is a list of such steps: calls of the model and calls nested in a
cell, the effects of a result, changes of the files by anything else, and prompts.  Each item of
evidence is kept with what it was made from: the bytes of the file, the metadata found when it was
recorded, the number of writes before its result, and whether a write has changed its file since.

`is_fresh` compares the second of the last modification and the size, for evidence of files only; the
mark that a write puts on diagnostics is never looked at.  So a prompt shows stale evidence exactly
when a file was rewritten without changing either number, or when a diagnostic is older than a write
(`faithful_iff_detected`).
-/

namespace RustyClaw.Freshness

open Assembler Files Transition

/-! ## The state -/

/-- The result of a call of the model whose effects are still to come. -/
structure Pending where
  output : StructuredToolOutput
  /-- the bytes that were read -/
  bytes : Option ByteArray
  /-- a write has changed the file since -/
  overwritten : Bool := false
  writesBefore : Nat

/-- An item of evidence and where it comes from. -/
structure Item where
  evidence : Evidence
  bytes : Option ByteArray
  /-- the metadata of the source when the item was recorded -/
  recorded : Option FileMetadata
  overwritten : Bool
  writesBefore : Nat

structure State where
  files : FileSystem
  /-- the calls of `write_file` and `patch_file` that have succeeded -/
  writes : Nat := 0
  pending : Option Pending := none
  activeEvidence : List Item := []

/-! ## The steps -/

inductive Origin where
  | topLevel
  | nested
  deriving DecidableEq, Repr

inductive ToolCall where
  | readFile (path : List Char)
  | writeFile (path content : List Char)
  | patchFile (path : List Char) (edits : List Edit)
  | executeBash (cmd stdout : List Char) (exitCode : Int32)

def execute (fs : FileSystem) (c : Circumstances) : ToolCall → Ran
  | .readFile path => ⟨fs, readFile fs c path⟩
  | .writeFile path content => writeFile fs c path content
  | .patchFile path edits => patchFile fs c path edits
  | .executeBash cmd stdout exitCode => ⟨fs, executeBash c cmd stdout exitCode⟩

/-- The call is a write, and it has succeeded. -/
def wrote (call : ToolCall) (ran : Ran) : Bool :=
  match call, ran.result with
  | .writeFile _ _, .ok output => output.result.ok
  | .patchFile _ _, .ok output => output.result.ok
  | _, _ => false

/-- The bytes that the call has read for its result. -/
def bytesRead (fs : FileSystem) : ToolCall → Option ByteArray
  | .readFile path => fs.bytes path
  | _ => none

local instance decidableEqBytes : DecidableEq (Option ByteArray) :=
  @Option.instDecidableEq ByteArray ByteArray.instDecidableEq

/-- The bytes of the file have changed. -/
def changed (before after : FileSystem) (path : List Char) : Bool :=
  decide (before.bytes path ≠ after.bytes path)

def Item.note (item : Item) (before after : FileSystem) : Item :=
  { item with overwritten := item.overwritten || changed before after item.evidence.sourcePath }

def Pending.note (pending : Pending) (before after : FileSystem) : Pending :=
  { pending with
    overwritten := pending.overwritten ||
      changed before after (pending.output.effects.evidenceSourcePath.getD []) }

/-- What a successful write means for the evidence there is. -/
def State.noteWrite (s : State) (after : FileSystem) : State :=
  { files := after
    writes := s.writes + 1
    pending := s.pending.map (·.note s.files after)
    activeEvidence := s.activeEvidence.map (·.note s.files after) }

def invalidatedByWrite : List Char := "invalidated_by_write".toList

def Item.invalidate (item : Item) : Item :=
  if item.evidence.sourceKind = "diagnostic".toList then
    { item with evidence := { item.evidence with sourceVersion := some invalidatedByWrite } }
  else item

/-- The evidence that is kept beside new evidence of this kind and source. -/
def retain (kind sourcePath : List Char) (items : List Item) : List Item :=
  if kind = "directory".toList || kind = "file".toList then
    items.filter fun existing =>
      existing.evidence.sourceKind ≠ kind || existing.evidence.sourcePath ≠ sourcePath
  else if kind = "diagnostic".toList then
    items.filter fun existing => existing.evidence.sourceKind ≠ kind
  else items

/-- The item that a result becomes. -/
def record (metadata : Metadata) (uuid : List Char) (pending : Pending)
    (kind sourcePath summary : List Char) : Item :=
  { evidence := Evidence.new metadata (kind ++ "_".toList ++ uuid) kind sourcePath 1.0 summary
      pending.output.result.output
    bytes := pending.bytes
    recorded := metadata sourcePath
    overwritten := pending.overwritten
    writesBefore := pending.writesBefore }

def addEvidence (metadata : Metadata) (uuid : List Char) (pending : Pending) (items : List Item) :
    List Item :=
  match pending.output.effects.evidenceKind, pending.output.effects.evidenceSourcePath,
    pending.output.effects.evidenceSummary with
  | some kind, some sourcePath, some summary =>
    retain kind sourcePath items ++ [record metadata uuid pending kind sourcePath summary]
  | _, _, _ => items

/-- `handle_successful_tool_effects`, for the evidence. -/
def handleSuccessfulToolEffects (metadata : Metadata) (uuid : List Char) (pending : Pending)
    (items : List Item) : List Item :=
  if pending.output.effects.invalidateDiagnosticEvidence then
    (addEvidence metadata uuid pending items).map Item.invalidate
  else addEvidence metadata uuid pending items

/-- A prompt, apart from the evidence of the tools. -/
structure Prompt where
  budget : Nat
  input : AssemblerInput
  retrievedMemory : Option (List Char) := none

inductive Label where
  | call (origin : Origin) (call : ToolCall) (c : Circumstances)
  /-- whatever else changes files: a command of the shell, another program, a failed write -/
  | change (files : FileSystem)
  /-- the effects of the pending result -/
  | handle (uuid : List Char)
  /-- the pending result has no effects: its turn was stopped, or a guard has taken its place -/
  | discard
  | assemble (prompt : Prompt)

/-- What a call does to the files. -/
def State.run (s : State) (call : ToolCall) (c : Circumstances) : State :=
  let ran := execute s.files c call
  if wrote call ran then s.noteWrite ran.files else s

/-- A call, of which the result is pending if the model made it. -/
def afterCall (s : State) (origin : Origin) (call : ToolCall) (c : Circumstances) : State :=
  match origin, (execute s.files c call).result with
  | .topLevel, .ok output =>
    { s.run call c with
      pending := some
        { output := output
          bytes := bytesRead s.files call
          writesBefore := (s.run call c).writes } }
  | _, _ => s.run call c

/-- The model makes one call after the other; nested calls come at any time. -/
def step (s : State) : Label → Option State
  | .call origin call c =>
    if origin = .topLevel && s.pending.isSome then none else some (afterCall s origin call c)
  | .change files => some { s with files := files }
  | .handle uuid =>
    s.pending.map fun pending =>
      { s with
        pending := none
        activeEvidence :=
          handleSuccessfulToolEffects s.files.metadata uuid pending s.activeEvidence }
  | .discard => some { s with pending := none }
  | .assemble _ => some s

/-- A session without evidence. -/
def start (files : FileSystem) : State where
  files := files

/-! ## What a prompt shows -/

def memoryEvidence (metadata : Metadata) (memory : List Char) : Evidence :=
  Evidence.new metadata "legacy_rag".toList "memory".toList "retrieved".toList 1.0
    "Retrieved memory snippets".toList memory

def Prompt.withEvidence (prompt : Prompt) (s : State) : AssemblerInput :=
  { prompt.input with
    activeEvidence := s.activeEvidence.map Item.evidence ++
      (prompt.retrievedMemory.map (memoryEvidence s.files.metadata)).toList }

/-- The item has a place in the prompt, with its content or with what is shown instead. -/
def Selected (s : State) (prompt : Prompt) (item : Item) : Prop :=
  evidenceCandidate s.files.metadata item.evidence ∈
    (allocation prompt.budget s.files.metadata (prompt.withEvidence s)).finalSelection

/-- The prompt contains the content of the item. -/
def Shown (s : State) (prompt : Prompt) (item : Item) : Prop :=
  (item.evidence.isFresh s.files.metadata).1 = true ∧ Selected s prompt item

/-- No write has changed what the item describes: its file has the bytes that were read, and there
was no write since a diagnostic. -/
structure Current (s : State) (item : Item) : Prop where
  file : item.evidence.sourceKind = "file".toList → item.overwritten = true →
    s.files.bytes item.evidence.sourcePath = item.bytes
  diagnostic : item.evidence.sourceKind = "diagnostic".toList → s.writes = item.writesBefore

/-- A prompt shows only evidence that is current. -/
def Faithful (s : State) : Label → Prop
  | .assemble prompt => ∀ item ∈ s.activeEvidence, Shown s prompt item → Current s item
  | _ => True

/-- What goes unnoticed does not happen: a file that was rewritten with other bytes has another
second of modification or another size than when the evidence was recorded, and no diagnostic in
the prompt is older than a write. -/
def Detected (s : State) : Label → Prop
  | .assemble prompt => ∀ item ∈ s.activeEvidence, Selected s prompt item →
    (item.evidence.sourceKind = "file".toList → item.overwritten = true →
      s.files.bytes item.evidence.sourcePath = item.bytes ∨
        s.files.metadata item.evidence.sourcePath ≠ item.recorded) ∧
    (item.evidence.sourceKind = "diagnostic".toList → s.writes = item.writesBefore)
  | _ => True

/-! ## Versions -/

/-- A version tells the second of the modification and the size. -/
lemma fileVersion_injective : Function.Injective Evidence.fileVersion := by
  intro ⟨secs, len⟩ ⟨secs', len'⟩ h
  have hdigits : Nat.toDigits 10 secs ++ '-' :: Nat.toDigits 10 len =
      Nat.toDigits 10 secs' ++ '-' :: Nat.toDigits 10 len' := by
    have hrepr : ∀ m : FileMetadata, Evidence.fileVersion m =
        "v1-".toList ++ (Nat.toDigits 10 m.mtimeSecs ++ '-' :: Nat.toDigits 10 m.len) := by
      intro m
      simp [Evidence.fileVersion]
    rw [hrepr, hrepr] at h
    exact List.append_cancel_left h
  have hdash : ∀ n : ℕ, '-' ∉ Nat.toDigits 10 n := Text.not_mem_toDigits rfl
  obtain ⟨hsecs, -, hlen⟩ := (List.append_cons_inj_of_notMem (hdash secs) (hdash len)).mp hdigits
  rw [Text.toDigits_injective hsecs, Text.toDigits_injective hlen]

/-! ## What is kept with an item -/

/-- Evidence of files has the version of the metadata that was found when it was recorded. -/
def Versioned (item : Item) : Prop :=
  item.evidence.sourceKind = "file".toList →
    item.evidence.sourceVersion = item.recorded.map Evidence.fileVersion

def AllVersioned (s : State) : Prop := ∀ item ∈ s.activeEvidence, Versioned item

lemma versioned_record (metadata : Metadata) (uuid : List Char) (pending : Pending)
    (kind sourcePath summary : List Char) :
    Versioned (record metadata uuid pending kind sourcePath summary) := by
  intro hkind
  have hpath : Evidence.hasPath kind = true := by
    rw [show kind = "file".toList from hkind]
    decide
  show Evidence.generateFreshness metadata kind sourcePath = _
  rw [Evidence.generateFreshness, if_pos hpath]
  rfl

lemma Versioned.invalidate {item : Item} (h : Versioned item) : Versioned item.invalidate := by
  unfold Item.invalidate
  split_ifs with hdiagnostic
  · intro hfile
    have hkind : item.evidence.sourceKind = "file".toList := hfile
    rw [hdiagnostic] at hkind
    exact absurd hkind (by decide)
  · exact h

lemma retain_subset (kind sourcePath : List Char) (items : List Item) :
    retain kind sourcePath items ⊆ items := by
  unfold retain
  split_ifs
  · exact fun _ hmem => (List.mem_filter.mp hmem).1
  · exact fun _ hmem => (List.mem_filter.mp hmem).1
  · exact List.Subset.refl _

lemma versioned_addEvidence {metadata : Metadata} {uuid : List Char} {pending : Pending}
    {items : List Item} (h : ∀ item ∈ items, Versioned item) :
    ∀ item ∈ addEvidence metadata uuid pending items, Versioned item := by
  unfold addEvidence
  split
  · intro item hitem
    rcases List.mem_append.mp hitem with hkept | hnew
    · exact h item (retain_subset _ _ _ hkept)
    · rw [List.mem_singleton.mp hnew]
      exact versioned_record _ _ _ _ _ _
  · exact h

lemma versioned_handle {metadata : Metadata} {uuid : List Char} {pending : Pending}
    {items : List Item} (h : ∀ item ∈ items, Versioned item) :
    ∀ item ∈ handleSuccessfulToolEffects metadata uuid pending items, Versioned item := by
  unfold handleSuccessfulToolEffects
  split_ifs
  · intro item hitem
    obtain ⟨item', hitem', rfl⟩ := List.mem_map.mp hitem
    exact (versioned_addEvidence h item' hitem').invalidate
  · exact versioned_addEvidence h

lemma AllVersioned.noteWrite {s : State} (h : AllVersioned s) (after : FileSystem) :
    AllVersioned (s.noteWrite after) := by
  intro item hitem
  obtain ⟨item', hitem', rfl⟩ := List.mem_map.mp hitem
  exact h item' hitem'

lemma AllVersioned.run {s : State} (h : AllVersioned s) (call : ToolCall) (c : Circumstances) :
    AllVersioned (s.run call c) := by
  show AllVersioned (if wrote call (execute s.files c call) then _ else s)
  split_ifs
  · exact h.noteWrite _
  · exact h

lemma AllVersioned.afterCall {s : State} (h : AllVersioned s) (origin : Origin) (call : ToolCall)
    (c : Circumstances) : AllVersioned (afterCall s origin call c) := by
  unfold Freshness.afterCall
  split
  · exact h.run call c
  · exact h.run call c

lemma AllVersioned.step {s s' : State} {l : Label} (h : AllVersioned s) (hstep : step s l = some s') :
    AllVersioned s' := by
  cases l with
  | call origin call c =>
    simp only [Freshness.step] at hstep
    split_ifs at hstep
    obtain rfl := Option.some.inj hstep
    exact h.afterCall origin call c
  | change files =>
    obtain rfl := Option.some.inj hstep
    exact h
  | handle uuid =>
    obtain ⟨pending, -, rfl⟩ := Option.map_eq_some_iff.mp hstep
    exact versioned_handle h
  | discard =>
    obtain rfl := Option.some.inj hstep
    exact h
  | assemble prompt =>
    obtain rfl := Option.some.inj hstep
    exact h

/-! ## When a prompt is faithful -/

/-- Evidence of files is fresh as long as its source has the metadata it was recorded with. -/
lemma isFresh_file {item : Item} (h : Versioned item)
    (hfile : item.evidence.sourceKind = "file".toList) (metadata : Metadata) :
    (item.evidence.isFresh metadata).1 = true ↔
      metadata item.evidence.sourcePath = item.recorded := by
  have hpath : Evidence.hasPath item.evidence.sourceKind = true := by
    rw [hfile]
    decide
  have hinj := Option.map_injective fileVersion_injective
  unfold Evidence.isFresh
  rw [hpath, Evidence.generateFreshness, if_pos hpath, h hfile, Bool.true_and]
  split_ifs with hne
  · have hdiffer : metadata item.evidence.sourcePath ≠ item.recorded := by
      rintro heq
      simp [heq] at hne
    simpa using hdiffer
  · have heq : (metadata item.evidence.sourcePath).map Evidence.fileVersion =
        item.recorded.map Evidence.fileVersion := by simpa using hne
    simpa using hinj heq

/-- A diagnostic is always fresh, whether it carries the mark of a write or not. -/
lemma isFresh_diagnostic {ev : Evidence} (h : ev.sourceKind = "diagnostic".toList)
    (metadata : Metadata) : ev.isFresh metadata = (true, none) := by
  have hpath : Evidence.hasPath ev.sourceKind = false := by
    rw [h]
    decide
  rw [Evidence.isFresh, hpath]
  rfl

lemma faithful_iff {s : State} (h : AllVersioned s) (l : Label) : Faithful s l ↔ Detected s l := by
  cases l with
  | assemble prompt =>
    refine forall₂_congr fun item hitem => ?_
    constructor
    · intro hfaithful hselected
      constructor
      · intro hfile hover
        by_cases hmeta : s.files.metadata item.evidence.sourcePath = item.recorded
        · have hfresh := (isFresh_file (h item hitem) hfile _).mpr hmeta
          exact .inl ((hfaithful ⟨hfresh, hselected⟩).file hfile hover)
        · exact .inr hmeta
      · intro hdiagnostic
        have hfresh := congrArg Prod.fst (isFresh_diagnostic hdiagnostic s.files.metadata)
        exact (hfaithful ⟨hfresh, hselected⟩).diagnostic hdiagnostic
    · rintro hdetected ⟨hfresh, hselected⟩
      obtain ⟨hfile, hdiagnostic⟩ := hdetected hselected
      constructor
      · intro hkind hover
        have hmeta := (isFresh_file (h item hitem) hkind _).mp hfresh
        exact (hfile hkind hover).resolve_right (absurd hmeta)
      · exact hdiagnostic
  | _ => exact Iff.rfl

/-- In every run of calls, changes and prompts: the prompts show only current evidence exactly when
every rewritten file of an item is told apart by the second of its modification or its size, and
no diagnostic in a prompt is older than a write. -/
theorem faithful_iff_detected (files : FileSystem) (labels : List Label) :
    Along step Faithful (start files) labels ↔ Along step Detected (start files) labels := by
  have hstart : AllVersioned (start files) := by simp [AllVersioned, start]
  exact along_congr AllVersioned (fun s l s' h hstep => h.step hstep)
    (fun s l h => faithful_iff h l) hstart labels

/-! ## A diagnostic that a write has outdated -/

def noFiles : FileSystem where
  resolve := List.length
  file _ := none

/-- The tests pass, and then the model writes a file. -/
def testThenWrite : List Label :=
  [.call .topLevel (.executeBash "cargo test".toList "ok".toList 0) { now := 1 },
    .handle "1".toList,
    .call .topLevel (.writeFile "a.rs".toList "fn".toList) { now := 2 },
    .handle "2".toList]

def plainPrompt : Prompt where
  budget := 1000
  input := { systemStatic := "SYS".toList, toolSchemas := [], taskState := .empty }

/-- What the tests said, with the mark of the write. -/
def testResult : Item where
  evidence := {
    evidenceId := "diagnostic_1".toList
    sourceKind := "diagnostic".toList
    sourcePath := "workspace_state".toList
    sourceVersion := some invalidatedByWrite
    score := 1.0
    summary := "Bash snapshot: cargo test".toList
    content := "ok".toList }
  bytes := none
  recorded := none
  overwritten := false
  writesBefore := 0

def outdated : State where
  files := writeBytes noFiles { now := 2 } "a.rs".toList "fn".toList
  writes := 1
  activeEvidence := [testResult]

lemma run_testThenWrite : run step (start noFiles) testThenWrite = some outdated := by
  rfl

lemma selected_testResult : Selected outdated plainPrompt testResult := by
  have hcost : requiredCost outdated.files.metadata (plainPrompt.withEvidence outdated) ≤
      plainPrompt.budget := by decide +kernel
  have hoptionals : optionals outdated.files.metadata (plainPrompt.withEvidence outdated) =
      [evidenceCandidate outdated.files.metadata testResult.evidence] :=
    List.mergeSort_singleton _
  have hevicted : (allocation plainPrompt.budget outdated.files.metadata
      (plainPrompt.withEvidence outdated)).evictedItems = [] := by
    rw [allocation_eq hcost, hoptionals]
    decide +kernel
  have hmem : evidenceCandidate outdated.files.metadata testResult.evidence ∈
      candidates outdated.files.metadata (plainPrompt.withEvidence outdated) := by
    simp [candidates, Prompt.withEvidence, outdated]
  rcases emitted_or_evicted hcost hmem with hselected | hlisted
  · exact hselected
  · rw [show (assemblePrompt plainPrompt.budget outdated.files.metadata
      (plainPrompt.withEvidence outdated)).2.evictedItems = _ from hevicted] at hlisted
    cases hlisted

/-- The next prompt shows that the tests pass, although a file was written since. -/
theorem not_faithful_diagnostic :
    ¬ Along step Faithful (start noFiles) (testThenWrite ++ [.assemble plainPrompt]) := by
  intro h
  have hprompt : Faithful outdated (.assemble plainPrompt) := (h.right run_testThenWrite).1
  have hfresh : testResult.evidence.isFresh outdated.files.metadata = (true, none) :=
    isFresh_diagnostic rfl _
  have hcurrent := hprompt testResult (List.mem_singleton_self _) ⟨congrArg Prod.fst hfresh, selected_testResult⟩
  have hwrites : outdated.writes = testResult.writesBefore := hcurrent.diagnostic rfl
  exact absurd hwrites (by decide)

end RustyClaw.Freshness
