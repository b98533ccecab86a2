import RustyClaw.Context.History
import RustyClaw.Library.Transition

/-!
# What the transcript holds

A context and the file of its transcript under any sequence of turns, messages, compactions and
restarts.  The state also records which turns were ended.

A turn is appended when it ends, and once more when a compaction takes it out of the history; after
a restart the history is what the file holds, so a turn that was stored twice comes back twice.
`fidelity_of_undisturbed` says that the transcript is faithful in every run in which no compaction
writes, every ended turn can be read back, and every append of one is whole.
-/

namespace RustyClaw.Context

open Glyph Transition
open Json hiding str

variable {χ : Type} [Glyph χ]

/-! ## The runs of a context -/

structure ContextState (χ : Type) [Glyph χ] where
  ctx : AgentContext χ
  files : Files χ
  ended : List (Turn χ)

inductive ContextMove (χ : Type) [Glyph χ] where
  | startTurn (turnId text : List χ)
  | addMessage (message : Message χ)
  | endTurn (written : Written)
  | ruleBasedCompact (numTurns : Nat) (written : Nat → Written) (uuid : List χ)
  | restart

section Step

variable (number : NumLit χ → Option (NumLit χ)) (toLowercase : List Char → List Char)

def contextStep (s : ContextState χ) : ContextMove χ → Option (ContextState χ)
  | .startTurn turnId text => some { s with ctx := startTurn s.ctx turnId text }
  | .addMessage message => some { s with ctx := addMessageToCurrentTurn s.ctx message }
  | .endTurn written =>
    let (files, ctx) := endTurn s.files s.ctx written
    some { ctx, files, ended := s.ended ++ s.ctx.currentTurn.toList }
  | .ruleBasedCompact numTurns written uuid =>
    match ruleBasedCompact toLowercase s.files s.ctx numTurns written uuid with
    | none => some s
    | some (files, ctx, _) => some { s with ctx, files }
  | .restart =>
    let fresh : AgentContext χ := { transcriptPath := s.ctx.transcriptPath }
    some { s with ctx := loadIntoContext number s.files fresh }

/-- A new session, before its file exists. -/
def ContextState.initial (path : Option UnixPath) : ContextState χ :=
  { ctx := { transcriptPath := path }, files := fun _ => none, ended := [] }

/-! ## Fidelity -/

/-- The turns that `load_transcript` returns. -/
def ContextState.stored (s : ContextState χ) : List (Turn χ) :=
  (loadIntoContext number s.files { transcriptPath := s.ctx.transcriptPath }).dialogueHistory

def Turn.sameId (turn other : Turn χ) : Bool := chars turn.turnId = chars other.turnId

/-- Among the stored turns, those that were ended are the ended turns, each once and in order. -/
def ContextState.EndedOnce (s : ContextState χ) : Prop :=
  (s.stored number).filter (fun turn => s.ended.any turn.sameId) = s.ended

/-- No turn that is stored in `s` is stored more often in `s'`. -/
def ContextState.AddsNoCopy (s s' : ContextState χ) : Prop :=
  ∀ turn ∈ s.stored number, (s'.stored number).countP turn.sameId ≤
    (s.stored number).countP turn.sameId

structure TranscriptFidelity (path : Option UnixPath) (moves : List (ContextMove χ)) : Prop where
  endedOnce : ∀ done rest s, moves = done ++ rest →
    run (contextStep number toLowercase) (.initial path) done = some s → s.EndedOnce number
  addsNoCopy : ∀ done numTurns written uuid rest s s',
    moves = done ++ .ruleBasedCompact numTurns written uuid :: rest →
      run (contextStep number toLowercase) (.initial path) done = some s →
        contextStep number toLowercase s (.ruleBasedCompact numTurns written uuid) = some s' →
          s.AddsNoCopy number s'

/-- An ended turn can be read back and is written whole; a compaction writes nothing: it takes no
turn, or none of its appends gets anywhere. -/
def Undisturbed (s : ContextState χ) : ContextMove χ → Prop
  | .endTurn written => ∀ turn, s.ctx.currentTurn = some turn →
    s.ctx.transcriptPath ≠ none ∧ written = .whole ∧ turn.Storable number
  | .ruleBasedCompact numTurns written _ =>
    ∀ i < min numTurns s.ctx.dialogueHistory.length, written i = .broken 0
  | _ => True

end Step

section Runs

variable {number : NumLit χ → Option (NumLit χ)} {toLowercase : List Char → List Char}
  {s s' : ContextState χ} {move : ContextMove χ} {path : Option UnixPath}

/-- The file holds the lines of the ended turns, all of which can be read back. -/
structure ContextState.Stores (number : NumLit χ → Option (NumLit χ)) (s : ContextState χ) :
    Prop where
  file : ∀ path, s.ctx.transcriptPath = some path →
    (s.files path).getD [] = s.ended.flatMap Turn.line
  storable : ∀ turn ∈ s.ended, turn.Storable number
  noPath : s.ctx.transcriptPath = none → s.ended = []

lemma ContextState.Stores.initial : (initial path : ContextState χ).Stores number :=
  ⟨fun _ _ => rfl, fun _ hmem => absurd hmem List.not_mem_nil, fun _ => rfl⟩

lemma ContextState.Stores.stored_eq (h : s.Stores number) : s.stored number = s.ended := by
  unfold stored loadIntoContext
  cases hpath : s.ctx.transcriptPath with
  | none => exact (h.noPath hpath).symm
  | some path => exact loadTurns_lines (h.file path hpath) h.storable

lemma appendTurn_broken (files : Files χ) (path : UnixPath) (turn : Turn χ) (other : UnixPath) :
    (appendTurn files (some path) turn (.broken 0) other).getD [] = (files other).getD [] := by
  simp only [appendTurn]
  split_ifs with h
  · subst h
    simp [Written.of]
  · rfl

/-- Appends that get nowhere leave every file with what it had. -/
lemma archiveTurns_broken {files : Files χ} {path : Option UnixPath} {written : Nat → Written}
    {turns : List (Turn χ)} {i : Nat} (h : ∀ j < turns.length, written (i + j) = .broken 0)
    (other : UnixPath) :
    (archiveTurns files path written i turns other).getD [] = (files other).getD [] := by
  induction turns generalizing files i with
  | nil => rfl
  | cons turn turns ih =>
    have hfirst : written i = .broken 0 := h 0 (Nat.zero_lt_succ _)
    have hrest : ∀ j < turns.length, written (i + 1 + j) = .broken 0 := by
      intro j hj
      rw [Nat.add_assoc, Nat.add_comm 1 j]
      exact h (j + 1) (Nat.succ_lt_succ hj)
    rw [archiveTurns, ih hrest, hfirst]
    cases path with
    | none => rfl
    | some path => exact appendTurn_broken files path turn other

lemma ContextState.Stores.step (hs : s.Stores number) (hund : Undisturbed number s move)
    (h : contextStep number toLowercase s move = some s') : s'.Stores number := by
  cases move with
  | startTurn turnId text =>
    cases h
    exact ⟨hs.file, hs.storable, hs.noPath⟩
  | addMessage message =>
    cases h
    exact ⟨hs.file, hs.storable, hs.noPath⟩
  | endTurn written =>
    cases h
    cases hturn : s.ctx.currentTurn with
    | none => simpa [endTurn, hturn] using hs
    | some turn =>
      obtain ⟨hpath, rfl, hstorable⟩ := hund turn hturn
      obtain ⟨path, hpath⟩ := Option.ne_none_iff_exists'.mp hpath
      simp only [Option.toList_some, hpath]
      refine ⟨fun other hother => ?_, fun other hmem => ?_, fun hnone => ?_⟩
      · cases hother
        simp [appendTurn, Written.of, hs.file path hpath]
      · rcases List.mem_append.mp hmem with hmem | hmem
        · exact hs.storable other hmem
        · rw [List.mem_singleton.mp hmem]
          exact hstorable
      · cases hnone
  | ruleBasedCompact numTurns written uuid =>
    simp only [contextStep, ruleBasedCompact] at h
    split_ifs at h with hnothing
    · cases h
      exact hs
    · cases h
      refine ⟨fun path hpath => ?_, hs.storable, hs.noPath⟩
      rw [archiveTurns_broken (fun j hj => ?_), hs.file path hpath]
      rw [Nat.zero_add]
      refine hund j (lt_of_lt_of_le hj ?_)
      simp
  | restart =>
    cases h
    refine ⟨fun path hpath => ?_, hs.storable, fun hnone => ?_⟩
    · rw [transcriptPath_loadIntoContext] at hpath
      exact hs.file path hpath
    · rw [transcriptPath_loadIntoContext] at hnone
      exact hs.noPath hnone

lemma ContextState.Stores.endedOnce (h : s.Stores number) : s.EndedOnce number := by
  rw [EndedOnce, h.stored_eq, List.filter_eq_self]
  intro turn hturn
  exact List.any_eq_true.mpr ⟨turn, hturn, by simp [Turn.sameId]⟩

/-- A compaction that writes nothing leaves what is stored as it is. -/
lemma ContextState.Stores.addsNoCopy {numTurns : Nat} {written : Nat → Written} {uuid : List χ}
    (hs : s.Stores number) (hund : Undisturbed number s (.ruleBasedCompact numTurns written uuid))
    (h : contextStep number toLowercase s (.ruleBasedCompact numTurns written uuid) = some s') :
    s.AddsNoCopy number s' := by
  have hended : s'.ended = s.ended := by
    simp only [contextStep] at h
    split at h <;> cases h <;> rfl
  intro turn _
  rw [(hs.step hund h).stored_eq, hs.stored_eq, hended]

/-- The transcript of a run that meets the condition is faithful. -/
theorem fidelity_of_undisturbed {moves : List (ContextMove χ)}
    (hund : Along (contextStep number toLowercase) (Undisturbed number) (.initial path) moves) :
    TranscriptFidelity number toLowercase path moves := by
  have hstores : ∀ done rest s, moves = done ++ rest →
      run (contextStep number toLowercase) (.initial path) done = some s → s.Stores number := by
    rintro done rest s rfl hrun
    exact run_invariant_of_along (ContextState.Stores number) (fun _ _ _ hs hP hi => hs.step hP hi)
      .initial hund.left hrun
  refine ⟨fun done rest s hsplit hrun => (hstores done rest s hsplit hrun).endedOnce, ?_⟩
  intro done numTurns written uuid rest s s' hsplit hrun hstep
  refine (hstores done _ s hsplit hrun).addsNoCopy ?_ hstep
  subst hsplit
  exact (hund.right hrun).1

/-! ## A compaction doubles what is stored -/

lemma archiveTurns_whole {files : Files χ} {path : UnixPath} {turns : List (Turn χ)} {i : Nat} :
    (archiveTurns files (some path) (fun _ => .whole) i turns path).getD [] =
      (files path).getD [] ++ turns.flatMap Turn.line := by
  induction turns generalizing files i with
  | nil => exact (List.append_nil _).symm
  | cons turn turns ih =>
    rw [archiveTurns, ih, List.flatMap_cons, ← List.append_assoc]
    simp [appendTurn, Written.of]

/-- The turns that a compaction takes are stored once more. -/
lemma ContextState.Stores.stored_compacted {path : UnixPath} {numTurns : Nat} {uuid : List χ}
    (hs : s.Stores number) (hpath : s.ctx.transcriptPath = some path)
    (hhistory : ∀ turn ∈ s.ctx.dialogueHistory, turn ∈ s.ended)
    (h : contextStep number toLowercase s (.ruleBasedCompact numTurns (fun _ => .whole) uuid) =
      some s') :
    s'.stored number = s.ended ++ s.ctx.dialogueHistory.take numTurns := by
  simp only [contextStep, ruleBasedCompact] at h
  split_ifs at h with hnothing
  · cases h
    rw [hs.stored_eq]
    rcases hnothing with rfl | hnil
    · simp
    · simp [hnil]
  · cases h
    have htake : s.ctx.dialogueHistory.take (min numTurns s.ctx.dialogueHistory.length) =
        s.ctx.dialogueHistory.take numTurns := List.take_eq_take_min.symm
    simp only [stored, loadIntoContext, hpath, List.nil_append]
    refine loadTurns_lines ?_ fun turn hmem => ?_
    · rw [archiveTurns_whole, hs.file path hpath, htake, List.flatMap_append]
    · rcases List.mem_append.mp hmem with hmem | hmem
      · exact hs.storable turn hmem
      · exact hs.storable turn (hhistory turn (List.mem_of_mem_take hmem))

/-- In a state where the transcript is faithful, a compaction that takes a turn and writes it adds
a second copy of it. -/
theorem not_addsNoCopy_of_whole {path : UnixPath} {numTurns : Nat} {uuid : List χ}
    {turn : Turn χ} {rest : List (Turn χ)} (hs : s.Stores number)
    (hpath : s.ctx.transcriptPath = some path)
    (hhistory : ∀ turn ∈ s.ctx.dialogueHistory, turn ∈ s.ended)
    (hturn : s.ctx.dialogueHistory = turn :: rest) (hnum : 0 < numTurns)
    (h : contextStep number toLowercase s (.ruleBasedCompact numTurns (fun _ => .whole) uuid) =
      some s') :
    ¬ s.AddsNoCopy number s' := by
  intro hcopy
  have hmem : turn ∈ s.ended := hhistory turn (by rw [hturn]; exact List.mem_cons_self)
  have hle := hcopy turn (hs.stored_eq ▸ hmem)
  rw [hs.stored_compacted hpath hhistory h, hs.stored_eq, List.countP_append] at hle
  have hpos : 0 < (s.ctx.dialogueHistory.take numTurns).countP turn.sameId := by
    refine List.countP_pos_iff.mpr ⟨turn, ?_, by simp [Turn.sameId]⟩
    obtain ⟨n, rfl⟩ := Nat.exists_eq_add_of_lt hnum
    simp [hturn]
  omega

end Runs

section Greeting

def greeting : Turn Char :=
  { turnId := str "t1", userMessage := str "hello", messages := [textMessage (str "hello")] }

def sessionPath : UnixPath := [.normal (str "session.jsonl")]

/-- A turn that ends. -/
def greetingRun : List (ContextMove Char) :=
  [.startTurn (str "t1") (str "hello"), .endTurn .whole]

lemma greeting_storable : greeting.Storable some where
  depth := by
    simp [Turn.toJson, Turn.fields, Message.toJson, Message.fields, Part.toJson, Part.fields,
      greeting, textMessage, skipNone, objOf, depth, depthFields, depthItems, recursionLimit]
  numbers := by simp [greeting, textMessage, Part.KeepsNumbers]

lemma greetingRun_undisturbed :
    Along (contextStep some id) (Undisturbed some) (.initial (some sessionPath)) greetingRun := by
  refine .cons trivial rfl (.cons ?_ rfl trivial)
  rintro turn ⟨⟩
  exact ⟨Option.some_ne_none _, rfl, greeting_storable⟩

/-- A turn that ended is there after a restart. -/
theorem fidelity_of_undisturbed_restarted :
    TranscriptFidelity (χ := Char) some id (some sessionPath)
      [.startTurn (str "t1") (str "hello"), .endTurn .whole, .restart] := by
  refine fidelity_of_undisturbed (.cons trivial rfl (.cons ?_ rfl (.cons trivial rfl trivial)))
  rintro turn ⟨⟩
  exact ⟨Option.some_ne_none _, rfl, greeting_storable⟩

/-- A turn that a compaction takes is stored twice. -/
theorem not_fidelity_compacted : ¬ TranscriptFidelity some id (some sessionPath)
    (greetingRun ++ [.ruleBasedCompact 1 (fun _ => .whole) (str "c1"), .restart]) := by
  intro hfidelity
  have hstores : ∀ s : ContextState Char,
      run (contextStep some id) (.initial (some sessionPath)) greetingRun = some s →
        s.Stores some := fun s hrun =>
      run_invariant_of_along (ContextState.Stores some) (fun _ _ _ hs hP hi => hs.step hP hi)
        .initial greetingRun_undisturbed hrun
  refine not_addsNoCopy_of_whole (hstores _ rfl) rfl (fun turn hturn => ?_) rfl Nat.one_pos rfl
    (hfidelity.addsNoCopy greetingRun 1 _ _ [.restart] _ _ rfl rfl rfl)
  exact hturn

end Greeting

end RustyClaw.Context
