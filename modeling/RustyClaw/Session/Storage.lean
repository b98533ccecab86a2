import RustyClaw.Library.Path

/-!
# Where a session is stored

A session id becomes part of two kinds of paths.  `transcript_path_for_session` replaces every
character but `A-Z`, `a-z`, `0-9`, `-` and `_` by an underscore and makes a file name of the
result.  `StoragePaths::session_dir` joins the id to the sessions directory as it is, and the
event log, the task state and the transcript of a subagent are files in that directory.

The first keeps every transcript where it belongs, but takes different ids for the same one; the
second keeps different ids apart, but follows separators and `..` wherever they lead.
`isolated_iff` says which pairs of ids are kept apart by both: those that differ in length or in a
character that is not replaced, and that, read as paths from the sessions directory, lead to
different places below it, of which none is a file of the other.

A path is judged by where it leads from the working directory `cwd`, links aside.
-/

namespace RustyClaw.Session

open UnixPath

/-! ## The paths -/

def isKept (c : Char) : Bool :=
  ('a' ≤ c && c ≤ 'z') || ('A' ≤ c && c ≤ 'Z') || ('0' ≤ c && c ≤ '9') || c = '-' || c = '_'

def sanitizeChar (c : Char) : Char := if isKept c then c else '_'

def sanitize (sessionId : List Char) : List Char := sessionId.map sanitizeChar

def transcriptPathForSession (baseDir : UnixPath) (sessionId : List Char) : UnixPath :=
  baseDir.join (parse (sanitize sessionId ++ ".jsonl".toList))

namespace StoragePaths

def sessionsDir : UnixPath := (parse "rusty_claw".toList).join (parse "sessions".toList)

def sessionDir (sessionId : List Char) : UnixPath := sessionsDir.join (parse sessionId)

def eventsFile (sessionId : List Char) : UnixPath :=
  (sessionDir sessionId).join (parse "events.jsonl".toList)

def taskStateFile (sessionId : List Char) : UnixPath :=
  (sessionDir sessionId).join (parse "task_state.json".toList)

def sessionTranscriptFile (sessionId : List Char) : UnixPath :=
  (sessionDir sessionId).join (parse "transcript.json".toList)

/-- `session_dir` and everything derived from it. -/
def ofSession (sessionId : List Char) : List UnixPath :=
  [sessionDir sessionId, eventsFile sessionId, taskStateFile sessionId,
    sessionTranscriptFile sessionId]

end StoragePaths

/-! ## Isolation and its condition -/

/-- `place` lies below the directory `dir`. -/
def Below (dir place : List (List Char)) : Prop := ∃ names, names ≠ [] ∧ place = dir ++ names

/-- Two sessions have transcripts of their own, each directly in the transcript directory, and
storage paths of their own below the sessions directory. -/
structure Isolated (cwd : List (List Char)) (baseDir : UnixPath) (s t : List Char) : Prop where
  transcripts : locate cwd (transcriptPathForSession baseDir s) ≠
    locate cwd (transcriptPathForSession baseDir t)
  inTranscriptDir : ∀ id ∈ [s, t], ∃ name,
    locate cwd (transcriptPathForSession baseDir id) = locate cwd baseDir ++ [name]
  storage : ∀ p ∈ StoragePaths.ofSession s, ∀ q ∈ StoragePaths.ofSession t,
    locate cwd p ≠ locate cwd q
  inSessionsDir : ∀ id ∈ [s, t], ∀ p ∈ StoragePaths.ofSession id,
    Below (locate cwd StoragePaths.sessionsDir) (locate cwd p)

/-- The ids have different lengths, or different characters at some place and not both of them
turn into an underscore there. -/
def ToldApart (s t : List Char) : Prop :=
  s.length ≠ t.length ∨ ∃ (i : Nat) (a b : Char), s[i]? = some a ∧ t[i]? = some b ∧ a ≠ b ∧
    ((isKept a ∧ a ≠ '_') ∨ (isKept b ∧ b ≠ '_'))

/-- The names of the files in a session's directory. -/
def fileNames : List (List Char) :=
  ["events.jsonl".toList, "task_state.json".toList, "transcript.json".toList]

/-- Read as paths from `dir`, the ids lead to different places below it, and neither place is one
of the files in the other. -/
structure LeadApart (dir : List (List Char)) (s t : List Char) : Prop where
  below : ∀ id ∈ [s, t], Below dir (locate dir (parse id))
  places : locate dir (parse s) ≠ locate dir (parse t)
  files : ∀ name ∈ fileNames, locate dir (parse s) ≠ locate dir (parse t) ++ [name] ∧
    locate dir (parse t) ≠ locate dir (parse s) ++ [name]

/-! ## Transcripts -/

section Transcripts

variable {cwd : List (List Char)} {baseDir : UnixPath} {s t : List Char}

/-- Two characters become one if they are one or both turn into an underscore. -/
lemma sanitizeChar_eq_iff {a b : Char} :
    sanitizeChar a = sanitizeChar b ↔
      (a ≠ b → ¬ ((isKept a ∧ a ≠ '_') ∨ (isKept b ∧ b ≠ '_'))) := by
  unfold sanitizeChar
  constructor
  · rintro hsame hne (⟨hkept, hunderscore⟩ | ⟨hkept, hunderscore⟩)
    · rw [if_pos hkept] at hsame
      split at hsame
      · exact hne hsame
      · exact hunderscore hsame
    · rw [if_pos hkept] at hsame
      split at hsame
      · exact hne hsame
      · exact hunderscore hsame.symm
  · intro h
    rcases eq_or_ne a b with rfl | hne
    · rfl
    · have hunderscore : ∀ c, (isKept c ∧ c ≠ '_' → False) →
          (if isKept c then c else '_') = '_' := by
        intro c hc
        split
        · next hkept =>
          by_contra hnot
          exact hc ⟨hkept, hnot⟩
        · rfl
      rw [hunderscore a fun ha => h hne (.inl ha), hunderscore b fun hb => h hne (.inr hb)]

lemma sanitize_ne_iff : sanitize s ≠ sanitize t ↔ ToldApart s t := by
  constructor
  · intro hne
    by_contra hnot
    obtain ⟨hlength, hchars⟩ := not_or.mp hnot
    apply hne
    rw [not_not] at hlength
    refine List.ext_getElem (by simpa [sanitize] using hlength) fun i hs ht => ?_
    simp only [sanitize, List.length_map] at hs ht
    simp only [sanitize, List.getElem_map]
    refine sanitizeChar_eq_iff.mpr fun hdiffer hkept => ?_
    exact hchars ⟨i, s[i], t[i], List.getElem?_eq_getElem hs, List.getElem?_eq_getElem ht,
      hdiffer, hkept⟩
  · rintro (hlength | ⟨i, a, b, ha, hb, hdiffer, hkept⟩) hsame
    · apply hlength
      simpa [sanitize] using congrArg List.length hsame
    · have hi := congrArg (fun l : List Char => l[i]?) hsame
      simp only [sanitize, List.getElem?_map, ha, hb, Option.map_some, Option.some.injEq] at hi
      exact sanitizeChar_eq_iff.mp hi hdiffer hkept

lemma isKept_of_mem_sanitize {c : Char} (h : c ∈ sanitize s) : isKept c = true := by
  obtain ⟨d, -, rfl⟩ := List.mem_map.mp h
  unfold sanitizeChar
  split
  · assumption
  · rfl

/-- A sanitized id with its extension is a file name. -/
lemma isName_sanitize (s : List Char) : IsName (sanitize s ++ ".jsonl".toList) := by
  have hlength : 5 ≤ (sanitize s ++ ".jsonl".toList).length := by simp
  refine ⟨?_, ?_, ?_, ?_⟩
  · intro h
    rw [h] at hlength
    simp at hlength
  · intro h
    rw [h] at hlength
    simp at hlength
  · intro h
    rw [h] at hlength
    simp at hlength
  · intro h
    rcases List.mem_append.mp h with h | h
    · have hkept := isKept_of_mem_sanitize h
      revert hkept
      decide
    · revert h
      decide

lemma locate_transcript : locate cwd (transcriptPathForSession baseDir s) =
    locate cwd baseDir ++ [sanitize s ++ ".jsonl".toList] := by
  rw [transcriptPathForSession, locate_join, parse_of_isName (isName_sanitize s)]
  rfl

end Transcripts

/-! ## Storage paths -/

section Storage

variable {cwd : List (List Char)} {baseDir : UnixPath} {s t id : List Char}

/-- The sessions directory below `cwd`. -/
def sessionsPlace (cwd : List (List Char)) : List (List Char) :=
  cwd ++ ["rusty_claw".toList, "sessions".toList]

lemma locate_sessionsDir : locate cwd StoragePaths.sessionsDir = sessionsPlace cwd := by
  rw [StoragePaths.sessionsDir, locate_join,
    show parse "rusty_claw".toList = [.normal "rusty_claw".toList] by decide,
    show parse "sessions".toList = [.normal "sessions".toList] by decide]
  simp [locate, step, sessionsPlace]

lemma locate_sessionDir : locate cwd (StoragePaths.sessionDir id) =
    locate (sessionsPlace cwd) (parse id) := by
  rw [StoragePaths.sessionDir, locate_join, locate_sessionsDir]

/-- Where the storage paths of a session lead: to its place and to the files directly in it. -/
lemma exists_storage_iff {place : List (List Char)} :
    (∃ p ∈ StoragePaths.ofSession id, locate cwd p = place) ↔
      place = locate (sessionsPlace cwd) (parse id) ∨
        ∃ name ∈ fileNames, place = locate (sessionsPlace cwd) (parse id) ++ [name] := by
  have hfile : ∀ name : List Char, IsName name →
      locate cwd ((StoragePaths.sessionDir id).join (parse name)) =
        locate (sessionsPlace cwd) (parse id) ++ [name] := by
    intro name hname
    rw [locate_join, locate_sessionDir, parse_of_isName hname]
    rfl
  have hevents := hfile "events.jsonl".toList ⟨by decide, by decide, by decide, by decide⟩
  have htask := hfile "task_state.json".toList ⟨by decide, by decide, by decide, by decide⟩
  have htranscript := hfile "transcript.json".toList ⟨by decide, by decide, by decide, by decide⟩
  simp only [StoragePaths.ofSession, fileNames, List.mem_cons, List.not_mem_nil, or_false,
    exists_eq_or_imp, exists_eq_left, locate_sessionDir, StoragePaths.eventsFile,
    StoragePaths.taskStateFile, StoragePaths.sessionTranscriptFile, hevents, htask, htranscript,
    eq_comm]

/-- Storage paths lead to different places exactly when the two places differ and neither is a
file of the other. -/
lemma storage_apart_iff :
    (∀ p ∈ StoragePaths.ofSession s, ∀ q ∈ StoragePaths.ofSession t,
      locate cwd p ≠ locate cwd q) ↔
      locate (sessionsPlace cwd) (parse s) ≠ locate (sessionsPlace cwd) (parse t) ∧
        ∀ name ∈ fileNames,
          locate (sessionsPlace cwd) (parse s) ≠
              locate (sessionsPlace cwd) (parse t) ++ [name] ∧
            locate (sessionsPlace cwd) (parse t) ≠
              locate (sessionsPlace cwd) (parse s) ++ [name] := by
  have hwhole : (∀ p ∈ StoragePaths.ofSession s, ∀ q ∈ StoragePaths.ofSession t,
      locate cwd p ≠ locate cwd q) ↔
      ∀ place, (∃ p ∈ StoragePaths.ofSession s, locate cwd p = place) →
        ¬ ∃ q ∈ StoragePaths.ofSession t, locate cwd q = place := by
    constructor
    · rintro h _ ⟨p, hp, rfl⟩ ⟨q, hq, hsame⟩
      exact h p hp q hq hsame.symm
    · intro h p hp q hq hsame
      exact h _ ⟨p, hp, rfl⟩ ⟨q, hq, hsame.symm⟩
  simp only [hwhole, exists_storage_iff]
  generalize locate (sessionsPlace cwd) (parse s) = a
  generalize locate (sessionsPlace cwd) (parse t) = b
  constructor
  · intro h
    refine ⟨fun hab => h a (.inl rfl) (.inl hab), fun name hname => ⟨fun hab => ?_, fun hba => ?_⟩⟩
    · exact h a (.inl rfl) (.inr ⟨name, hname, hab⟩)
    · exact h b (.inr ⟨name, hname, hba⟩) (.inl rfl)
  · rintro ⟨hne, hfiles⟩ place (rfl | ⟨name, hname, rfl⟩) (hplace | ⟨name', hname', hplace⟩)
    · exact hne hplace
    · exact (hfiles name' hname').1 hplace
    · exact (hfiles name hname).2 hplace.symm
    · exact hne (List.append_inj_left' hplace rfl)

lemma Below.append {dir place : List (List Char)} (h : Below dir place) (name : List Char) :
    Below dir (place ++ [name]) := by
  obtain ⟨names, -, rfl⟩ := h
  exact ⟨names ++ [name], by simp, by simp⟩

/-- A session's storage lies below the sessions directory exactly when its place does. -/
lemma storage_below_iff :
    (∀ p ∈ StoragePaths.ofSession id, Below (sessionsPlace cwd) (locate cwd p)) ↔
      Below (sessionsPlace cwd) (locate (sessionsPlace cwd) (parse id)) := by
  constructor
  · intro h
    rw [← locate_sessionDir]
    exact h _ (.head _)
  · intro h p hp
    rcases exists_storage_iff.mp ⟨p, hp, rfl⟩ with hplace | ⟨name, -, hplace⟩
    · rw [hplace]
      exact h
    · rw [hplace]
      exact h.append name

/-- Exactly which pairs of ids are isolated, from any working directory and for any transcript
directory. -/
theorem isolated_iff (cwd : List (List Char)) (baseDir : UnixPath) (s t : List Char) :
    Isolated cwd baseDir s t ↔ ToldApart s t ∧ LeadApart (sessionsPlace cwd) s t := by
  have htranscripts : locate cwd (transcriptPathForSession baseDir s) ≠
      locate cwd (transcriptPathForSession baseDir t) ↔ ToldApart s t := by
    rw [← sanitize_ne_iff, locate_transcript, locate_transcript]
    simp
  constructor
  · intro h
    have hstorage := storage_apart_iff.mp h.storage
    refine ⟨htranscripts.mp h.transcripts, fun id hid => ?_, hstorage.1, hstorage.2⟩
    rw [← storage_below_iff, ← locate_sessionsDir]
    exact h.inSessionsDir id hid
  · rintro ⟨htold, hlead⟩
    refine ⟨htranscripts.mpr htold, fun id _ => ⟨_, locate_transcript⟩,
      storage_apart_iff.mpr ⟨hlead.places, hlead.files⟩, fun id hid => ?_⟩
    rw [locate_sessionsDir, storage_below_iff]
    exact hlead.below id hid

/-- Ids that are names lead to places of their own. -/
lemma leadApart_of_isName {dir : List (List Char)} (hs : IsName s) (ht : IsName t) (hne : s ≠ t) :
    LeadApart dir s t := by
  have hplace : ∀ id, IsName id → locate dir (parse id) = dir ++ [id] := by
    intro id hid
    rw [parse_of_isName hid]
    rfl
  refine ⟨fun id hid => ?_, ?_, fun name _ => ?_⟩
  · have hname : IsName id := by
      rcases List.mem_pair.mp hid with rfl | rfl
      · exact hs
      · exact ht
    exact ⟨[id], by simp, hplace id hname⟩
  · rw [hplace s hs, hplace t ht]
    simpa using hne
  · rw [hplace s hs, hplace t ht]
    constructor <;> intro h <;> simpa using congrArg List.length h

end Storage

/-- Ids of two chat front ends share a transcript. -/
theorem not_isolated_sanitized :
    ¬ ∀ (cwd : List (List Char)) (baseDir : UnixPath) (s t : List Char), s ≠ t →
      Isolated cwd baseDir s t := by
  intro hall
  refine (hall [] StoragePaths.sessionsDir "telegram:12".toList "telegram_12".toList
    (by decide +kernel)).transcripts ?_
  decide +kernel

end RustyClaw.Session
