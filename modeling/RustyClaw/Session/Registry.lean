import Mathlib.Data.List.Perm.Basic
import Mathlib.Data.List.Nodup
import RustyClaw.Library.JsonPretty
import RustyClaw.Library.JsonValue
import RustyClaw.Library.Transition
import RustyClaw.Tools.Envelope

/-!
# The registry of sessions

`SessionRegistryStore` keeps an entry for each session in a cache and a copy of the cache in the
file `sessions.json`.  A caller changes the cache under its lock, lets the lock go, takes it a
second time to clone the cache, and spawns a task that writes the clone to the file
(`persist_async`).  Nobody waits for these tasks and nothing orders them: a write opens the file,
which makes it empty, and writes its text from the start, a piece at a time.

The moves of the model are the critical sections of the callers and the system calls of the
writes.  The registry is a `HashMap`; its entries are a list without order, and a write picks the
order in which it writes them.

`registrySurvives` says which schedules are safe: those in which no write touches the file after
the write of the newest snapshot has opened it.  Then, whenever all writes have completed, the
file reads back as the cache.  `not_lastWriterWins` is a schedule of two updates that leaves the
older snapshot in the file for good.
-/

namespace RustyClaw.Registry

open Glyph Transition
open Json hiding str

/-! ## The registry -/

structure SessionEntry where
  transcriptPath : List Char
  updatedAtUnix : UInt64
  loadedTurns : UInt64
  deriving DecidableEq

/-- A `HashMap`: its entries in any order, at most one for each key. -/
structure SessionRegistry where
  sessions : List (List Char × SessionEntry)
  nodup : (sessions.map Prod.fst).Nodup

namespace SessionRegistry

variable (registry : SessionRegistry) (sessionId : List Char) (entry : SessionEntry)

def empty : SessionRegistry := ⟨[], List.nodup_nil⟩

def get : Option SessionEntry := registry.sessions.lookup sessionId

def remove : SessionRegistry where
  sessions := registry.sessions.filter fun session => session.1 ≠ sessionId
  nodup := registry.nodup.sublist (List.filter_sublist.map _)

def insert : SessionRegistry where
  sessions := (registry.remove sessionId).sessions ++ [(sessionId, entry)]
  nodup := by
    rw [List.map_append, List.nodup_append]
    refine ⟨(registry.remove sessionId).nodup, List.nodup_singleton _, ?_⟩
    intro other hother key hkey heq
    obtain rfl : key = sessionId := by simpa using hkey
    obtain ⟨session, hsession, rfl⟩ := List.mem_map.mp hother
    exact absurd heq (by simpa using (List.mem_filter.mp hsession).2)

end SessionRegistry

/-- What `touch_session` does to the registry under the lock; the clock is read twice. -/
def SessionRegistry.touch (registry : SessionRegistry) (sessionId : List Char)
    (transcriptPath : Option (List Char)) (loadedTurns : Option UInt64) (inserted now : UInt64) :
    SessionRegistry :=
  let entry := (registry.get sessionId).getD
    { transcriptPath := transcriptPath.getD []
      updatedAtUnix := inserted
      loadedTurns := loadedTurns.getD 0 }
  registry.insert sessionId
    { transcriptPath := transcriptPath.getD entry.transcriptPath
      updatedAtUnix := now
      loadedTurns := loadedTurns.getD entry.loadedTurns }

/-! ## The text of a registry -/

/-- Entries of a registry in the order in which an iteration meets them. -/
abbrev Entries := List (List Char × SessionEntry)

def SessionEntry.fields (entry : SessionEntry) : List (String × Json Char) :=
  [("transcript_path", .str entry.transcriptPath),
    ("updated_at_unix", .num (.ofInt entry.updatedAtUnix.toNat)),
    ("loaded_turns", .num (.ofInt entry.loadedTurns.toNat))]

def entriesJson (entries : Entries) : Json Char :=
  objOf [("sessions", .obj (entries.map fun session => (session.1, objOf session.2.fields)))]

/-- `serde_json::to_string_pretty` of a registry. -/
def toStringPretty (entries : Entries) : List Char := pretty 0 (entriesJson entries)

def decodeEntry (field : Lookup Char) : Option SessionEntry := do
  let transcriptPath ← requireField field "transcript_path" asStr
  let updatedAtUnix ← requireField field "updated_at_unix" readUInt64
  let loadedTurns ← requireField field "loaded_turns" readUInt64
  return { transcriptPath, updatedAtUnix, loadedTurns }

def readEntry : Json Char → Option SessionEntry :=
  readRecord ["transcript_path", "updated_at_unix", "loaded_turns"] decodeEntry

/-- A map is filled in the order of the text; a later entry for the same key replaces an earlier
one. -/
def readSessions : Json Char → Option SessionRegistry
  | .obj fields =>
    fields.foldlM (fun registry field =>
      (readEntry field.2).map (registry.insert field.1)) SessionRegistry.empty
  | _ => none

/-- `serde_json::from_str`. -/
def fromStr (content : List Char) : Option SessionRegistry :=
  (parse content).bind (readRecord ["sessions"] fun field =>
    requireField field "sessions" readSessions)

/-! ### The round trip -/

lemma readEntry_fields (entry : SessionEntry) : readEntry (objOf entry.fields) = some entry := by
  have hnodup : (entry.fields.map Prod.fst).Nodup := by simp [SessionEntry.fields]
  unfold readEntry
  rw [readRecord_objOf hnodup]
  simp [decodeEntry, SessionEntry.fields, requireField, List.lookup_cons, asStr, readUInt64_num]

lemma remove_of_not_mem {registry : SessionRegistry} {sessionId : List Char}
    (h : sessionId ∉ registry.sessions.map Prod.fst) :
    (registry.remove sessionId).sessions = registry.sessions := by
  refine List.filter_eq_self.mpr fun session hsession => ?_
  have hne : session.1 ≠ sessionId := fun heq => h (heq ▸ List.mem_map_of_mem hsession)
  simpa using hne

/-- Filling a map with entries for keys it does not have. -/
lemma foldlM_insert (entries : Entries) (registry : SessionRegistry)
    (h : ((registry.sessions ++ entries).map Prod.fst).Nodup) :
    ∃ filled, (entries.map fun session => (session.1, objOf session.2.fields)).foldlM
        (fun registry field => (readEntry field.2).map (registry.insert field.1)) registry =
          some filled ∧
      filled.sessions = registry.sessions ++ entries := by
  induction entries generalizing registry with
  | nil => exact ⟨registry, rfl, by simp⟩
  | cons session entries ih =>
    have hfresh : session.1 ∉ registry.sessions.map Prod.fst := by
      intro hmem
      rw [List.map_append, List.nodup_append] at h
      exact h.2.2 _ hmem _ (by simp) rfl
    have hinsert : (registry.insert session.1 session.2).sessions =
        registry.sessions ++ [session] := by
      show (registry.remove session.1).sessions ++ [session] = _
      rw [remove_of_not_mem hfresh]
    obtain ⟨filled, hfilled, hsessions⟩ := ih (registry.insert session.1 session.2)
      (by rw [hinsert]; simpa using h)
    refine ⟨filled, ?_, by rw [hsessions, hinsert]; simp⟩
    rw [List.map_cons, List.foldlM_cons, readEntry_fields]
    exact hfilled

lemma depth_fields (entry : SessionEntry) : depth (objOf entry.fields) = 1 := by
  simp [objOf, SessionEntry.fields, depth, depthFields]

lemma depth_entriesJson (entries : Entries) : depth (entriesJson entries) ≤ recursionLimit := by
  have hentries : depthFields (entries.map fun session => (session.1, objOf session.2.fields)) ≤
      1 := by
    induction entries with
    | nil => simp [depthFields]
    | cons session entries ih =>
      rw [List.map_cons, depthFields, depth_fields]
      exact Nat.max_le.mpr ⟨Nat.le_refl 1, ih⟩
  unfold entriesJson recursionLimit
  generalize entries.map (fun session => (session.1, objOf session.2.fields)) = fields at hentries
  simp only [objOf, List.map_cons, List.map_nil, depth, depthFields]
  omega

/-- The text of a registry reads back as the registry, in whatever order its entries are
written. -/
theorem fromStr_toStringPretty (entries : Entries) (h : (entries.map Prod.fst).Nodup) :
    ∃ registry, fromStr (toStringPretty entries) = some registry ∧
      registry.sessions = entries := by
  obtain ⟨filled, hfilled, hsessions⟩ := foldlM_insert entries SessionRegistry.empty
    (by simpa [SessionRegistry.empty] using h)
  refine ⟨filled, ?_, by rw [hsessions]; rfl⟩
  unfold fromStr toStringPretty
  rw [parse_pretty _ (depth_entriesJson entries), Option.bind_some, entriesJson,
    readRecord_objOf (by simp)]
  exact hfilled

lemma lookup_perm {entries entries' : Entries} (h : entries.Perm entries')
    (hnodup : (entries.map Prod.fst).Nodup) (sessionId : List Char) :
    entries.lookup sessionId = entries'.lookup sessionId := by
  have hlookup : ∀ {es : Entries}, (es.map Prod.fst).Nodup → ∀ entry,
      es.lookup sessionId = some entry ↔ (sessionId, entry) ∈ es := by
    intro es hes entry
    induction es with
    | nil => simp
    | cons session es ih =>
      rw [List.map_cons, List.nodup_cons] at hes
      rw [List.lookup_cons]
      by_cases hkey : sessionId = session.1
      · have hbeq : (sessionId == session.1) = true := by simpa using hkey
        have habsent : ∀ e, (sessionId, e) ∉ es := fun e hmem =>
          hes.1 (hkey ▸ List.mem_map_of_mem (f := Prod.fst) hmem)
        simp only [hbeq, Option.some.injEq, List.mem_cons, habsent, or_false]
        constructor
        · rintro rfl
          rw [hkey]
        · intro heq
          rw [← heq]
      · have hbeq : (sessionId == session.1) = false := by simpa using hkey
        have hne : (sessionId, entry) ≠ session := fun heq => hkey (by rw [← heq])
        simp only [hbeq, List.mem_cons, hne, false_or]
        exact ih hes.2
  refine Option.ext fun entry => ?_
  rw [hlookup hnodup, hlookup ((h.map _).nodup_iff.mp hnodup), h.mem_iff]

/-! ## The store -/

/-- How far an asynchronous write has come. -/
inductive Progress where
  | spawned
  /-- the file is open, and `written` characters of the text are in it -/
  | opened (order : Entries) (written : Nat)
  | completed (order : Entries)

/-- A task that `persist_async` spawned. -/
structure Write where
  snapshot : SessionRegistry
  progress : Progress := .spawned

structure SessionRegistryStore where
  cache : SessionRegistry
  file : Option (List Char)
  /-- callers that have changed the cache and not yet called `persist_async` -/
  persisting : Nat := 0
  /-- the writes in the order in which they were spawned -/
  writes : List Write := []

def SessionRegistryStore.new (file : Option (List Char)) : SessionRegistryStore where
  cache := (file.bind fromStr).getD SessionRegistry.empty
  file := file

/-- `fs::write` at an offset: a gap between the end of the file and the offset reads as zeros. -/
def writeAt (content : List Char) (offset : Nat) (data : List Char) : List Char :=
  content.take offset ++ List.replicate (offset - content.length) '\x00' ++ data ++
    content.drop (offset + data.length)

inductive RegistryMove where
  | touchSession (sessionId : List Char) (transcriptPath : Option (List Char))
      (loadedTurns : Option UInt64) (inserted now : UInt64)
  | removeSession (sessionId : List Char)
  | persistAsync
  /-- `File::create`, with the order in which the snapshot was serialized -/
  | openFile (task : Nat) (order : Entries)
  /-- the next `count` characters -/
  | writeChars (task count : Nat)
  | complete (task : Nat)

def SessionRegistryStore.setProgress (store : SessionRegistryStore) (task : Nat) (write : Write)
    (progress : Progress) : SessionRegistryStore :=
  { store with writes := store.writes.set task { write with progress } }

def registryStep (store : SessionRegistryStore) : RegistryMove → Option SessionRegistryStore
  | .touchSession sessionId transcriptPath loadedTurns inserted now =>
    some { store with
      cache := store.cache.touch sessionId transcriptPath loadedTurns inserted now
      persisting := store.persisting + 1 }
  | .removeSession sessionId =>
    some { store with
      cache := store.cache.remove sessionId
      persisting := store.persisting + 1 }
  | .persistAsync =>
    if 0 < store.persisting then
      some { store with
        persisting := store.persisting - 1
        writes := store.writes ++ [{ snapshot := store.cache }] }
    else none
  | .openFile task order =>
    match store.writes[task]? with
    | some write =>
      match write.progress with
      | .spawned =>
        if order.Perm write.snapshot.sessions then
          some { store.setProgress task write (.opened order 0) with file := some [] }
        else none
      | _ => none
    | none => none
  | .writeChars task count =>
    match store.writes[task]? with
    | some write =>
      match write.progress with
      | .opened order written =>
        let data := ((toStringPretty order).drop written).take count
        if data = [] then none
        else
          some { store.setProgress task write (.opened order (written + data.length)) with
            file := some (writeAt (store.file.getD []) written data) }
      | _ => none
    | none => none
  | .complete task =>
    match store.writes[task]? with
    | some write =>
      match write.progress with
      | .opened order written =>
        if (toStringPretty order).length ≤ written then
          some (store.setProgress task write (.completed order))
        else none
      | _ => none
    | none => none

/-! ## Persistence -/

def Progress.isSpawned : Progress → Bool
  | .spawned => true
  | _ => false

def Progress.isCompleted : Progress → Bool
  | .completed _ => true
  | _ => false

/-- There were updates, and everything they have spawned has completed. -/
def Settled (store : SessionRegistryStore) : Prop :=
  store.writes ≠ [] ∧ store.persisting = 0 ∧
    ∀ write ∈ store.writes, write.progress.isCompleted = true

/-- The file reads back as the cache. -/
def Persisted (store : SessionRegistryStore) : Prop :=
  ∃ content registry, store.file = some content ∧ fromStr content = some registry ∧
    ∀ sessionId, registry.get sessionId = store.cache.get sessionId

/-- The task whose write touches the file. -/
def RegistryMove.touches : RegistryMove → Option Nat
  | .openFile task _ => some task
  | .writeChars task _ => some task
  | _ => none

/-- The write of the newest snapshot has not opened the file yet. -/
def newestWaits (store : SessionRegistryStore) : Bool :=
  match store.writes.getLast? with
  | some write => write.progress.isSpawned
  | none => true

/-- No write but the newest touches the file after the newest has opened it. -/
def KeepsNewest (store : SessionRegistryStore) (move : RegistryMove) : Prop :=
  ∀ task ∈ move.touches, task + 1 = store.writes.length ∨ newestWaits store = true

instance (store : SessionRegistryStore) (move : RegistryMove) :
    Decidable (KeepsNewest store move) :=
  inferInstanceAs (Decidable (∀ task ∈ move.touches, _))

/-- What the file holds when `write` was the last to open it. -/
def FileOf (file : Option (List Char)) (write : Write) : Prop :=
  match write.progress with
  | .spawned => True
  | .opened order written =>
    order.Perm write.snapshot.sessions ∧ written ≤ (toStringPretty order).length ∧
      file = some ((toStringPretty order).take written)
  | .completed order =>
    order.Perm write.snapshot.sessions ∧ file = some (toStringPretty order)

/-- The newest snapshot is the cache, up to updates that are still to be persisted, and the file
holds what the newest write has written. -/
structure Tracked (store : SessionRegistryStore) : Prop where
  snapshot : store.persisting = 0 → ∀ write, store.writes.getLast? = some write →
    write.snapshot = store.cache
  file : ∀ write, store.writes.getLast? = some write → FileOf store.file write

/-! ### What a step keeps -/

section Steps

variable {store store' : SessionRegistryStore} {task : Nat} {write : Write}

lemma getLast?_set (writes : List Write) (hwrite : writes[task]? = some write) (other : Write) :
    (writes.set task other).getLast? =
      if task + 1 = writes.length then some other else writes.getLast? := by
  have hlt : task < writes.length := by
    by_contra hge
    rw [List.getElem?_eq_none (Nat.le_of_not_lt hge)] at hwrite
    cases hwrite
  rw [List.getLast?_eq_getElem?, List.getLast?_eq_getElem?, List.length_set, List.getElem?_set]
  by_cases hlast : task + 1 = writes.length
  · have htask : task = writes.length - 1 := by omega
    rw [if_pos hlast, if_pos htask, if_pos hlt]
  · have htask : task ≠ writes.length - 1 := by omega
    rw [if_neg hlast, if_neg htask]

lemma fileOf_of_newestWaits {newest : Write} (hnewest : store.writes.getLast? = some newest)
    (hwaits : newestWaits store = true) (file : Option (List Char)) : FileOf file newest := by
  have hspawned : newest.progress.isSpawned = true := by
    unfold newestWaits at hwaits
    rwa [hnewest] at hwaits
  unfold FileOf
  cases hprogress : newest.progress with
  | spawned => trivial
  | opened order written =>
    rw [hprogress] at hspawned
    cases hspawned
  | completed order =>
    rw [hprogress] at hspawned
    cases hspawned

/-- A write that goes on tracks the file, if it is the newest, or the newest waits, or it leaves the
file as it is. -/
lemma Tracked.setProgress (h : Tracked store) (hwrite : store.writes[task]? = some write)
    {progress : Progress} {file : Option (List Char)}
    (hother : task + 1 = store.writes.length ∨ newestWaits store = true ∨ file = store.file)
    (hfile : FileOf store.file write → FileOf file { write with progress }) :
    Tracked { store.setProgress task write progress with file := file } := by
  have hold : task + 1 = store.writes.length → store.writes.getLast? = some write := by
    intro hlast
    rw [List.getLast?_eq_getElem?, show store.writes.length - 1 = task by omega, hwrite]
  constructor
  · intro hidle newest hnewest
    simp only [SessionRegistryStore.setProgress, getLast?_set _ hwrite] at hnewest hidle ⊢
    by_cases hlast : task + 1 = store.writes.length
    · rw [if_pos hlast, Option.some.injEq] at hnewest
      rw [← hnewest]
      exact h.snapshot hidle write (hold hlast)
    · rw [if_neg hlast] at hnewest
      exact h.snapshot hidle newest hnewest
  · intro newest hnewest
    simp only [SessionRegistryStore.setProgress, getLast?_set _ hwrite] at hnewest ⊢
    by_cases hlast : task + 1 = store.writes.length
    · rw [if_pos hlast, Option.some.injEq] at hnewest
      rw [← hnewest]
      exact hfile (h.file write (hold hlast))
    · rw [if_neg hlast] at hnewest
      rcases hother with hlast' | hwaits | hsame
      · exact absurd hlast' hlast
      · exact fileOf_of_newestWaits hnewest hwaits file
      · rw [hsame]
        exact h.file newest hnewest

/-- Writing on at the end of what is written. -/
lemma writeAt_take (text : List Char) (written count : Nat) (h : written ≤ text.length) :
    writeAt (text.take written) written ((text.drop written).take count) =
      text.take (written + ((text.drop written).take count).length) := by
  have hlength : (text.take written).length = written := by rw [List.length_take]; omega
  have hgap : List.replicate (written - (text.take written).length) '\x00' = [] := by
    rw [hlength, Nat.sub_self]
    rfl
  have hrest : (text.take written).drop (written + ((text.drop written).take count).length) =
      [] := by
    rw [List.drop_eq_nil_iff, hlength]
    omega
  unfold writeAt
  rw [hgap, hrest, List.append_nil, List.append_nil, List.take_of_length_le hlength.le,
    List.take_add, List.length_take]
  congr 1
  by_cases hcount : count ≤ (text.drop written).length
  · rw [Nat.min_eq_left hcount]
  · rw [Nat.min_eq_right (by omega), List.take_of_length_le (by omega : _ ≤ count),
      List.take_length]

/-- An update leaves the writes and the file alone; its own `persist_async` is still to come. -/
lemma Tracked.update (h : Tracked store) (cache : SessionRegistry) :
    Tracked { store with cache := cache, persisting := store.persisting + 1 } where
  snapshot hidle := absurd hidle (Nat.succ_ne_zero _)
  file := h.file

/-- `persist_async` clones the cache as it is. -/
lemma tracked_persistAsync :
    Tracked { store with
      persisting := store.persisting - 1
      writes := store.writes ++ [{ snapshot := store.cache }] } where
  snapshot _ newest hnewest := by
    rw [List.getLast?_append, List.getLast?_singleton, Option.some_or, Option.some.injEq] at hnewest
    rw [← hnewest]
  file newest hnewest := by
    rw [List.getLast?_append, List.getLast?_singleton, Option.some_or, Option.some.injEq] at hnewest
    rw [← hnewest]
    exact trivial

lemma tracked_step (h : Tracked store) {move : RegistryMove} (hkeeps : KeepsNewest store move)
    (hstep : registryStep store move = some store') : Tracked store' := by
  cases move with
  | touchSession sessionId transcriptPath loadedTurns inserted now =>
    cases hstep
    exact h.update _
  | removeSession sessionId =>
    cases hstep
    exact h.update _
  | persistAsync =>
    simp only [registryStep] at hstep
    split at hstep
    · cases hstep
      exact tracked_persistAsync
    · cases hstep
  | openFile task order =>
    simp only [registryStep] at hstep
    split at hstep <;> try cases hstep
    rename_i write hwrite
    split at hstep <;> try cases hstep
    split at hstep <;> cases hstep
    rename_i hperm
    refine h.setProgress hwrite (or_assoc.mp (.inl (hkeeps task rfl))) fun _ => ?_
    exact ⟨hperm, Nat.zero_le _, rfl⟩
  | writeChars task count =>
    simp only [registryStep] at hstep
    split at hstep <;> try cases hstep
    rename_i write hwrite
    split at hstep <;> try cases hstep
    rename_i order written hprogress
    split at hstep <;> cases hstep
    refine h.setProgress hwrite (or_assoc.mp (.inl (hkeeps task rfl))) fun hfile => ?_
    unfold FileOf at hfile
    rw [hprogress] at hfile
    obtain ⟨hperm, hwritten, hfile⟩ := hfile
    rw [hfile]
    refine ⟨hperm, ?_, congrArg some (writeAt_take _ _ _ hwritten)⟩
    rw [List.length_take, List.length_drop]
    omega
  | complete task =>
    simp only [registryStep] at hstep
    split at hstep <;> try cases hstep
    rename_i write hwrite
    split at hstep <;> try cases hstep
    rename_i order written hprogress
    split at hstep <;> cases hstep
    rename_i hlength
    refine h.setProgress hwrite (.inr (.inr rfl)) fun hfile => ?_
    unfold FileOf at hfile
    rw [hprogress] at hfile
    obtain ⟨hperm, -, hfile⟩ := hfile
    rw [List.take_of_length_le hlength] at hfile
    exact ⟨hperm, hfile⟩

end Steps

lemma tracked_new (file : Option (List Char)) : Tracked (SessionRegistryStore.new file) where
  snapshot := by
    intro _ write hwrite
    cases hwrite
  file := by
    intro write hwrite
    cases hwrite

lemma Tracked.persisted {store : SessionRegistryStore} (h : Tracked store)
    (hsettled : Settled store) : Persisted store := by
  obtain ⟨hwrites, hidle, hcompleted⟩ := hsettled
  have hnewest := List.getLast?_eq_some_getLast hwrites
  generalize store.writes.getLast hwrites = newest at hnewest
  have hfile := h.file newest hnewest
  have hdone := hcompleted newest (List.mem_of_getLast? hnewest)
  unfold FileOf at hfile
  cases hprogress : newest.progress with
  | spawned =>
    rw [hprogress] at hdone
    cases hdone
  | opened order written =>
    rw [hprogress] at hdone
    cases hdone
  | completed order =>
    rw [hprogress] at hfile
    obtain ⟨hperm, hfile⟩ := hfile
    have hnodup := (hperm.map Prod.fst).nodup_iff.mpr newest.snapshot.nodup
    obtain ⟨registry, hread, hsessions⟩ := fromStr_toStringPretty order hnodup
    refine ⟨_, registry, hfile, hread, fun sessionId => ?_⟩
    rw [← h.snapshot hidle newest hnewest]
    unfold SessionRegistry.get
    rw [hsessions]
    exact lookup_perm hperm hnodup sessionId

/-- Where no write touches the file after the write of the newest snapshot has opened it, the file
reads back as the cache whenever everything has completed. -/
theorem registrySurvives {file : Option (List Char)} {moves : List RegistryMove}
    {store : SessionRegistryStore}
    (hrun : run registryStep (SessionRegistryStore.new file) moves = some store)
    (hkeeps : Along registryStep KeepsNewest (SessionRegistryStore.new file) moves)
    (hsettled : Settled store) : Persisted store := by
  have htracked : Tracked store :=
    run_invariant_of_along Tracked (fun _ _ _ h hP hstep => tracked_step h hP hstep)
      (tracked_new file) hkeeps hrun
  exact htracked.persisted hsettled

/-! ### Two updates of one session -/

/-- A session is made at time 0 and looked up again at time 1. -/
def twoUpdates : List RegistryMove :=
  [.touchSession ['s'] (some ['p']) (some 0) 0 0, .persistAsync,
    .touchSession ['s'] none none 1 1, .persistAsync]

/-- The one entry of the registry at a time. -/
def entryAt (now : UInt64) : Entries :=
  [(['s'], { transcriptPath := ['p'], updatedAtUnix := now, loadedTurns := 0 })]

/-- A write from beginning to end. -/
def wholeWrite (task : Nat) (now : UInt64) : List RegistryMove :=
  [.openFile task (entryAt now), .writeChars task 1000, .complete task]

/-- What the properties look at. -/
structure Observation where
  file : Option (List Char)
  persisting : Nat
  completed : List Bool
  cache : Entries
  deriving DecidableEq

def SessionRegistryStore.observe (store : SessionRegistryStore) : Observation where
  file := store.file
  persisting := store.persisting
  completed := store.writes.map fun write => write.progress.isCompleted
  cache := store.cache.sessions

lemma settled_of_observe {store : SessionRegistryStore} {file : Option (List Char)}
    {entries : Entries} (h : store.observe = ⟨file, 0, [true, true], entries⟩) :
    Settled store := by
  simp only [SessionRegistryStore.observe, Observation.mk.injEq] at h
  obtain ⟨-, hidle, hwrites, -⟩ := h
  refine ⟨?_, hidle, fun write hwrite => ?_⟩
  · rintro hnil
    rw [hnil] at hwrites
    cases hwrites
  · have hmem : write.progress.isCompleted ∈ store.writes.map (·.progress.isCompleted) :=
      List.mem_map_of_mem (f := fun write : Write => write.progress.isCompleted) hwrite
    rw [hwrites] at hmem
    simpa using hmem

/-- The writes in the order of the updates. -/
theorem registrySurvives_inOrder :
    ∃ store, run registryStep (SessionRegistryStore.new none)
        (twoUpdates ++ wholeWrite 0 0 ++ wholeWrite 1 1) = some store ∧ Persisted store := by
  have hobserve : (run registryStep (SessionRegistryStore.new none)
      (twoUpdates ++ wholeWrite 0 0 ++ wholeWrite 1 1)).map SessionRegistryStore.observe =
        some ⟨some (toStringPretty (entryAt 1)), 0, [true, true], entryAt 1⟩ := by
    decide +kernel
  obtain ⟨store, hrun, hstore⟩ := Option.map_eq_some_iff.mp hobserve
  exact ⟨store, hrun, registrySurvives hrun (by decide +kernel) (settled_of_observe hstore)⟩

/-- The older snapshot is written last. -/
theorem not_lastWriterWins :
    ¬ ∀ (file : Option (List Char)) (moves : List RegistryMove) (store : SessionRegistryStore),
      run registryStep (SessionRegistryStore.new file) moves = some store → Settled store →
        Persisted store := by
  intro hclaim
  have hobserve : (run registryStep (SessionRegistryStore.new none)
      (twoUpdates ++ wholeWrite 1 1 ++ wholeWrite 0 0)).map SessionRegistryStore.observe =
        some ⟨some (toStringPretty (entryAt 0)), 0, [true, true], entryAt 1⟩ := by
    decide +kernel
  obtain ⟨store, hrun, hstore⟩ := Option.map_eq_some_iff.mp hobserve
  obtain ⟨content, registry, hfile, hread, hget⟩ :=
    hclaim none _ store hrun (settled_of_observe hstore)
  simp only [SessionRegistryStore.observe, Observation.mk.injEq] at hstore
  obtain ⟨hcontent, -, -, hcache⟩ := hstore
  obtain rfl := Option.some.inj (hcontent.symm.trans hfile)
  obtain ⟨older, holder, hsessions⟩ :=
    fromStr_toStringPretty (entryAt 0) (by decide)
  obtain rfl := Option.some.inj (holder.symm.trans hread)
  have hentry := hget ['s']
  unfold SessionRegistry.get at hentry
  rw [hsessions, hcache] at hentry
  exact absurd hentry (by decide)

end RustyClaw.Registry
