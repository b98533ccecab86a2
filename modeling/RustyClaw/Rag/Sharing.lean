import RustyClaw.Library.Transition
import RustyClaw.Rag.Search

/-!
# The memory between threads

Every call of `insert_chunk` and `search` (`rag.rs`) runs on a thread of its own.  The threads share
the embedding model, the connection to the database and the chunks in memory, each behind a lock.  A
model that panics leaves its lock poisoned.  The process can end at any time, and the next one loads
its chunks from the table.

* `found_of_run`: in every interleaving a search gives what the search of `Rag.Search` gives in a
  store that was built by the inserts one after another, with the keyword hits of an earlier one of
  these stores, and it sees every chunk that was in memory when it began.
* `stored_of_run`: no insert is lost and none is made twice, whatever the interleaving and however
  often the process ends.
* `progress`: as long as there is a call that has not ended, one of them can go on, and a call has
  only a bounded number of steps to go.

A chunk is in the table before it is in memory, so a search could have a keyword hit that it does
not find in memory; it does not, because an insert keeps the connection until it has done both.
-/

namespace RustyClaw.Rag

open Transition

variable {K : Type}

/-! ## The threads -/

/-- What is not decided here: the similarity of a chunk to a query, what is read of an embedding
that was written to the table, the keyword index, and whether a thread that waits to write keeps
others from reading. -/
structure Environment (K : Type) where
  similarity : List K → List K → K
  reload : List K → List K
  keywords : List (Int × List Char) → List Char → KeywordHits K
  /-- the rows that are found are rows of the index -/
  sound : ∀ index query, ∀ row ∈ (keywords index query).rows, row.1 ∈ index.map Prod.fst
  writersFirst : Bool

inductive Request where
  | insert (content source : List Char)
  | search (query : List Char) (limit : ℕ)

/-- How far a call has come, with what it holds:
`embedding` the model, `connected`, `inserted` and `caching` the connection, `caching` also the
chunks for writing, `scanning` the chunks for reading. -/
inductive Phase (K : Type) where
  | begun | embedding
  | embedded (embedding : List K)
  | connected (embedding : List K)
  | inserted (chunk : RagChunk K)
  | caching (chunk : RagChunk K)
  | matched (embedding : List K) (hits : KeywordHits K)
  | scanning (embedding : List K) (hits : KeywordHits K)
  | stored (chunk : RagChunk K)
  | found (embedding : List K) (results : List (RagChunk K × K))
  | failed
  /-- the process has ended -/
  | lost

structure Task (K : Type) where
  request : Request
  phase : Phase K

/-- What the threads share. -/
structure Shared (K : Type) where
  /-- the table `chunks` -/
  rows : List (RagChunk K)
  /-- the table `chunks_fts` -/
  index : List (Int × List Char)
  lastRowid : Int
  /-- the chunks in memory -/
  chunks : List (RagChunk K)
  poisoned : Bool

structure Memory (K : Type) where
  shared : Shared K
  tasks : List (Task K)

inductive Embedding (K : Type) where
  | ok (embedding : List K)
  | err
  | panic

/-- How the keyword query goes: the statement is not prepared, the query is refused, or it is
answered. -/
inductive Query where
  | unprepared | refused | answered

inductive Action (K : Type) where
  | lockModel
  | embed (result : Embedding K)
  | lockConn
  | execute (ok : Bool)
  | query (result : Query)
  | lockChunks
  | finish

inductive Move (K : Type) where
  | begin (request : Request)
  | task (i : ℕ) (action : Action K)
  | restart

namespace Phase

def holdsModel : Phase K → Bool
  | .embedding => true
  | _ => false

def holdsConn : Phase K → Bool
  | .connected _ | .inserted _ | .caching _ => true
  | _ => false

def reads : Phase K → Bool
  | .scanning _ _ => true
  | _ => false

def writes : Phase K → Bool
  | .caching _ => true
  | _ => false

def waitsToWrite : Phase K → Bool
  | .inserted _ => true
  | _ => false

/-- A row that is in the table, but not in memory. -/
def pendingChunk : Phase K → Option (RagChunk K)
  | .inserted chunk | .caching chunk => some chunk
  | _ => none

def isPending (phase : Phase K) : Bool := phase.pendingChunk.isSome

/-- The row of an insert that has written it. -/
def written : Phase K → Option (RagChunk K)
  | .inserted chunk | .caching chunk | .stored chunk => some chunk
  | _ => none

def isFinished : Phase K → Bool
  | .stored _ | .found _ _ | .failed | .lost => true
  | _ => false

/-- A call that needs nothing that another call holds. -/
def isRunning : Phase K → Bool
  | .embedding | .connected _ | .caching _ | .scanning _ _ => true
  | _ => false

/-- The calls that never wait for a call that waits. -/
def goesFirst (phase : Phase K) : Bool := phase.isRunning || phase.waitsToWrite

/-- The steps a call has before it, at most. -/
def stepsLeft : Phase K → ℕ
  | .begun => 6
  | .embedding => 5
  | .embedded _ => 4
  | .connected _ => 3
  | .inserted _ | .matched _ _ => 2
  | .caching _ | .scanning _ _ => 1
  | .stored _ | .found _ _ | .failed | .lost => 0

end Phase

/-! ## Stores built by inserts one after another -/

/-- What an insert adds. -/
structure Note (K : Type) where
  content : List Char
  source : List Char
  embedding : List K

def RagChunk.note (chunk : RagChunk K) : Note K := ⟨chunk.content, chunk.source, chunk.embedding⟩

/-- The store after the inserts. -/
def storeOf (notes : List (Note K)) : VectorStore K :=
  notes.foldl (fun store note => store.insertChunk note.content note.source note.embedding) .empty

/-- The keyword index of the store. -/
def indexOf (notes : List (Note K)) : List (Int × List Char) :=
  (storeOf notes).chunks.map fun chunk => (chunk.id, chunk.content)

/-- The first of the notes have been loaded from the table. -/
def asLoaded (env : Environment K) (loaded : ℕ) (notes : List (Note K)) : List (Note K) :=
  (notes.take loaded).map (fun note => { note with embedding := env.reload note.embedding }) ++
    notes.drop loaded

lemma storeOf_concat (notes : List (Note K)) (note : Note K) : storeOf (notes ++ [note]) =
    (storeOf notes).insertChunk note.content note.source note.embedding := by
  rw [storeOf, List.foldl_append]
  rfl

lemma lastRowid_storeOf (notes : List (Note K)) : (storeOf notes).lastRowid = notes.length := by
  induction notes using List.reverseRecOn with
  | nil => rfl
  | append_singleton notes note ih =>
    rw [storeOf_concat, VectorStore.lastRowid_insertChunk, ih, List.length_append,
      List.length_singleton, Int.natCast_add]
    rfl

/-- The ids are the positions, from one on. -/
lemma chunks_storeOf (notes : List (Note K)) : (storeOf notes).chunks =
    notes.mapIdx fun i note => ⟨i + 1, note.content, note.source, note.embedding⟩ := by
  induction notes using List.reverseRecOn with
  | nil => rfl
  | append_singleton notes note ih =>
    rw [storeOf_concat, VectorStore.chunks_insertChunk, ih, lastRowid_storeOf, List.mapIdx_concat]

lemma length_chunks_storeOf (notes : List (Note K)) :
    (storeOf notes).chunks.length = notes.length := by
  rw [chunks_storeOf, List.length_mapIdx]

lemma length_asLoaded (env : Environment K) (loaded : ℕ) (notes : List (Note K)) :
    (asLoaded env loaded notes).length = notes.length := by
  rw [asLoaded, List.length_append, List.length_map, ← List.length_append, List.take_append_drop]

lemma asLoaded_concat (env : Environment K) {loaded : ℕ} {notes : List (Note K)}
    (h : loaded ≤ notes.length) (note : Note K) :
    asLoaded env loaded (notes ++ [note]) = asLoaded env loaded notes ++ [note] := by
  rw [asLoaded, List.take_append_of_le_length h, List.drop_append_of_le_length h, asLoaded,
    List.append_assoc]

/-! ## Steps -/

variable [Field K] [LinearOrder K]

/-- The query that is given to the keyword index. -/
def ftsQuery (query : List Char) : List Char :=
  '"' :: query.filter (fun c => c ≠ '"' && c ≠ '\'') ++ ['"']

def noHits : KeywordHits K where
  rows := []
  nodup := List.nodup_nil
  atMost := Nat.zero_le _

lemma searchBlocking_eq_scan (similarity : List K → K) (store : VectorStore K)
    (hits : KeywordHits K) (limit : ℕ) :
    searchBlocking similarity store hits limit = scan similarity store.chunks hits limit := rfl

namespace Memory

variable (env : Environment K)

def any (s : Memory K) (p : Phase K → Bool) : Bool := s.tasks.any fun task => p task.phase

/-- The row of an insert, with the next id. -/
def newChunk (shared : Shared K) (content source : List Char) (embedding : List K) : RagChunk K :=
  ⟨shared.lastRowid + 1, content, source, embedding⟩

/-- The statement with its trigger. -/
def insertRow (shared : Shared K) (chunk : RagChunk K) : Shared K :=
  { shared with
    rows := shared.rows ++ [chunk]
    index := shared.index ++ [(chunk.id, chunk.content)]
    lastRowid := shared.lastRowid + 1 }

/-- The similarity to a longer embedding than that of the query panics. -/
def search (shared : Shared K) (embedding : List K) (hits : KeywordHits K) (limit : ℕ) : Phase K :=
  if shared.chunks.any fun chunk => embedding.length < chunk.embedding.length then .failed
  else .found embedding (scan (fun chunk => env.similarity chunk embedding) shared.chunks hits limit)

/-- A step of a call: its next phase, and what it does to what is shared. -/
def act (s : Memory K) (request : Request) : Phase K → Action K → Option (Phase K × Shared K)
  | .begun, .lockModel =>
    if s.any Phase.holdsModel then none
    else some (if s.shared.poisoned then .failed else .embedding, s.shared)
  | .embedding, .embed (.ok embedding) => some (.embedded embedding, s.shared)
  | .embedding, .embed .err => some (.failed, s.shared)
  | .embedding, .embed .panic => some (.failed, { s.shared with poisoned := true })
  | .embedded embedding, .lockConn =>
    if s.any Phase.holdsConn then none else some (.connected embedding, s.shared)
  | .connected embedding, .execute ok =>
    match request with
    | .insert content source =>
      let chunk := newChunk s.shared content source embedding
      some (if ok then (.inserted chunk, insertRow s.shared chunk) else (.failed, s.shared))
    | .search _ _ => none
  | .connected embedding, .query result =>
    match request with
    | .insert _ _ => none
    | .search text _ =>
      match result with
      | .unprepared => some (.failed, s.shared)
      | .refused => some (.matched embedding noHits, s.shared)
      | .answered => some (.matched embedding (env.keywords s.shared.index (ftsQuery text)), s.shared)
  | .inserted chunk, .lockChunks =>
    if s.any Phase.writes || s.any Phase.reads then none else some (.caching chunk, s.shared)
  | .matched embedding hits, .lockChunks =>
    if s.any Phase.writes || (env.writersFirst && s.any Phase.waitsToWrite) then none
    else some (.scanning embedding hits, s.shared)
  | .caching chunk, .finish =>
    some (.stored chunk, { s.shared with chunks := s.shared.chunks ++ [chunk] })
  | .scanning embedding hits, .finish =>
    match request with
    | .insert _ _ => none
    | .search _ limit => some (search env s.shared embedding hits limit, s.shared)
  | _, _ => none

/-- A row as it is loaded from the table. -/
def load (chunk : RagChunk K) : RagChunk K :=
  { chunk with embedding := env.reload chunk.embedding }

/-- The process ends, and the next one loads its chunks from the table. -/
def restart (s : Memory K) : Memory K where
  shared := { s.shared with chunks := s.shared.rows.map (load env), poisoned := false }
  tasks := s.tasks.map fun task =>
    if task.phase.isFinished then task else { task with phase := .lost }

def step (s : Memory K) : Move K → Option (Memory K)
  | .begin request => some { s with tasks := s.tasks ++ [⟨request, .begun⟩] }
  | .restart => some (s.restart env)
  | .task i action =>
    match s.tasks[i]? with
    | none => none
    | some task => (s.act env task.request task.phase action).map fun next =>
      { shared := next.2, tasks := s.tasks.set i { task with phase := next.1 } }

/-- An empty database. -/
def start : Memory K where
  shared := { rows := [], index := [], lastRowid := 0, chunks := [], poisoned := false }
  tasks := []

end Memory

/-! ## What holds in every interleaving -/

namespace Memory

variable {env : Environment K} {s t : Memory K}

/-- The notes in the table. -/
def log (s : Memory K) : List (Note K) := s.shared.rows.map RagChunk.note

/-- The hits are none, or those in an index of the inserts so far. -/
def Hits (env : Environment K) (notes : List (Note K)) (n : ℕ) (text : List Char)
    (hits : KeywordHits K) : Prop :=
  hits = noHits ∨ hits = env.keywords (indexOf (notes.take n)) (ftsQuery text)

/-- The results are those of a search in the store after `m` of the inserts, with hits in the index
after `n` of them; the store has a chunk for each of the hits. -/
def Answers (env : Environment K) (notes : List (Note K)) (since : ℕ) (text : List Char)
    (limit : ℕ) (embedding : List K) (results : List (RagChunk K × K)) : Prop :=
  ∃ n m loaded hits, since ≤ n ∧ n ≤ m ∧ m ≤ notes.length ∧ loaded ≤ m ∧
    Hits env notes n text hits ∧
    (∀ hit ∈ hits.rows, ∃ chunk ∈ (storeOf (asLoaded env loaded (notes.take m))).chunks,
      chunk.id = hit.1) ∧
    results = searchBlocking (fun chunk => env.similarity chunk embedding)
      (storeOf (asLoaded env loaded (notes.take m))) hits limit

/-- What a call has seen, when it began with `since` chunks in memory. -/
def Seen (env : Environment K) (s : Memory K) (since : ℕ) (task : Task K) : Prop :=
  match task.phase with
  | .inserted chunk | .caching chunk => task.request = .insert chunk.content chunk.source
  | .matched _ hits | .scanning _ hits =>
    ∃ text limit n, task.request = .search text limit ∧ since ≤ n ∧
      n ≤ s.shared.chunks.length ∧ Hits env s.log n text hits
  | .stored chunk => task.request = .insert chunk.content chunk.source ∧
      ∃ i < s.shared.chunks.length, s.shared.rows[i]? = some chunk
  | .found embedding results =>
    ∃ text limit, task.request = .search text limit ∧
      Answers env s.log since text limit embedding results
  | _ => True

/-- What is shared agrees with the inserts one after another; the calls from number `first` on
began with at least `since` chunks in memory. -/
structure Agrees (env : Environment K) (first since : ℕ) (s : Memory K) : Prop where
  rows : s.shared.rows = (storeOf s.log).chunks
  lastRowid : s.shared.lastRowid = s.shared.rows.length
  index : s.shared.index = indexOf s.log
  chunks : ∃ loaded ≤ s.shared.chunks.length, s.shared.chunks =
    (storeOf (asLoaded env loaded (s.log.take s.shared.chunks.length))).chunks
  length : s.shared.rows.length =
    s.shared.chunks.length + s.tasks.countP fun task => task.phase.isPending
  conn : (s.tasks.countP fun task => task.phase.holdsConn) ≤ 1
  pending : ∀ task ∈ s.tasks, ∀ chunk, task.phase.pendingChunk = some chunk →
    s.shared.rows.getLast? = some chunk
  since_le : since ≤ s.shared.chunks.length
  seen : ∀ i task, s.tasks[i]? = some task → Seen env s (if first ≤ i then since else 0) task
  asked : ∀ chunk ∈ s.shared.rows, .insert chunk.content chunk.source ∈ s.tasks.map Task.request
  apart : ∀ (i j : ℕ) (task other : Task K), s.tasks[i]? = some task → s.tasks[j]? = some other →
    ∀ chunk, task.phase.written = some chunk → other.phase.written = some chunk → i = j

/-! ### What a step does -/

/-- A step that changes no rows and no chunks. -/
inductive Turns (env : Environment K) (s : Memory K) : Request → Phase K → Phase K → Prop where
  | embedding {request} : Turns env s request .begun .embedding
  | failed {request phase} (h : phase.pendingChunk = none) (hrunning : phase.isFinished = false) :
      Turns env s request phase .failed
  | embedded {request} (embedding) : Turns env s request .embedding (.embedded embedding)
  | connected {request} (embedding) (h : s.any Phase.holdsConn = false) :
      Turns env s request (.embedded embedding) (.connected embedding)
  | refused (text limit embedding) :
      Turns env s (.search text limit) (.connected embedding) (.matched embedding noHits)
  | answered (text limit embedding) :
      Turns env s (.search text limit) (.connected embedding)
        (.matched embedding (env.keywords s.shared.index (ftsQuery text)))
  | caching {request} (chunk) : Turns env s request (.inserted chunk) (.caching chunk)
  | scanning {request} (embedding hits) :
      Turns env s request (.matched embedding hits) (.scanning embedding hits)
  | found (text limit embedding hits) :
      Turns env s (.search text limit) (.scanning embedding hits)
        (.found embedding (scan (fun chunk => env.similarity chunk embedding) s.shared.chunks hits
          limit))

/-- What a step of a call can be. -/
inductive Acts (env : Environment K) (s : Memory K) :
    Request → Phase K → Phase K → Shared K → Prop where
  | turn {request phase phase'} (poisoned : Bool) (h : Turns env s request phase phase') :
      Acts env s request phase phase' { s.shared with poisoned }
  | insert (content source embedding) :
      Acts env s (.insert content source) (.connected embedding)
        (.inserted (newChunk s.shared content source embedding))
        (insertRow s.shared (newChunk s.shared content source embedding))
  | cache {request} (chunk) :
      Acts env s request (.caching chunk) (.stored chunk)
        { s.shared with chunks := s.shared.chunks ++ [chunk] }

lemma acts_of_act {request : Request} {phase phase' : Phase K} {action : Action K}
    {shared : Shared K} (h : s.act env request phase action = some (phase', shared)) :
    Acts env s request phase phase' shared := by
  unfold act at h
  split at h
  · split_ifs at h with hmodel hpoisoned
    · cases h
      exact .turn _ (.failed rfl rfl)
    · cases h
      exact .turn _ .embedding
  · cases h
    exact .turn _ (.embedded _)
  · cases h
    exact .turn _ (.failed rfl rfl)
  · cases h
    exact .turn _ (.failed rfl rfl)
  · split_ifs at h with hconn
    cases h
    exact .turn _ (.connected _ (Bool.not_eq_true _ ▸ hconn))
  · split at h
    · split_ifs at h with hok
      · cases h
        exact .insert _ _ _
      · cases h
        exact .turn _ (.failed rfl rfl)
    · cases h
  · split at h
    · cases h
    · split at h
      · cases h
        exact .turn _ (.failed rfl rfl)
      · cases h
        exact .turn _ (.refused _ _ _)
      · cases h
        exact .turn _ (.answered _ _ _)
  · split_ifs at h
    cases h
    exact .turn _ (.caching _)
  · split_ifs at h
    cases h
    exact .turn _ (.scanning _ _)
  · cases h
    exact .cache _
  · split at h
    · cases h
    · cases h
      rw [search]
      split_ifs
      · exact .turn _ (.failed rfl rfl)
      · exact .turn _ (.found _ _ _ _)
  · cases h

lemma exists_acts_of_step {i : ℕ} {action : Action K} (h : s.step env (.task i action) = some t) :
    ∃ task, s.tasks[i]? = some task ∧ ∃ phase' shared,
      Acts env s task.request task.phase phase' shared ∧
      t = { shared, tasks := s.tasks.set i { task with phase := phase' } } := by
  rw [Memory.step] at h
  cases htask : s.tasks[i]? with
  | none =>
    rw [htask] at h
    cases h
  | some task =>
    rw [htask] at h
    obtain ⟨⟨phase', shared⟩, hact, rfl⟩ := Option.map_eq_some_iff.mp h
    exact ⟨task, rfl, phase', shared, acts_of_act hact, rfl⟩

/-! ### What is kept -/

omit [Field K] [LinearOrder K] in
lemma countP_set_task {tasks : List (Task K)} {i : ℕ} {task : Task K} (p : Task K → Bool)
    (htask : tasks[i]? = some task) (next : Task K) :
    (tasks.set i next).countP p + (if p task then 1 else 0) =
      tasks.countP p + if p next then 1 else 0 := by
  obtain ⟨hi, rfl⟩ := List.getElem?_eq_some_iff.mp htask
  have hle := List.boole_getElem_le_countP (p := p) hi
  rw [List.countP_set hi]
  omega

omit [Field K] [LinearOrder K] in
lemma countP_eq_zero_of_any {p : Phase K → Bool} (h : s.any p = false) :
    (s.tasks.countP fun task => p task.phase) = 0 := by
  rw [List.countP_eq_zero]
  intro task htask hp
  rw [any, List.any_eq_false] at h
  exact h task htask hp

omit [Field K] [LinearOrder K] in
lemma length_log (s : Memory K) : s.log.length = s.shared.rows.length := List.length_map _

omit [Field K] [LinearOrder K] in
lemma log_take (hrows : s.shared.rows <+: t.shared.rows) {n : ℕ} (hn : n ≤ s.shared.rows.length) :
    t.log.take n = s.log.take n := by
  obtain ⟨rest, hrest⟩ := hrows
  rw [log, ← hrest, List.map_append, ← log, List.take_append_of_le_length]
  rw [length_log]
  exact hn

/-- Rows and chunks are only added, so what a call has seen stays as it was. -/
lemma Seen.mono {since : ℕ} {task : Task K} (h : Seen env s since task)
    (hrows : s.shared.rows <+: t.shared.rows)
    (hchunks : s.shared.chunks.length ≤ t.shared.chunks.length)
    (hlength : s.shared.chunks.length ≤ s.shared.rows.length) : Seen env t since task := by
  obtain ⟨request, phase⟩ := task
  cases phase with
  | inserted chunk | caching chunk => exact h
  | matched embedding hits | scanning embedding hits =>
    obtain ⟨text, limit, n, hrequest, hsince, hn, hhits⟩ := h
    refine ⟨text, limit, n, hrequest, hsince, hn.trans hchunks, ?_⟩
    rw [Hits, log_take hrows (hn.trans hlength)]
    exact hhits
  | stored chunk =>
    obtain ⟨hrequest, i, hi, hrow⟩ := h
    obtain ⟨rest, hrest⟩ := hrows
    refine ⟨hrequest, i, hi.trans_le hchunks, ?_⟩
    rw [← hrest, List.getElem?_append_left (hi.trans_le hlength), hrow]
  | found embedding results =>
    obtain ⟨text, limit, hrequest, n, m, loaded, hits, hsince, hn, hm, hloaded, hhits, hpresent,
      hresults⟩ := h
    have hrows' := hrows.length_le
    rw [length_log] at hm
    refine ⟨text, limit, hrequest, n, m, loaded, hits, hsince, hn, ?_, hloaded, ?_, ?_, ?_⟩
    · rw [length_log]
      exact hm.trans hrows'
    · rw [Hits, log_take hrows (hn.trans hm)]
      exact hhits
    · rw [log_take hrows hm]
      exact hpresent
    · rw [log_take hrows hm]
      exact hresults
  | begun | embedding | embedded embedding | connected embedding | failed | lost => exact h

variable {first since : ℕ}

omit [Field K] [LinearOrder K] in
lemma holdsConn_of_isPending {phase : Phase K} (h : phase.isPending = true) :
    phase.holdsConn = true := by
  cases phase with
  | inserted chunk | caching chunk => rfl
  | _ => cases h

omit [Field K] [LinearOrder K] in
lemma holdsConn_of_isFinished {phase : Phase K} (h : phase.isFinished = true) :
    phase.holdsConn = false := by
  cases phase with
  | stored chunk | found embedding results | failed | lost => rfl
  | _ => cases h

lemma Agrees.length_le (h : s.Agrees env first since) :
    s.shared.chunks.length ≤ s.shared.rows.length := by
  have hlength := h.length
  omega

/-- Only one call holds the connection. -/
lemma Agrees.alone (h : s.Agrees env first since) {i j : ℕ} {task other : Task K}
    (htask : s.tasks[i]? = some task) (hconn : task.phase.holdsConn = true)
    (hother : s.tasks[j]? = some other) (hconn' : other.phase.holdsConn = true) : j = i := by
  by_contra hne
  have hcount := countP_set_task (fun task => task.phase.holdsConn) htask { task with phase := .failed }
  have hfree : (Phase.failed : Phase K).holdsConn = false := rfl
  simp only [hconn, hfree, if_true, Bool.false_eq_true, if_false] at hcount
  have hpos : 0 < (s.tasks.set i { task with phase := .failed }).countP
      fun task => task.phase.holdsConn := by
    refine List.countP_pos_iff.mpr ⟨other, ?_, hconn'⟩
    refine List.mem_of_getElem? (i := j) ?_
    rw [List.getElem?_set_ne (Ne.symm hne), hother]
  have hone := h.conn
  omega

/-- While the connection is held by a call that is not between the two, everything in the table is
in memory. -/
lemma Agrees.length_eq (h : s.Agrees env first since) {i : ℕ} {task : Task K}
    (htask : s.tasks[i]? = some task) (hconn : task.phase.holdsConn = true)
    (hpending : task.phase.isPending = false) :
    s.shared.chunks.length = s.shared.rows.length := by
  have hnone : (s.tasks.countP fun task => task.phase.isPending) = 0 := by
    rw [List.countP_eq_zero]
    intro other hmem hother
    obtain ⟨j, hj⟩ := List.mem_iff_getElem?.mp hmem
    obtain rfl := h.alone htask hconn hj (holdsConn_of_isPending hother)
    obtain rfl := Option.some_inj.mp (htask.symm.trans hj)
    rw [hpending] at hother
    cases hother
  have hlength := h.length
  omega

/-! ### Each step -/

/-- The calls after one of them has gone on. -/
lemma seen_set {i : ℕ} {task next : Task K} (h : s.Agrees env first since)
    (htask : s.tasks[i]? = some task) (htasks : t.tasks = s.tasks.set i next)
    (hrows : s.shared.rows <+: t.shared.rows)
    (hchunks : s.shared.chunks.length ≤ t.shared.chunks.length)
    (hnext : ∀ since ≤ s.shared.chunks.length, Seen env s since task → Seen env t since next) :
    ∀ j task, t.tasks[j]? = some task → Seen env t (if first ≤ j then since else 0) task := by
  intro j other hother
  rw [htasks, List.getElem?_set] at hother
  split_ifs at hother with hij hlt
  · subst hij
    obtain rfl := Option.some_inj.mp hother
    refine hnext _ ?_ (h.seen i task htask)
    split_ifs
    · exact h.since_le
    · exact Nat.zero_le _
  · exact (h.seen j other hother).mono hrows hchunks h.length_le

/-- Nobody but the call that goes on is between the table and the memory, when it holds the
connection. -/
lemma Agrees.eq_of_pending (h : s.Agrees env first since) {i : ℕ} {task next other : Task K}
    (htask : s.tasks[i]? = some task) (hconn : task.phase.holdsConn = true)
    (hother : other ∈ s.tasks.set i next) (hpending : other.phase.isPending = true) :
    other = next := by
  obtain ⟨j, hj⟩ := List.mem_iff_getElem?.mp hother
  rw [List.getElem?_set] at hj
  split_ifs at hj with hij hlt
  · exact (Option.some_inj.mp hj).symm
  · exact absurd (h.alone htask hconn hj (holdsConn_of_isPending hpending)).symm hij

omit [Field K] [LinearOrder K] in
/-- A call that goes on stays the same call. -/
lemma requests_set {i : ℕ} {request : Request} {phase phase' : Phase K}
    (htask : s.tasks[i]? = some ⟨request, phase⟩) :
    (s.tasks.set i ⟨request, phase'⟩).map Task.request = s.tasks.map Task.request := by
  obtain ⟨hi, heq⟩ := List.getElem?_eq_some_iff.mp htask
  have hi' : i < (s.tasks.map Task.request).length := by rwa [List.length_map]
  have hrequest : request = (s.tasks.map Task.request)[i] := by
    rw [List.getElem_map, heq]
  rw [List.map_set, hrequest, List.set_getElem_self]

/-- The rows that the inserts have written are in the table. -/
lemma Agrees.mem_rows (h : s.Agrees env first since) {task : Task K} (htask : task ∈ s.tasks)
    {chunk : RagChunk K} (hwritten : task.phase.written = some chunk) : chunk ∈ s.shared.rows := by
  obtain ⟨i, hi⟩ := List.mem_iff_getElem?.mp htask
  have hseen := h.seen i task hi
  obtain ⟨request, phase⟩ := task
  cases phase with
  | inserted chunk' | caching chunk' =>
    cases hwritten
    exact List.mem_of_getLast? (h.pending _ htask chunk rfl)
  | stored chunk' =>
    cases hwritten
    obtain ⟨-, k, -, hk⟩ := hseen
    exact List.mem_of_getElem? hk
  | _ => cases hwritten

lemma Agrees.id_le (h : s.Agrees env first since) {chunk : RagChunk K}
    (hmem : chunk ∈ s.shared.rows) : chunk.id ≤ s.shared.rows.length := by
  rw [h.rows, chunks_storeOf] at hmem
  obtain ⟨k, hk, rfl⟩ := List.mem_mapIdx.mp hmem
  rw [length_log] at hk
  show (k : Int) + 1 ≤ _
  omega

/-- The calls before and after a step that writes nothing. -/
lemma Agrees.apart_of_written (h : s.Agrees env first since)
    (hwritten : ∀ (i : ℕ) (task : Task K), t.tasks[i]? = some task → ∀ chunk,
      task.phase.written = some chunk →
        ∃ before : Task K, s.tasks[i]? = some before ∧ before.phase.written = some chunk) :
    ∀ (i j : ℕ) (task other : Task K), t.tasks[i]? = some task → t.tasks[j]? = some other →
      ∀ chunk, task.phase.written = some chunk → other.phase.written = some chunk → i = j := by
  intro i j task other htask hother chunk hchunk hchunk'
  obtain ⟨before, hbefore, hwrote⟩ := hwritten i task htask chunk hchunk
  obtain ⟨before', hbefore', hwrote'⟩ := hwritten j other hother chunk hchunk'
  exact h.apart i j before before' hbefore hbefore' chunk hwrote hwrote'

omit [Field K] [LinearOrder K] in
lemma written_set {i : ℕ} {task next : Task K} (htask : s.tasks[i]? = some task)
    (hnext : ∀ chunk, next.phase.written = some chunk → task.phase.written = some chunk) {j : ℕ}
    {other : Task K} (hother : (s.tasks.set i next)[j]? = some other) {chunk : RagChunk K}
    (hchunk : other.phase.written = some chunk) :
    ∃ before : Task K, s.tasks[j]? = some before ∧ before.phase.written = some chunk := by
  rw [List.getElem?_set] at hother
  split_ifs at hother with hij hlt
  · subst hij
    obtain rfl := Option.some_inj.mp hother
    exact ⟨task, htask, hnext chunk hchunk⟩
  · exact ⟨other, hother, hchunk⟩

/-- An insert has written its row and not its chunk. -/
lemma Agrees.insert (h : s.Agrees env first since) {i : ℕ} {content source : List Char}
    {embedding : List K} {chunk : RagChunk K}
    (htask : s.tasks[i]? = some ⟨.insert content source, .connected embedding⟩)
    (hchunk : chunk = newChunk s.shared content source embedding)
    (hshared : t.shared = insertRow s.shared chunk)
    (htasks : t.tasks = s.tasks.set i ⟨.insert content source, .inserted chunk⟩) :
    t.Agrees env first since := by
  have hlength := h.length_eq htask rfl rfl
  have hrows : t.shared.rows = s.shared.rows ++ [chunk] := by rw [hshared, insertRow]
  have hchunks : t.shared.chunks = s.shared.chunks := by rw [hshared, insertRow]
  have hlog : t.log = s.log ++ [chunk.note] := by
    rw [log, hrows, List.map_append]
    rfl
  have hid : chunk.id = s.log.length + 1 := by
    rw [hchunk, newChunk, h.lastRowid, length_log]
  have hstore : (storeOf t.log).chunks = s.shared.rows ++ [chunk] := by
    rw [hlog, storeOf_concat, VectorStore.chunks_insertChunk, lastRowid_storeOf, ← hid, ← h.rows]
    rfl
  have hprefix : s.shared.rows <+: t.shared.rows := hrows ▸ List.prefix_append _ _
  refine ⟨?_, ?_, ?_, ?_, ?_, ?_, ?_, ?_, ?_, ?_, ?_⟩
  · rw [hrows, hstore]
  · rw [hrows, hshared, insertRow, h.lastRowid, List.length_append, List.length_singleton,
      Int.natCast_add]
    rfl
  · rw [indexOf, hstore, List.map_append, hshared, insertRow, h.index, indexOf, ← h.rows]
    rfl
  · rw [hchunks, log_take hprefix h.length_le]
    exact h.chunks
  · have hcount := countP_set_task (fun task => task.phase.isPending) htask
      ⟨.insert content source, .inserted chunk⟩
    have hbefore : (Phase.connected embedding).isPending = false := rfl
    have hafter : (Phase.inserted chunk).isPending = true := rfl
    simp only [hbefore, hafter, if_true, Bool.false_eq_true, if_false] at hcount
    have hlength' := h.length
    rw [hrows, hchunks, htasks, List.length_append, List.length_singleton]
    omega
  · have hcount := countP_set_task (fun task => task.phase.holdsConn) htask
      ⟨.insert content source, .inserted chunk⟩
    have hbefore : (Phase.connected embedding).holdsConn = true := rfl
    have hafter : (Phase.inserted chunk).holdsConn = true := rfl
    simp only [hbefore, hafter, if_true] at hcount
    have hone := h.conn
    rw [htasks]
    omega
  · intro other hother chunk' hchunk'
    rw [htasks] at hother
    obtain rfl := h.eq_of_pending htask rfl hother (by rw [Phase.isPending, hchunk']; rfl)
    rw [hrows, List.getLast?_concat]
    exact hchunk'
  · rw [hchunks]
    exact h.since_le
  · refine seen_set h htask htasks hprefix (hchunks ▸ le_rfl) fun since _ _ => ?_
    rw [hchunk]
    rfl
  · intro row hrow
    rw [htasks, requests_set htask]
    rw [hrows, List.mem_append, List.mem_singleton] at hrow
    rcases hrow with hrow | rfl
    · exact h.asked row hrow
    · rw [hchunk]
      exact List.mem_map_of_mem (List.mem_of_getElem? htask)
  · -- the new row has an id that no row had
    have hnew : ∀ (j : ℕ) (other : Task K),
        (s.tasks.set i ⟨.insert content source, .inserted chunk⟩)[j]? = some other →
          other.phase.written = some chunk → i = j := by
      intro j other hother hwrote
      by_contra hne
      rw [List.getElem?_set_ne hne] at hother
      have hle := h.id_le (h.mem_rows (List.mem_of_getElem? hother) hwrote)
      rw [hid, length_log] at hle
      omega
    rw [htasks]
    intro j k task other htask' hother row hrow hrow'
    by_cases heq : row = chunk
    · subst heq
      exact (hnew j task htask' hrow).symm.trans (hnew k other hother hrow')
    · have hold : ∀ (k : ℕ) (other : Task K),
          (s.tasks.set i ⟨.insert content source, .inserted chunk⟩)[k]? = some other →
            other.phase.written = some row → s.tasks[k]? = some other := by
        intro k other hother hwrote
        rw [List.getElem?_set] at hother
        split_ifs at hother with hik hlt
        · obtain rfl := Option.some_inj.mp hother
          exact absurd (Option.some_inj.mp hwrote).symm heq
        · exact hother
      exact h.apart j k task other (hold j task htask' hrow) (hold k other hother hrow') row hrow
        hrow'

/-- Between the two there is one row more than chunks. -/
lemma Agrees.exists_rows (h : s.Agrees env first since) {i : ℕ} {task : Task K} {chunk : RagChunk K}
    (htask : s.tasks[i]? = some task) (hpending : task.phase.pendingChunk = some chunk) :
    ∃ front, s.shared.rows = front ++ [chunk] ∧ front.length = s.shared.chunks.length := by
  have hmem := List.mem_of_getElem? htask
  have hpos : 0 < s.tasks.countP fun task => task.phase.isPending := by
    refine List.countP_pos_iff.mpr ⟨task, hmem, ?_⟩
    rw [Phase.isPending, hpending]
    rfl
  have hle : (s.tasks.countP fun task => task.phase.isPending) ≤
      s.tasks.countP fun task => task.phase.holdsConn :=
    List.countP_mono_left fun other _ hother => holdsConn_of_isPending hother
  obtain ⟨front, hfront⟩ := List.getLast?_eq_some_iff.mp (h.pending task hmem chunk hpending)
  refine ⟨front, hfront, ?_⟩
  have hlength := h.length
  have hone := h.conn
  rw [hfront, List.length_append, List.length_singleton] at hlength
  omega

/-- An insert has brought its chunk into memory. -/
lemma Agrees.cache (h : s.Agrees env first since) {i : ℕ} {request : Request} {chunk : RagChunk K}
    (htask : s.tasks[i]? = some ⟨request, .caching chunk⟩)
    (hshared : t.shared = { s.shared with chunks := s.shared.chunks ++ [chunk] })
    (htasks : t.tasks = s.tasks.set i ⟨request, .stored chunk⟩) : t.Agrees env first since := by
  have hrows : t.shared.rows = s.shared.rows := by rw [hshared]
  have hchunks : t.shared.chunks = s.shared.chunks ++ [chunk] := by rw [hshared]
  have hlog : t.log = s.log := by rw [log, log, hrows]
  obtain ⟨front, hfront, hlength⟩ := h.exists_rows htask rfl
  have hnotes : s.log = front.map RagChunk.note ++ [chunk.note] := by
    rw [log, hfront, List.map_append]
    rfl
  have htake : s.log.take s.shared.chunks.length = front.map RagChunk.note := by
    rw [hnotes, List.take_left']
    rw [List.length_map, hlength]
  have hlast : chunk = ⟨s.shared.chunks.length + 1, chunk.content, chunk.source, chunk.embedding⟩ := by
    have hstore := h.rows
    rw [hfront, hnotes, storeOf_concat, VectorStore.chunks_insertChunk, lastRowid_storeOf,
      List.length_map, hlength] at hstore
    obtain ⟨-, heq⟩ := List.append_inj' hstore rfl
    exact List.head_eq_of_cons_eq heq
  have hcount := countP_set_task (fun task => task.phase.isPending) htask ⟨request, .stored chunk⟩
  have hconn := countP_set_task (fun task => task.phase.holdsConn) htask ⟨request, .stored chunk⟩
  have hbefore : (Phase.caching chunk).isPending = true := rfl
  have hafter : (Phase.stored chunk).isPending = false := rfl
  have hbefore' : (Phase.caching chunk).holdsConn = true := rfl
  have hafter' : (Phase.stored chunk).holdsConn = false := rfl
  simp only [hbefore, hafter, if_true, Bool.false_eq_true, if_false] at hcount
  simp only [hbefore', hafter', if_true, Bool.false_eq_true, if_false] at hconn
  refine ⟨?_, ?_, ?_, ?_, ?_, ?_, ?_, ?_, ?_, ?_, ?_⟩
  · rw [hlog, hrows, h.rows]
  · rw [hrows, ← h.lastRowid, hshared]
  · rw [hlog, ← h.index, hshared]
  · obtain ⟨loaded, hloaded, heq⟩ := h.chunks
    refine ⟨loaded, ?_, ?_⟩
    · rw [hchunks, List.length_append]
      exact Nat.le_add_right_of_le hloaded
    · have hall : s.log.take t.shared.chunks.length = front.map RagChunk.note ++ [chunk.note] := by
        rw [hnotes, List.take_of_length_le]
        rw [hchunks, List.length_append, List.length_append, List.length_map, hlength]
        rfl
      rw [htake] at heq
      rw [hlog, hall, asLoaded_concat env (by rwa [List.length_map, hlength]), storeOf_concat,
        VectorStore.chunks_insertChunk, ← heq, lastRowid_storeOf, length_asLoaded, List.length_map,
        hlength, hchunks, RagChunk.note, ← hlast]
  · have hlength' := h.length
    rw [hrows, hchunks, htasks, List.length_append, List.length_singleton]
    omega
  · have hone := h.conn
    rw [htasks]
    omega
  · intro other hother chunk' hchunk'
    rw [htasks] at hother
    obtain rfl := h.eq_of_pending htask rfl hother (by rw [Phase.isPending, hchunk']; rfl)
    cases hchunk'
  · rw [hchunks, List.length_append]
    exact Nat.le_add_right_of_le h.since_le
  · refine seen_set h htask htasks (hrows ▸ List.prefix_rfl) ?_ fun since _ hseen => ?_
    · rw [hchunks, List.length_append]
      exact Nat.le_add_right _ _
    · refine ⟨hseen, s.shared.chunks.length, ?_, ?_⟩
      · rw [hchunks, List.length_append, List.length_singleton]
        exact Nat.lt_succ_self _
      · rw [hrows, hfront, ← hlength, List.getElem?_concat_length]
  · rw [hrows, htasks, requests_set htask]
    exact h.asked
  · refine h.apart_of_written fun j other hother row hrow => ?_
    rw [htasks] at hother
    refine written_set htask (fun row' hrow' => ?_) hother hrow
    exact hrow'

lemma Turns.pendingChunk {request : Request} {phase phase' : Phase K}
    (h : s.Turns env request phase phase') : phase'.pendingChunk = phase.pendingChunk := by
  cases h with
  | failed hnone _ => exact hnone.symm
  | _ => rfl

lemma Turns.written {request : Request} {phase phase' : Phase K}
    (h : s.Turns env request phase phase') {chunk : RagChunk K}
    (hwritten : phase'.written = some chunk) : phase.written = some chunk := by
  cases h with
  | caching chunk' => exact hwritten
  | _ => cases hwritten

lemma Turns.conn {request : Request} {phase phase' : Phase K}
    (h : s.Turns env request phase phase') (hconn : phase'.holdsConn = true) :
    phase.holdsConn = true ∨ s.any Phase.holdsConn = false := by
  cases h with
  | connected embedding hfree => exact .inr hfree
  | caching chunk => exact .inl rfl
  | _ => cases hconn

omit [Field K] [LinearOrder K] in
lemma exists_chunk_of_id {notes : List (Note K)} {id : Int}
    (h : id ∈ (indexOf notes).map Prod.fst) : 0 < id ∧ id ≤ notes.length := by
  rw [indexOf, List.map_map, chunks_storeOf, List.mem_map] at h
  obtain ⟨chunk, hchunk, rfl⟩ := h
  obtain ⟨k, hk, rfl⟩ := List.mem_mapIdx.mp hchunk
  show (0 : Int) < k + 1 ∧ (k : Int) + 1 ≤ notes.length
  omega

omit [Field K] [LinearOrder K] in
/-- Loaded or not, there is a chunk for each of the ids. -/
lemma exists_chunk {notes : List (Note K)} {id : Int} (hpos : 0 < id) (hle : id ≤ notes.length)
    (loaded : ℕ) : ∃ chunk ∈ (storeOf (asLoaded env loaded notes)).chunks, chunk.id = id := by
  have hlt : (id - 1).toNat < (asLoaded env loaded notes).length := by
    rw [length_asLoaded]
    omega
  rw [chunks_storeOf]
  refine ⟨_, List.mem_mapIdx.mpr ⟨(id - 1).toNat, hlt, rfl⟩, ?_⟩
  show (((id - 1).toNat : ℕ) : Int) + 1 = id
  omega

omit [Field K] [LinearOrder K] in
lemma exists_chunk_of_hit {notes : List (Note K)} {n m loaded : ℕ} {text : List Char}
    {hits : KeywordHits K} (hhits : Hits env notes n text hits) (hn : n ≤ m)
    (hm : m ≤ notes.length) {hit : Int × K} (hmem : hit ∈ hits.rows) :
    ∃ chunk ∈ (storeOf (asLoaded env loaded (notes.take m))).chunks, chunk.id = hit.1 := by
  rcases hhits with rfl | rfl
  · exact absurd hmem List.not_mem_nil
  · obtain ⟨hpos, hle⟩ := exists_chunk_of_id (env.sound _ _ hit hmem)
    refine exists_chunk hpos (hle.trans ?_) loaded
    rw [List.length_take, List.length_take]
    omega

/-- What a search sees when it goes on. -/
lemma Agrees.seen_turn (h : s.Agrees env first since) {i : ℕ} {request : Request}
    {phase phase' : Phase K} (htask : s.tasks[i]? = some ⟨request, phase⟩)
    (hturns : s.Turns env request phase phase') {since' : ℕ}
    (hsince : since' ≤ s.shared.chunks.length) (hseen : Seen env s since' ⟨request, phase⟩) :
    Seen env s since' ⟨request, phase'⟩ := by
  cases hturns with
  | embedding | failed _ _ | embedded _ | connected _ _ => trivial
  | refused text limit embedding =>
    exact ⟨text, limit, s.shared.chunks.length, rfl, hsince, le_rfl, .inl rfl⟩
  | answered text limit embedding =>
    refine ⟨text, limit, s.shared.chunks.length, rfl, hsince, le_rfl, .inr ?_⟩
    rw [h.length_eq htask rfl rfl, ← length_log, List.take_length, h.index]
  | caching chunk | scanning embedding hits => exact hseen
  | found text limit embedding hits =>
    obtain ⟨text', limit', n, hrequest, hn, hle, hhits⟩ := hseen
    cases hrequest
    obtain ⟨loaded, hloaded, hchunks⟩ := h.chunks
    have hlength : s.shared.chunks.length ≤ s.log.length := by
      rw [length_log]
      exact h.length_le
    refine ⟨text, limit, rfl, n, s.shared.chunks.length, loaded, hits, hn, hle, hlength, hloaded,
      hhits, fun hit hmem => exists_chunk_of_hit hhits hle hlength hmem, ?_⟩
    rw [searchBlocking_eq_scan, ← hchunks]

/-- A call has gone on without a change to rows and chunks. -/
lemma Agrees.turn (h : s.Agrees env first since) {i : ℕ} {request : Request} {phase phase' : Phase K}
    {poisoned : Bool} (htask : s.tasks[i]? = some ⟨request, phase⟩)
    (hturns : s.Turns env request phase phase')
    (hshared : t.shared = { s.shared with poisoned })
    (htasks : t.tasks = s.tasks.set i ⟨request, phase'⟩) : t.Agrees env first since := by
  have hrows : t.shared.rows = s.shared.rows := by rw [hshared]
  have hchunks : t.shared.chunks = s.shared.chunks := by rw [hshared]
  have hlog : t.log = s.log := by rw [log, log, hrows]
  have hpending : phase'.isPending = phase.isPending := by
    rw [Phase.isPending, Phase.isPending, hturns.pendingChunk]
  have hcount := countP_set_task (fun task => task.phase.isPending) htask ⟨request, phase'⟩
  have hconn := countP_set_task (fun task => task.phase.holdsConn) htask ⟨request, phase'⟩
  simp only [hpending] at hcount
  refine ⟨?_, ?_, ?_, ?_, ?_, ?_, ?_, ?_, ?_, ?_, ?_⟩
  · rw [hlog, hrows, h.rows]
  · rw [hrows, ← h.lastRowid, hshared]
  · rw [hlog, ← h.index, hshared]
  · rw [hchunks, hlog]
    exact h.chunks
  · rw [hrows, hchunks, htasks, h.length]
    omega
  · have hone := h.conn
    rw [htasks]
    by_cases hheld : phase'.holdsConn = true
    · rcases hturns.conn hheld with hbefore | hfree
      · simp only [hheld, hbefore] at hconn
        omega
      · have hzero := countP_eq_zero_of_any hfree
        split_ifs at hconn <;> omega
    · simp only [Bool.not_eq_true] at hheld
      simp only [hheld, Bool.false_eq_true, if_false] at hconn
      omega
  · intro other hother chunk hchunk
    rw [htasks] at hother
    rw [hrows]
    rcases List.mem_or_eq_of_mem_set hother with hother | rfl
    · exact h.pending other hother chunk hchunk
    · refine h.pending _ (List.mem_of_getElem? htask) chunk ?_
      rw [← hturns.pendingChunk]
      exact hchunk
  · rw [hchunks]
    exact h.since_le
  · refine seen_set h htask htasks (hrows ▸ List.prefix_rfl) (hchunks ▸ le_rfl)
      fun since' hsince hseen => ?_
    have hnext := h.seen_turn htask hturns hsince hseen
    exact hnext.mono (hrows ▸ List.prefix_rfl) (hchunks ▸ le_rfl) h.length_le
  · rw [hrows, htasks, requests_set htask]
    exact h.asked
  · refine h.apart_of_written fun j other hother row hrow => ?_
    rw [htasks] at hother
    exact written_set htask (fun _ => hturns.written) hother hrow

/-- A new call. -/
lemma Agrees.begin (h : s.Agrees env first since) (request : Request) :
    Agrees env first since { s with tasks := s.tasks ++ [⟨request, .begun⟩] } where
  rows := h.rows
  lastRowid := h.lastRowid
  index := h.index
  chunks := h.chunks
  length := by
    rw [List.countP_append]
    exact h.length
  conn := by
    rw [List.countP_append]
    exact h.conn
  pending task htask chunk hchunk := by
    rcases List.mem_append.mp htask with htask | htask
    · exact h.pending task htask chunk hchunk
    · rw [List.mem_singleton] at htask
      subst htask
      cases hchunk
  since_le := h.since_le
  seen i task htask := by
    rw [List.getElem?_append] at htask
    split_ifs at htask with hi
    · exact (h.seen i task htask).mono List.prefix_rfl le_rfl h.length_le
    · have hmem := List.mem_of_getElem? htask
      rw [List.mem_singleton] at hmem
      subst hmem
      trivial
  asked chunk hchunk := by
    rw [List.map_append]
    exact List.mem_append_left _ (h.asked chunk hchunk)
  apart := by
    refine h.apart_of_written fun i task htask chunk hchunk => ?_
    rw [List.getElem?_append] at htask
    split_ifs at htask with hi
    · exact ⟨task, htask, hchunk⟩
    · have hmem := List.mem_of_getElem? htask
      rw [List.mem_singleton] at hmem
      subst hmem
      cases hchunk

omit [Field K] [LinearOrder K] in
/-- What the next process loads. -/
lemma map_load_rows (hrows : s.shared.rows = (storeOf s.log).chunks) :
    s.shared.rows.map (load env) =
      (storeOf (asLoaded env s.shared.rows.length (s.log.take s.shared.rows.length))).chunks := by
  have hall : asLoaded env s.shared.rows.length (s.log.take s.shared.rows.length) =
      s.log.map fun note => { note with embedding := env.reload note.embedding } := by
    rw [← length_log, List.take_length, asLoaded, List.take_length, List.drop_length,
      List.append_nil]
  rw [hall, hrows, chunks_storeOf, chunks_storeOf]
  refine List.ext_getElem? fun i => ?_
  rw [List.getElem?_map, List.getElem?_mapIdx, List.getElem?_mapIdx, List.getElem?_map]
  cases s.log[i]? with
  | none => rfl
  | some note => rfl

/-- The process has ended, and the next one has begun. -/
lemma Agrees.restart (h : s.Agrees env first since) : (s.restart env).Agrees env first since := by
  have hchunks : (s.restart env).shared.chunks = s.shared.rows.map (load env) := rfl
  have hlength : (s.restart env).shared.chunks.length = s.shared.rows.length := by
    rw [hchunks, List.length_map]
  have hfinished : ∀ task ∈ (s.restart env).tasks, task.phase.isFinished = true := by
    intro task htask
    obtain ⟨before, -, rfl⟩ := List.mem_map.mp htask
    split_ifs with hbefore
    · exact hbefore
    · rfl
  have hfree : ∀ task ∈ (s.restart env).tasks, task.phase.holdsConn = false := by
    intro task htask
    exact holdsConn_of_isFinished (hfinished task htask)
  have hnone : ((s.restart env).tasks.countP fun task => task.phase.holdsConn) = 0 := by
    rw [List.countP_eq_zero]
    intro task htask
    rw [hfree task htask]
    exact Bool.false_ne_true
  refine ⟨h.rows, h.lastRowid, h.index, ?_, ?_, ?_, ?_, ?_, ?_, ?_, ?_⟩
  · refine ⟨s.shared.rows.length, hlength.ge, ?_⟩
    rw [hlength, hchunks]
    exact map_load_rows h.rows
  · have hle : ((s.restart env).tasks.countP fun task => task.phase.isPending) ≤
        (s.restart env).tasks.countP fun task => task.phase.holdsConn :=
      List.countP_mono_left fun other _ hother => holdsConn_of_isPending hother
    show s.shared.rows.length = _
    omega
  · omega
  · intro task htask chunk hchunk
    have hheld : task.phase.holdsConn = true := by
      refine holdsConn_of_isPending ?_
      rw [Phase.isPending, hchunk]
      rfl
    rw [hfree task htask] at hheld
    cases hheld
  · rw [hlength]
    exact h.since_le.trans h.length_le
  · intro i task htask
    obtain ⟨before, hbefore, rfl⟩ := Option.map_eq_some_iff.mp (List.getElem?_map ▸ htask)
    by_cases hended : before.phase.isFinished = true
    · rw [if_pos hended]
      refine (h.seen i before hbefore).mono List.prefix_rfl ?_ h.length_le
      rw [hlength]
      exact h.length_le
    · rw [if_neg hended]
      trivial
  · have hrequests : (s.restart env).tasks.map Task.request = s.tasks.map Task.request := by
      rw [Memory.restart, List.map_map]
      refine List.map_congr_left fun task _ => ?_
      rw [Function.comp_apply]
      split_ifs <;> rfl
    rw [hrequests]
    exact h.asked
  · refine h.apart_of_written fun i task htask chunk hchunk => ?_
    obtain ⟨before, hbefore, rfl⟩ := Option.map_eq_some_iff.mp (List.getElem?_map ▸ htask)
    refine ⟨before, hbefore, ?_⟩
    split_ifs at hchunk with hended
    · exact hchunk
    · cases hchunk

/-- **Each step keeps the agreement.** -/
lemma Agrees.step (h : s.Agrees env first since) {move : Move K}
    (hstep : s.step env move = some t) : t.Agrees env first since := by
  cases move with
  | begin request =>
    cases hstep
    exact h.begin request
  | restart =>
    cases hstep
    exact h.restart
  | task i action =>
    obtain ⟨⟨request, phase⟩, htask, phase', shared, hacts, rfl⟩ := exists_acts_of_step hstep
    cases hacts with
    | turn poisoned hturns => exact h.turn htask hturns rfl rfl
    | insert content source embedding => exact h.insert htask rfl rfl rfl
    | cache chunk => exact h.cache htask rfl rfl

lemma agrees_start : (start : Memory K).Agrees env 0 0 where
  rows := rfl
  lastRowid := rfl
  index := rfl
  chunks := ⟨0, le_rfl, rfl⟩
  length := rfl
  conn := Nat.zero_le _
  pending task htask := absurd htask List.not_mem_nil
  since_le := le_rfl
  seen i task htask := by
    cases htask
  asked chunk hchunk := absurd hchunk List.not_mem_nil
  apart i j task other htask := by
    cases htask

lemma agrees_of_run {moves : List (Move K)} (hrun : run (Memory.step env) start moves = some s) :
    s.Agrees env 0 0 :=
  run_invariant (Agrees env 0 0) (fun _ _ _ h hstep => h.step hstep) agrees_start hrun

/-- The calls that are still to come begin with the chunks that are in memory now. -/
lemma Agrees.rebase (h : s.Agrees env 0 0) :
    s.Agrees env s.tasks.length s.shared.chunks.length := by
  refine ⟨h.rows, h.lastRowid, h.index, h.chunks, h.length, h.conn, h.pending, le_rfl, ?_, h.asked,
    h.apart⟩
  intro i task htask
  have hi : i < s.tasks.length := (List.getElem?_eq_some_iff.mp htask).1
  have hseen := h.seen i task htask
  rw [if_neg (Nat.not_le.mpr hi)]
  rwa [ite_self] at hseen

/-- A step takes nothing from the table. -/
lemma rows_prefix_of_step {move : Move K} (hstep : s.step env move = some t) :
    s.shared.rows <+: t.shared.rows := by
  cases move with
  | begin request =>
    cases hstep
    exact List.prefix_rfl
  | restart =>
    cases hstep
    exact List.prefix_rfl
  | task i action =>
    obtain ⟨⟨request, phase⟩, -, phase', shared, hacts, rfl⟩ := exists_acts_of_step hstep
    cases hacts with
    | turn poisoned hturns => exact List.prefix_rfl
    | insert content source embedding => exact List.prefix_append _ _
    | cache chunk => exact List.prefix_rfl

lemma log_prefix_of_run {moves : List (Move K)} (hrun : run (Memory.step env) s moves = some t) :
    s.log <+: t.log :=
  run_invariant (fun u => s.log <+: u.log)
    (fun _ _ _ h hstep => h.trans ((rows_prefix_of_step hstep).map RagChunk.note)) List.prefix_rfl
    hrun

/-- **A search finds what it finds in one store.**  The search began after `pre`; the inserts that
were in memory by then are the first of all inserts, and it sees each of them. -/
theorem found_of_run {pre post : List (Move K)} {s₀ : Memory K}
    (hpre : run (Memory.step env) start pre = some s₀)
    (hpost : run (Memory.step env) s₀ post = some s) {i : ℕ} (hfirst : s₀.tasks.length ≤ i)
    {request : Request} {embedding : List K} {results : List (RagChunk K × K)}
    (htask : s.tasks[i]? = some ⟨request, .found embedding results⟩) :
    s₀.log <+: s.log ∧ ∃ text limit, request = .search text limit ∧
      Answers env s.log s₀.shared.chunks.length text limit embedding results := by
  have hbegan := (agrees_of_run hpre).rebase
  have hagrees : s.Agrees env s₀.tasks.length s₀.shared.chunks.length :=
    run_invariant (Agrees env _ _) (fun _ _ _ h hstep => h.step hstep) hbegan hpost
  have hseen := hagrees.seen i _ htask
  rw [if_pos hfirst] at hseen
  exact ⟨log_prefix_of_run hpost, hseen⟩

/-- Embeddings of length one; a query finds a note that says the same. -/
def unitVectors : Environment ℚ where
  similarity a b := (List.zipWith (· * ·) a b).sum
  reload := id
  keywords index query :=
    match index.find? fun row => query = '"' :: row.2 ++ ['"'] with
    | some row =>
      { rows := [(row.1, 1 / 1000000)]
        nodup := List.nodup_singleton _
        atMost := Nat.le_of_ble_eq_true rfl }
    | none => noHits
  sound index query row hrow := by
    split at hrow
    · rename_i found hfound
      rw [List.mem_singleton] at hrow
      subst hrow
      exact List.mem_map_of_mem (List.mem_of_find?_eq_some hfound)
    · exact absurd hrow List.not_mem_nil
  writersFirst := true

/-- A note is made. -/
def firstNote : List (Move ℚ) :=
  [.begin (.insert "tea".toList "memory".toList), .task 0 .lockModel, .task 0 (.embed (.ok [1])),
    .task 0 .lockConn, .task 0 (.execute true), .task 0 .lockChunks, .task 0 .finish]

/-- While it is searched for, another note is made. -/
def secondNote : List (Move ℚ) :=
  [.begin (.search "tea".toList 5), .task 1 .lockModel, .task 1 (.embed (.ok [1])),
    .begin (.insert "cake".toList "memory".toList), .task 2 .lockModel, .task 1 .lockConn,
    .task 2 (.embed (.ok [-1])), .task 1 (.query .answered), .task 2 .lockConn,
    .task 2 (.execute true), .task 2 .lockChunks, .task 2 .finish, .task 1 .lockChunks]

theorem found_of_run_second : ∃ s₀ s request embedding results,
    run (Memory.step unitVectors) start firstNote = some s₀ ∧
      run (Memory.step unitVectors) s₀ (secondNote ++ [.task 1 .finish]) = some s ∧
      s₀.log <+: s.log ∧ ∃ text limit, request = Request.search text limit ∧
        Answers unitVectors s.log s₀.shared.chunks.length text limit embedding results :=
  ⟨_, _, _, _, _, rfl, rfl,
    @found_of_run ℚ _ _ unitVectors _ firstNote (secondNote ++ [.task 1 .finish]) _ rfl rfl 1 le_rfl
      _ _ _ rfl⟩

/-- The steps that the calls have before them, at most. -/
def stepsLeft (s : Memory K) : ℕ := (s.tasks.map fun task => task.phase.stepsLeft).sum

omit [Field K] [LinearOrder K] in
lemma stepsLeft_set {tasks : List (Task K)} {i : ℕ} {task : Task K} (htask : tasks[i]? = some task)
    (next : Task K) :
    ((tasks.set i next).map fun task => task.phase.stepsLeft).sum + task.phase.stepsLeft =
      (tasks.map fun task => task.phase.stepsLeft).sum + next.phase.stepsLeft := by
  induction tasks generalizing i with
  | nil => cases htask
  | cons head tasks ih =>
    cases i with
    | zero =>
      cases htask
      simp only [List.set_cons_zero, List.map_cons, List.sum_cons]
      omega
    | succ i =>
      have hrest := ih (List.getElem?_cons_succ ▸ htask)
      simp only [List.set_cons_succ, List.map_cons, List.sum_cons]
      omega

omit [Field K] [LinearOrder K] in
lemma stepsLeft_le (s : Memory K) :
    s.stepsLeft ≤ 6 * s.tasks.countP fun task => !task.phase.isFinished := by
  unfold stepsLeft
  induction s.tasks with
  | nil => exact Nat.zero_le _
  | cons task tasks ih =>
    have hphase : task.phase.stepsLeft ≤ if !task.phase.isFinished then 6 else 0 := by
      cases task.phase <;> simp [Phase.stepsLeft, Phase.isFinished]
    rw [List.map_cons, List.sum_cons, List.countP_cons, Nat.mul_add]
    split_ifs at hphase ⊢ <;> omega

lemma Acts.stepsLeft_lt {request : Request} {phase phase' : Phase K} {shared : Shared K}
    (h : s.Acts env request phase phase' shared) : phase'.stepsLeft < phase.stepsLeft := by
  cases h with
  | insert content source embedding => exact Nat.lt_succ_self _
  | cache chunk => exact Nat.zero_lt_one
  | turn poisoned hturns =>
    cases hturns with
    | failed hnone hrunning =>
      cases phase with
      | stored chunk | found embedding results | failed | lost => cases hrunning
      | _ => exact Nat.succ_pos _
    | _ => exact Nat.lt_succ_self _

lemma stepsLeft_lt {i : ℕ} {action : Action K} (hstep : s.step env (.task i action) = some t) :
    t.stepsLeft < s.stepsLeft := by
  obtain ⟨task, htask, phase', shared, hacts, rfl⟩ := exists_acts_of_step hstep
  have hset := stepsLeft_set htask { task with phase := phase' }
  have hless := hacts.stepsLeft_lt
  unfold stepsLeft
  simp only at hset ⊢
  omega

/-- One of the calls can take a step. -/
def CanGoOn (env : Environment K) (s : Memory K) : Prop :=
  ∃ i action, (s.step env (.task i action)).isSome

lemma canGoOn_of_act {i : ℕ} {request : Request} {phase : Phase K} (action : Action K)
    (htask : s.tasks[i]? = some ⟨request, phase⟩)
    (hact : (s.act env request phase action).isSome) : s.CanGoOn env := by
  refine ⟨i, action, ?_⟩
  rw [Memory.step, htask]
  show ((s.act env request phase action).map _).isSome = true
  rwa [Option.isSome_map]

/-- A call that needs nothing can go on. -/
lemma Agrees.canGoOn_of_isRunning (h : s.Agrees env first since) {task : Task K}
    (htask : task ∈ s.tasks) (hrunning : task.phase.isRunning = true) : s.CanGoOn env := by
  obtain ⟨i, hi⟩ := List.mem_iff_getElem?.mp htask
  have hseen := h.seen i task hi
  obtain ⟨request, phase⟩ := task
  cases phase with
  | embedding => exact canGoOn_of_act (.embed .err) hi rfl
  | connected embedding =>
    cases request with
    | insert content source => exact canGoOn_of_act (.execute false) hi rfl
    | search text limit => exact canGoOn_of_act (.query .unprepared) hi rfl
  | caching chunk => exact canGoOn_of_act .finish hi rfl
  | scanning embedding hits =>
    obtain ⟨text, limit, -, rfl, -⟩ := hseen
    exact canGoOn_of_act .finish hi rfl
  | _ => cases hrunning

omit [Field K] [LinearOrder K] in
/-- What no call has that is still to go on, nobody holds. -/
lemma any_eq_false {p q : Phase K → Bool} (hq : ∀ task ∈ s.tasks, q task.phase = false)
    (hp : ∀ phase, p phase = true → q phase = true) : s.any p = false := by
  rw [any, List.any_eq_false]
  intro task htask hheld
  have hfree := hq task htask
  rw [hp task.phase hheld] at hfree
  cases hfree

omit [Field K] [LinearOrder K] in
lemma isRunning_of_writes {phase : Phase K} (h : phase.writes = true) : phase.isRunning = true := by
  cases phase with
  | caching chunk => rfl
  | _ => cases h

omit [Field K] [LinearOrder K] in
lemma isRunning_of_reads {phase : Phase K} (h : phase.reads = true) : phase.isRunning = true := by
  cases phase with
  | scanning embedding hits => rfl
  | _ => cases h

omit [Field K] [LinearOrder K] in
lemma isRunning_of_holdsModel {phase : Phase K} (h : phase.holdsModel = true) :
    phase.isRunning = true := by
  cases phase with
  | embedding => rfl
  | _ => cases h

/-- When every call waits, one that is between the table and the memory can go on. -/
lemma canGoOn_of_waitsToWrite (hwaiting : ∀ task ∈ s.tasks, task.phase.isRunning = false)
    {task : Task K} (htask : task ∈ s.tasks) (hwaits : task.phase.waitsToWrite = true) :
    s.CanGoOn env := by
  obtain ⟨i, hi⟩ := List.mem_iff_getElem?.mp htask
  obtain ⟨request, phase⟩ := task
  have hwrites := any_eq_false hwaiting fun _ => isRunning_of_writes
  have hreads := any_eq_false hwaiting fun _ => isRunning_of_reads
  cases phase with
  | inserted chunk =>
    refine canGoOn_of_act .lockChunks hi ?_
    simp [act, hwrites, hreads]
  | _ => cases hwaits

/-- When every call waits, and none between the table and the memory, each of them can go on. -/
lemma canGoOn_of_waiting (hwaiting : ∀ task ∈ s.tasks, task.phase.goesFirst = false)
    {task : Task K} (htask : task ∈ s.tasks) (hunfinished : task.phase.isFinished = false) :
    s.CanGoOn env := by
  obtain ⟨i, hi⟩ := List.mem_iff_getElem?.mp htask
  have hwaits := hwaiting task htask
  obtain ⟨request, phase⟩ := task
  have hmodel : s.any Phase.holdsModel = false := any_eq_false hwaiting fun phase hheld => by
    rw [Phase.goesFirst, isRunning_of_holdsModel hheld, Bool.true_or]
  have hwrites : s.any Phase.writes = false := any_eq_false hwaiting fun phase hheld => by
    rw [Phase.goesFirst, isRunning_of_writes hheld, Bool.true_or]
  have hwriters : s.any Phase.waitsToWrite = false := any_eq_false hwaiting fun phase hheld => by
    rw [Phase.goesFirst, hheld, Bool.or_true]
  have hconn : s.any Phase.holdsConn = false := any_eq_false hwaiting fun phase hheld => by
    cases phase with
    | connected embedding | inserted chunk | caching chunk => rfl
    | _ => cases hheld
  cases phase with
  | begun =>
    refine canGoOn_of_act .lockModel hi ?_
    simp [act, hmodel]
  | embedded embedding =>
    refine canGoOn_of_act .lockConn hi ?_
    simp [act, hconn]
  | matched embedding hits =>
    refine canGoOn_of_act .lockChunks hi ?_
    simp [act, hwrites, hwriters]
  | embedding | connected embedding | inserted chunk | caching chunk | scanning embedding hits =>
    cases hwaits
  | stored chunk | found embedding results | failed | lost => cases hunfinished

/-- **No call waits for ever.**  As long as there is a call that has not ended, one of them can go
on, and the calls take at most six steps each. -/
theorem progress {moves post : List (Move K)} (hrun : run (Memory.step env) start moves = some s)
    (hpost : run (Memory.step env) s post = some t)
    (htasks : ∀ move ∈ post, ∃ i action, move = .task i action) :
    post.length ≤ 6 * (s.tasks.countP fun task => !task.phase.isFinished) ∧
      ((∃ task ∈ t.tasks, task.phase.isFinished = false) → t.CanGoOn env) := by
  constructor
  · refine (length_le_of_measure stepsLeft ?_ htasks hpost).trans s.stepsLeft_le
    rintro u _ u' ⟨i, action, rfl⟩ hstep
    exact stepsLeft_lt hstep
  · rintro ⟨task, htask, hunfinished⟩
    have h : t.Agrees env 0 0 :=
      run_invariant (Agrees env 0 0) (fun _ _ _ h hstep => h.step hstep) (agrees_of_run hrun) hpost
    by_cases hrunning : ∃ other ∈ t.tasks, other.phase.isRunning = true
    · obtain ⟨other, hother, hrunning⟩ := hrunning
      exact h.canGoOn_of_isRunning hother hrunning
    · have hnone : ∀ other ∈ t.tasks, other.phase.isRunning = false := fun other hother =>
        Bool.not_eq_true _ ▸ fun hheld => hrunning ⟨other, hother, hheld⟩
      by_cases hwriter : ∃ other ∈ t.tasks, other.phase.waitsToWrite = true
      · obtain ⟨other, hother, hwaits⟩ := hwriter
        exact canGoOn_of_waitsToWrite hnone hother hwaits
      · refine canGoOn_of_waiting (fun other hother => ?_) htask hunfinished
        rw [Phase.goesFirst, hnone other hother, Bool.false_or]
        exact Bool.not_eq_true _ ▸ fun hwaits => hwriter ⟨other, hother, hwaits⟩

/-- The search has one step to go. -/
theorem progress_second : ∃ s, run (Memory.step unitVectors) start (firstNote ++ secondNote) =
    some s ∧ s.CanGoOn unitVectors := by
  refine ⟨_, rfl, (@progress ℚ _ _ unitVectors _ _ (firstNote ++ secondNote) [] rfl rfl
    (by simp)).2 ⟨⟨.search "tea".toList 5, _⟩, List.mem_of_getElem? (i := 1) rfl, rfl⟩⟩

end Memory

end RustyClaw.Rag
