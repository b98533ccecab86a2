import Mathlib.Algebra.Order.Field.Basic
import Mathlib.Data.List.Lookmap
import Mathlib.Tactic.Linarith
import Mathlib.Tactic.NormNum
import Mathlib.Tactic.Positivity
import RustyClaw.Library.Arrangement

/-!
# Searching the memory

`VectorStore::search` (`rag.rs`) ranks the chunks of the memory by a score of two parts, how similar
a chunk is to the query and how well its words match.  Only the first hundred chunks of the ranking
by similarity get a score; the comment in front of the loop speaks of these and all keyword hits.

For a chunk without a matching word that is no loss: a hundred others have at least its score
(`hybridScore_le_of_rest`).  A keyword hit that is not among the hundred cannot be found, though, and
nobody gets more than a hundred results.  `ranksAll_iff` says when the result is that of a ranking of
the whole store.

Scores are numbers of any ordered field; the similarity to the query and the rows that the keyword
index returns are parameters.
-/

namespace RustyClaw.Rag

open Arrangement OrderDual

/-! ## The store -/

structure RagChunk (K : Type) where
  id : Int
  content : List Char
  source : List Char
  embedding : List K

/-- The chunks in memory, with the largest row id that the database has given out. -/
structure VectorStore (K : Type) where
  chunks : List (RagChunk K)
  lastRowid : Int
  nodup : (chunks.map RagChunk.id).Nodup
  bounded : ∀ chunk ∈ chunks, chunk.id ≤ lastRowid

namespace VectorStore

variable {K : Type}

def empty : VectorStore K where
  chunks := []
  lastRowid := 0
  nodup := List.nodup_nil
  bounded _ h := absurd h List.not_mem_nil

lemma nodup_concat (store : VectorStore K) (chunk : RagChunk K)
    (h : chunk.id = store.lastRowid + 1) : ((store.chunks ++ [chunk]).map RagChunk.id).Nodup := by
  rw [List.map_append, List.nodup_append']
  refine ⟨store.nodup, List.nodup_singleton _, ?_⟩
  rw [List.map_singleton, List.disjoint_singleton]
  intro hmem
  obtain ⟨other, hother, heq⟩ := List.mem_map.mp hmem
  have hle := store.bounded other hother
  omega

lemma bounded_concat (store : VectorStore K) (chunk : RagChunk K)
    (h : chunk.id = store.lastRowid + 1) :
    ∀ chunk' ∈ store.chunks ++ [chunk], chunk'.id ≤ store.lastRowid + 1 := by
  intro chunk' hmem
  rcases List.mem_append.mp hmem with hmem | hmem
  · exact (store.bounded chunk' hmem).trans (by omega)
  · rw [List.mem_singleton.mp hmem, h]

/-- `insert_chunk`; the id is the next of an `AUTOINCREMENT` column. -/
def insertChunk (store : VectorStore K) (content source : List Char) (embedding : List K) :
    VectorStore K where
  chunks := store.chunks ++ [⟨store.lastRowid + 1, content, source, embedding⟩]
  lastRowid := store.lastRowid + 1
  nodup := store.nodup_concat _ rfl
  bounded := store.bounded_concat _ rfl

@[simp] lemma chunks_insertChunk (store : VectorStore K) (content source : List Char)
    (embedding : List K) : (store.insertChunk content source embedding).chunks =
      store.chunks ++ [⟨store.lastRowid + 1, content, source, embedding⟩] := rfl

@[simp] lemma lastRowid_insertChunk (store : VectorStore K) (content source : List Char)
    (embedding : List K) :
    (store.insertChunk content source embedding).lastRowid = store.lastRowid + 1 := rfl

end VectorStore

/-- The rows of the keyword query, each the id of a chunk and its `bm25`. -/
structure KeywordHits (K : Type) where
  rows : List (Int × K)
  nodup : (rows.map Prod.fst).Nodup
  atMost : rows.length ≤ 50

/-! ## The search -/

section Search

variable {K : Type} [Field K] [LinearOrder K]

/-- A stable sort by the score, highest first. -/
def sortByScore (scored : List (RagChunk K × K)) : List (RagChunk K × K) :=
  sortByKey (fun entry => toDual entry.2) scored

def ftsScore (hits : KeywordHits K) (id : Int) : K :=
  ((hits.rows.lookup id).map fun score => |score|).getD 0

def maxKeywordScore (hits : KeywordHits K) : K :=
  max ((hits.rows.map fun row => |row.2|).foldl max 0) (1 / 1000)

/-- The part of `search_blocking` behind the keyword query. -/
def scan (similarity : List K → K) (chunks : List (RagChunk K)) (hits : KeywordHits K)
    (limit : ℕ) : List (RagChunk K × K) :=
  let scored := sortByScore (chunks.map fun chunk => (chunk, similarity chunk.embedding))
  let maxVectorScore := max ((scored.head?.map Prod.snd).getD 1) (1 / 1000)
  let results := (scored.take 100).map fun entry =>
    let normalizedV := max entry.2 0 / maxVectorScore
    let normalizedK := ftsScore hits entry.1.id / maxKeywordScore hits
    (entry.1, normalizedV * (7 / 10) + normalizedK * (3 / 10))
  (sortByScore results).take limit

variable (similarity : List K → K) (store : VectorStore K) (hits : KeywordHits K)

def scoredChunks : List (RagChunk K × K) :=
  sortByScore (store.chunks.map fun chunk => (chunk, similarity chunk.embedding))

def maxVectorScore : K :=
  max (((scoredChunks similarity store).head?.map Prod.snd).getD 1) (1 / 1000)

def finalScore (vScore : K) (id : Int) : K :=
  let normalizedV := max vScore 0 / maxVectorScore similarity store
  let normalizedK := ftsScore hits id / maxKeywordScore hits
  normalizedV * (7 / 10) + normalizedK * (3 / 10)

/-- `search_blocking`, up to the wrapping of the results. -/
def searchBlocking (limit : ℕ) : List (RagChunk K × K) :=
  (sortByScore (((scoredChunks similarity store).take 100).map fun entry =>
    (entry.1, finalScore similarity store hits entry.2 entry.1.id))).take limit

/-! ## What is promised -/

def hybridScore (chunk : RagChunk K) : K :=
  finalScore similarity store hits (similarity chunk.embedding) chunk.id

/-- The results are those of a ranking of the whole store. -/
structure RanksAll (limit : ℕ) (results : List (RagChunk K × K)) : Prop where
  length_eq : results.length = min limit store.chunks.length
  distinct : (results.map fun result => result.1.id).Nodup
  scored : ∀ result ∈ results, result.1 ∈ store.chunks ∧
    result.2 = hybridScore similarity store hits result.1
  best : ∀ chunk ∈ store.chunks, (∀ result ∈ results, result.1 ≠ chunk) → ∀ result ∈ results,
    hybridScore similarity store hits chunk ≤ result.2
  sorted : results.Pairwise fun a b => b.2 ≤ a.2

/-! ## The condition -/

/-- The chunks by their similarity. -/
def vectorRanking : List (RagChunk K) := (scoredChunks similarity store).map Prod.fst

def IsHit (chunk : RagChunk K) : Prop := ∃ row ∈ hits.rows, row.1 = chunk.id

/-- No keyword hit behind the first hundred chunks has a score with which it would be a result. -/
def HitsInReach (limit : ℕ) : Prop :=
  ∀ chunk ∈ (vectorRanking similarity store).drop 100, IsHit hits chunk →
    limit ≤ ((vectorRanking similarity store).take 100).countP fun other =>
      hybridScore similarity store hits chunk ≤ hybridScore similarity store hits other

/-! ## The ranking of the slice -/

variable {similarity store hits} {limit : ℕ}

omit [Field K] in
lemma sortByScore_perm (scored : List (RagChunk K × K)) : (sortByScore scored).Perm scored :=
  sortByKey_perm _ _

omit [Field K] in
lemma pairwise_sortByScore (scored : List (RagChunk K × K)) :
    (sortByScore scored).Pairwise fun a b => b.2 ≤ a.2 :=
  pairwise_sortByKey (fun entry : RagChunk K × K => toDual entry.2) scored

omit [Field K] in
lemma snd_of_mem_scoredChunks {entry : RagChunk K × K}
    (h : entry ∈ scoredChunks similarity store) : entry.2 = similarity entry.1.embedding := by
  obtain ⟨chunk, -, rfl⟩ := List.mem_map.mp ((sortByScore_perm _).mem_iff.mp h)
  rfl

omit [Field K] in
lemma vectorRanking_perm : (vectorRanking similarity store).Perm store.chunks := by
  have hperm := (sortByScore_perm (store.chunks.map fun chunk =>
    (chunk, similarity chunk.embedding))).map Prod.fst
  rw [List.map_map] at hperm
  exact hperm.trans (List.Perm.of_eq (List.map_id _))

omit [Field K] in
lemma pairwise_vectorRanking :
    (vectorRanking similarity store).Pairwise fun a b =>
      similarity b.embedding ≤ similarity a.embedding := by
  rw [vectorRanking, List.pairwise_map]
  refine (pairwise_sortByScore _).imp_of_mem fun {a b} ha hb hab => ?_
  rwa [snd_of_mem_scoredChunks ha, snd_of_mem_scoredChunks hb] at hab

variable (similarity store hits) in
/-- The first chunks of the ranking by similarity, ranked by their scores. -/
def reranked : List (RagChunk K × K) :=
  sortByScore (((vectorRanking similarity store).take 100).map fun chunk =>
    (chunk, hybridScore similarity store hits chunk))

lemma searchBlocking_eq :
    searchBlocking similarity store hits limit = (reranked similarity store hits).take limit := by
  have hscores : ((scoredChunks similarity store).take 100).map (fun entry =>
      (entry.1, finalScore similarity store hits entry.2 entry.1.id)) =
      ((vectorRanking similarity store).take 100).map fun chunk =>
        (chunk, hybridScore similarity store hits chunk) := by
    rw [vectorRanking, ← List.map_take, List.map_map]
    refine List.map_congr_left fun entry hentry => ?_
    rw [Function.comp_apply, hybridScore,
      snd_of_mem_scoredChunks (List.mem_of_mem_take hentry)]
  rw [searchBlocking, hscores, reranked]

lemma mem_reranked {result : RagChunk K × K} :
    result ∈ reranked similarity store hits ↔
      result.1 ∈ (vectorRanking similarity store).take 100 ∧
        result.2 = hybridScore similarity store hits result.1 := by
  rw [reranked, (sortByScore_perm _).mem_iff, List.mem_map]
  constructor
  · rintro ⟨chunk, hchunk, rfl⟩
    exact ⟨hchunk, rfl⟩
  · rintro ⟨hchunk, hscore⟩
    exact ⟨result.1, hchunk, Prod.ext rfl hscore.symm⟩

lemma pairwise_reranked :
    (reranked similarity store hits).Pairwise fun a b => b.2 ≤ a.2 :=
  pairwise_sortByScore _

lemma length_reranked :
    (reranked similarity store hits).length = min 100 store.chunks.length := by
  rw [reranked, (sortByScore_perm _).length_eq, List.length_map, List.length_take,
    vectorRanking_perm.length_eq]

lemma countP_reranked (p : RagChunk K → Bool) :
    (reranked similarity store hits).countP (fun result => p result.1) =
      ((vectorRanking similarity store).take 100).countP p := by
  rw [reranked, (sortByScore_perm _).countP_eq, List.countP_map]
  rfl

lemma nodup_reranked :
    ((reranked similarity store hits).map fun result => result.1.id).Nodup := by
  have hperm := (sortByScore_perm (((vectorRanking similarity store).take 100).map fun chunk =>
    (chunk, hybridScore similarity store hits chunk))).map fun result => result.1.id
  rw [List.map_map] at hperm
  have htop : (((vectorRanking similarity store).take 100).map RagChunk.id).Sublist
      ((vectorRanking similarity store).map RagChunk.id) :=
    (List.take_sublist _ _).map _
  have hall : ((vectorRanking similarity store).map RagChunk.id).Nodup :=
    (vectorRanking_perm.map _).nodup_iff.mpr store.nodup
  exact hperm.nodup_iff.mpr (hall.sublist htop)

omit [Field K] in
lemma nodup_vectorRanking : (vectorRanking similarity store).Nodup :=
  vectorRanking_perm.nodup_iff.mpr (List.Nodup.of_map _ store.nodup)

/-! ## The result -/

lemma searchBlocking_sublist :
    (searchBlocking similarity store hits limit).Sublist (reranked similarity store hits) := by
  rw [searchBlocking_eq]
  exact List.take_sublist _ _

lemma length_searchBlocking :
    (searchBlocking similarity store hits limit).length =
      min limit (min 100 store.chunks.length) := by
  rw [searchBlocking_eq, List.length_take, length_reranked]

lemma mem_searchBlocking {result : RagChunk K × K}
    (h : result ∈ searchBlocking similarity store hits limit) :
    result.1 ∈ (vectorRanking similarity store).take 100 ∧
      result.2 = hybridScore similarity store hits result.1 :=
  mem_reranked.mp (searchBlocking_sublist.subset h)

/-- A chunk behind the first hundred is never found. -/
lemma ne_of_mem_rest {chunk : RagChunk K}
    (hchunk : chunk ∈ (vectorRanking similarity store).drop 100) :
    ∀ result ∈ searchBlocking similarity store hits limit, result.1 ≠ chunk := by
  rintro result hresult rfl
  exact List.disjoint_take_drop nodup_vectorRanking (Nat.le_refl 100)
    (mem_searchBlocking hresult).1 hchunk

lemma sorted_searchBlocking :
    (searchBlocking similarity store hits limit).Pairwise fun a b => b.2 ≤ a.2 :=
  pairwise_reranked.sublist searchBlocking_sublist

/-- Of the first hundred, nobody is left out who has a higher score than a result. -/
lemma le_of_mem_top {chunk : RagChunk K}
    (hchunk : chunk ∈ (vectorRanking similarity store).take 100)
    (hnot : ∀ result ∈ searchBlocking similarity store hits limit, result.1 ≠ chunk) :
    ∀ result ∈ searchBlocking similarity store hits limit,
      hybridScore similarity store hits chunk ≤ result.2 := by
  intro result hresult
  have hmem : (chunk, hybridScore similarity store hits chunk) ∈ reranked similarity store hits :=
    mem_reranked.mpr ⟨hchunk, rfl⟩
  rw [← List.take_append_drop limit (reranked similarity store hits), ← searchBlocking_eq,
    List.mem_append] at hmem
  rcases hmem with hmem | hmem
  · exact absurd rfl (hnot _ hmem)
  · have hsorted : (reranked similarity store hits).Pairwise fun a b =>
      toDual a.2 ≤ toDual b.2 := pairwise_reranked
    rw [searchBlocking_eq] at hresult
    exact key_le_of_take_of_drop hsorted hresult hmem

/-- A chunk that enough of the first hundred outdo has a higher score than no result. -/
lemma le_of_le_countP {chunk : RagChunk K}
    (hcount : limit ≤ ((vectorRanking similarity store).take 100).countP fun other =>
      hybridScore similarity store hits chunk ≤ hybridScore similarity store hits other) :
    ∀ result ∈ searchBlocking similarity store hits limit,
      hybridScore similarity store hits chunk ≤ result.2 := by
  have hsorted : (reranked similarity store hits).Pairwise fun a b =>
    toDual a.2 ≤ toDual b.2 := pairwise_reranked
  have hscores : (reranked similarity store hits).countP (fun result =>
        hybridScore similarity store hits chunk ≤ hybridScore similarity store hits result.1) =
      (reranked similarity store hits).countP fun result =>
        toDual result.2 ≤ toDual (hybridScore similarity store hits chunk) := by
    apply List.countP_congr
    intro result hresult
    rw [decide_eq_true_eq, decide_eq_true_eq, (mem_reranked.mp hresult).2]
    rfl
  rw [← countP_reranked, hscores] at hcount
  rw [searchBlocking_eq]
  exact key_le_of_le_countP hsorted hcount

/-! ## Who can be left out -/

lemma ftsScore_eq_zero {chunk : RagChunk K} (h : ¬IsHit hits chunk) :
    ftsScore hits chunk.id = 0 := by
  have hnone : hits.rows.lookup chunk.id = none := by
    rw [List.lookup_eq_none_iff]
    intro row hrow
    rw [bne_iff_ne]
    exact fun heq => h ⟨row, hrow, heq.symm⟩
  rw [ftsScore, hnone, Option.map_none, Option.getD_none]

section Ordered

variable [IsStrictOrderedRing K]

lemma ftsScore_nonneg (hits : KeywordHits K) (id : Int) : 0 ≤ ftsScore hits id := by
  unfold ftsScore
  cases hits.rows.lookup id with
  | none => exact le_refl 0
  | some score => exact abs_nonneg score

lemma thousandth_pos : (0 : K) < 1 / 1000 := by positivity

lemma maxVectorScore_pos : 0 < maxVectorScore similarity store :=
  lt_of_lt_of_le thousandth_pos (le_max_right _ _)

lemma maxKeywordScore_pos : 0 < maxKeywordScore hits :=
  lt_of_lt_of_le thousandth_pos (le_max_right _ _)

/-- A chunk without a matching word has no more than the score of one that is more similar. -/
lemma hybridScore_le_of_similarity_le {chunk other : RagChunk K} (hhit : ¬IsHit hits chunk)
    (hle : similarity chunk.embedding ≤ similarity other.embedding) :
    hybridScore similarity store hits chunk ≤ hybridScore similarity store hits other := by
  have hvector : max (similarity chunk.embedding) 0 / maxVectorScore similarity store ≤
      max (similarity other.embedding) 0 / maxVectorScore similarity store :=
    div_le_div_of_nonneg_right (max_le_max_right 0 hle) maxVectorScore_pos.le
  have hkeyword : 0 ≤ ftsScore hits other.id / maxKeywordScore hits :=
    div_nonneg (ftsScore_nonneg hits other.id) maxKeywordScore_pos.le
  rw [hybridScore, hybridScore, finalScore, finalScore, ftsScore_eq_zero hhit, zero_div]
  linarith

/-- Of two equally similar chunks the one with the better keyword score has the higher score. -/
lemma hybridScore_lt_of_ftsScore_lt {chunk other : RagChunk K}
    (heq : similarity chunk.embedding = similarity other.embedding)
    (hlt : ftsScore hits other.id < ftsScore hits chunk.id) :
    hybridScore similarity store hits other < hybridScore similarity store hits chunk := by
  have hkeyword : ftsScore hits other.id / maxKeywordScore hits <
      ftsScore hits chunk.id / maxKeywordScore hits :=
    div_lt_div_of_pos_right hlt maxKeywordScore_pos
  rw [hybridScore, hybridScore, finalScore, finalScore, heq]
  linarith

lemma hybridScore_le_of_rest {chunk other : RagChunk K} (hhit : ¬IsHit hits chunk)
    (hchunk : chunk ∈ (vectorRanking similarity store).drop 100)
    (hother : other ∈ (vectorRanking similarity store).take 100) :
    hybridScore similarity store hits chunk ≤ hybridScore similarity store hits other := by
  have hsorted : (vectorRanking similarity store).Pairwise fun a b =>
    similarity b.embedding ≤ similarity a.embedding := pairwise_vectorRanking
  rw [← List.take_append_drop 100 (vectorRanking similarity store), List.pairwise_append] at hsorted
  exact hybridScore_le_of_similarity_le hhit (hsorted.2.2 other hother chunk hchunk)

/-- The search is that of the whole store exactly when nothing is asked for, or the store has no
more chunks than get a score, or no more results are asked for than these and no keyword hit among
the others would be one of them. -/
theorem ranksAll_iff :
    RanksAll similarity store hits limit (searchBlocking similarity store hits limit) ↔
      limit = 0 ∨ store.chunks.length ≤ 100 ∨
        limit ≤ 100 ∧ HitsInReach similarity store hits limit := by
  constructor
  · intro h
    by_contra hnot
    rw [not_or, not_or] at hnot
    obtain ⟨hlimit, hlarge, hnot⟩ := hnot
    have hlength := h.length_eq
    rw [length_searchBlocking] at hlength
    have hle : limit ≤ 100 := by omega
    refine hnot ⟨hle, fun chunk hchunk _ => ?_⟩
    have hbest := h.best chunk
      (vectorRanking_perm.mem_iff.mp (List.mem_of_mem_drop hchunk)) (ne_of_mem_rest hchunk)
    have hall : (searchBlocking similarity store hits limit).countP (fun result =>
        hybridScore similarity store hits chunk ≤
          hybridScore similarity store hits result.1) = limit := by
      rw [List.countP_eq_length.mpr, length_searchBlocking]
      · omega
      · intro result hresult
        rw [decide_eq_true_eq, ← (mem_searchBlocking hresult).2]
        exact hbest result hresult
    rw [← countP_reranked, ← hall]
    exact searchBlocking_sublist.countP_le
  · intro h
    refine ⟨?_, nodup_reranked.sublist (searchBlocking_sublist.map _), fun result hresult => ?_,
      fun chunk hchunk hnot => ?_, sorted_searchBlocking⟩
    · rw [length_searchBlocking]
      omega
    · obtain ⟨htop, hscore⟩ := mem_searchBlocking hresult
      exact ⟨vectorRanking_perm.mem_iff.mp (List.mem_of_mem_take htop), hscore⟩
    · have hmem : chunk ∈ vectorRanking similarity store := vectorRanking_perm.mem_iff.mpr hchunk
      rw [← List.take_append_drop 100 (vectorRanking similarity store), List.mem_append] at hmem
      rcases hmem with htop | hrest
      · exact le_of_mem_top htop hnot
      rcases h with rfl | hsmall | ⟨-, hreach⟩
      · intro result hresult
        rw [searchBlocking_eq, List.take_zero] at hresult
        exact absurd hresult List.not_mem_nil
      · rw [← vectorRanking_perm.length_eq] at hsmall
        rw [List.drop_of_length_le hsmall] at hrest
        exact absurd hrest List.not_mem_nil
      · by_cases hhit : IsHit hits chunk
        · exact le_of_le_countP (hreach chunk hrest hhit)
        · intro result hresult
          rw [(mem_searchBlocking hresult).2]
          exact hybridScore_le_of_rest hhit hrest (mem_searchBlocking hresult).1

end Ordered

end Search

/-! ## A hit that is not found -/

/-- A store with as many copies of a note. -/
def notes : ℕ → VectorStore ℚ
  | 0 => .empty
  | n + 1 => (notes n).insertChunk "note".toList "notes.md".toList []

/-- The chunk of the last of so many notes. -/
def noteChunk (n : ℕ) : RagChunk ℚ where
  id := n
  content := "note".toList
  source := "notes.md".toList
  embedding := []

lemma lastRowid_notes (n : ℕ) : (notes n).lastRowid = n := by
  induction n with
  | zero => rfl
  | succ n ih => rw [notes, VectorStore.lastRowid_insertChunk, ih, Int.natCast_succ]

lemma chunks_notes_succ (n : ℕ) :
    (notes (n + 1)).chunks = (notes n).chunks ++ [noteChunk (n + 1)] := by
  rw [notes, VectorStore.chunks_insertChunk, lastRowid_notes, noteChunk, Int.natCast_succ]

lemma length_notes (n : ℕ) : (notes n).chunks.length = n := by
  induction n with
  | zero => rfl
  | succ n ih => rw [chunks_notes_succ, List.length_append, ih, List.length_singleton]

/-- The last note alone is found by its words. -/
def lastNoteHit : KeywordHits ℚ where
  rows := [(101, -1)]
  nodup := List.nodup_singleton _
  atMost := by decide

/-- Chunks that are equally similar stay in the order of the store. -/
lemma vectorRanking_const (store : VectorStore ℚ) (v : ℚ) :
    vectorRanking (fun _ => v) store = store.chunks := by
  have hscored : scoredChunks (fun _ => v) store = store.chunks.map fun chunk => (chunk, v) := by
    apply List.mergeSort_of_pairwise
    rw [List.pairwise_map]
    exact List.pairwise_of_forall fun _ _ => decide_eq_true (le_refl _)
  rw [vectorRanking, hscored, List.map_map]
  exact List.map_id _

theorem not_ranksAll_lastNote :
    ¬RanksAll (fun _ => 1) (notes 101) lastNoteHit 1
      (searchBlocking (fun _ => 1) (notes 101) lastNoteHit 1) := by
  intro h
  have hrest : noteChunk 101 ∈ (vectorRanking (fun _ => 1) (notes 101)).drop 100 := by
    rw [vectorRanking_const, chunks_notes_succ, List.drop_left' (length_notes 100)]
    exact List.mem_singleton_self _
  have hlength : (searchBlocking (fun _ => 1) (notes 101) lastNoteHit 1).length = 1 := by
    rw [length_searchBlocking, length_notes]
    rfl
  obtain ⟨result, hresult⟩ := List.length_eq_one_iff.mp hlength
  have hmem : result ∈ searchBlocking (fun _ => 1) (notes 101) lastNoteHit 1 := by
    rw [hresult]
    exact List.mem_singleton_self _
  have hother : ¬IsHit lastNoteHit result.1 := by
    rintro ⟨row, hrow, hid⟩
    have hids : ((notes 101).chunks.map RagChunk.id).Nodup := (notes 101).nodup
    have hchunk := (h.scored result hmem).1
    have hlast : noteChunk 101 ∈ (notes 101).chunks := by
      rw [chunks_notes_succ]
      exact List.mem_append_right _ (List.mem_singleton_self _)
    rw [List.mem_singleton.mp hrow] at hid
    exact ne_of_mem_rest hrest result hmem (List.inj_on_of_nodup_map hids hchunk hlast hid.symm)
  have hlt : hybridScore (fun _ => 1) (notes 101) lastNoteHit result.1 <
      hybridScore (fun _ => 1) (notes 101) lastNoteHit (noteChunk 101) := by
    refine hybridScore_lt_of_ftsScore_lt (Eq.refl (1 : ℚ)) ?_
    rw [ftsScore_eq_zero hother]
    show (0 : ℚ) < |(-1)|
    norm_num
  have hbest := h.best (noteChunk 101)
    (vectorRanking_perm.mem_iff.mp (List.mem_of_mem_drop hrest)) (ne_of_mem_rest hrest) result hmem
  rw [(mem_searchBlocking hmem).2] at hbest
  exact absurd hbest (not_le_of_gt hlt)

/-- In a store of two notes everything is found. -/
theorem ranksAll_twoNotes :
    RanksAll (fun _ => 1) (notes 2) lastNoteHit 1
      (searchBlocking (fun _ => 1) (notes 2) lastNoteHit 1) :=
  ranksAll_iff.mpr (.inr (.inl (by rw [length_notes]; omega)))

end RustyClaw.Rag
