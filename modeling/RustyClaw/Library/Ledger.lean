import Mathlib.Logic.Function.Basic
import Mathlib.Data.List.Basic

/-!
# Ledgers of jobs

A *book* has slots, each of which holds at most one job.  A job is live until it finishes with
a result; a finished job leaves its slot by being delivered, aborted or replaced by a new job.
Everything but the start of a job is entered in a log.

The relation `Move ok` describes one change of the book; a job starts under a name that has
not finished yet.  Its parameter `ok r r'` says which
result `r'` may be handed out for a job that finished with `r`; a component that never mixes
results up has `ok := Eq`.  The laws are

* `Move.consistent`: a finished job in a slot has its entry in the log, and no job finishes
  twice, under every `ok`;
* `Move.accounted`: under `ok := Eq`, every delivered result is the result of a finished job,
  and every finished job is still in its slot or has left it in one of the three ways.
-/

namespace Ledger

variable {κ ι ρ : Type*}

inductive Slot (ι ρ : Type*) where
  | empty
  | live (job : ι)
  | done (job : ι) (result : ρ)
  deriving DecidableEq

inductive Entry (κ ι ρ : Type*) where
  | finished (slot : κ) (job : ι) (result : ρ)
  | delivered (slot : κ) (job : ι) (result : ρ)
  | aborted (slot : κ) (job : ι)
  | replaced (slot : κ) (job : ι)
  deriving DecidableEq

structure Book (κ ι ρ : Type*) where
  slots : κ → Slot ι ρ
  log : List (Entry κ ι ρ)

/-- The book after `k` changed to `slot` and the entries were added to the log. -/
def Book.update [DecidableEq κ] (book : Book κ ι ρ) (k : κ) (slot : Slot ι ρ)
    (entries : List (Entry κ ι ρ)) : Book κ ι ρ :=
  { slots := Function.update book.slots k slot, log := book.log ++ entries }

/-- One change of a book. -/
inductive Move [DecidableEq κ] (ok : ρ → ρ → Prop) (book : Book κ ι ρ) : Book κ ι ρ → Prop
  | quiet : Move ok book book
  | start {k : κ} {job : ι} (hslot : book.slots k = .empty)
      (hfresh : ∀ result, Entry.finished k job result ∉ book.log) :
      Move ok book (book.update k (.live job) [])
  | finish {k : κ} {job : ι} {result : ρ} (hslot : book.slots k = .live job) :
      Move ok book (book.update k (.done job result) [.finished k job result])
  | deliver {k : κ} {job : ι} {result returned : ρ} (hslot : book.slots k = .done job result)
      (hok : ok result returned) :
      Move ok book (book.update k .empty [.delivered k job returned])
  | abortLive {k : κ} {job : ι} (hslot : book.slots k = .live job) :
      Move ok book (book.update k .empty [.aborted k job])
  | abortDone {k : κ} {job : ι} {result : ρ} (hslot : book.slots k = .done job result) :
      Move ok book (book.update k .empty [.aborted k job])
  | replace {k : κ} {job newJob : ι} {result : ρ} (hslot : book.slots k = .done job result)
      (hfresh : ∀ result, Entry.finished k newJob result ∉ book.log) :
      Move ok book (book.update k (.live newJob) [.replaced k job])

/-- The slots and the log tell the same story: a job that is done has been entered as
finished, a live job has not, and no job was entered with two results. -/
structure Book.Consistent (book : Book κ ι ρ) : Prop where
  done : ∀ k job result, book.slots k = .done job result →
    Entry.finished k job result ∈ book.log
  live : ∀ k job result, book.slots k = .live job → Entry.finished k job result ∉ book.log
  unique : ∀ k job result result', Entry.finished k job result ∈ book.log →
    Entry.finished k job result' ∈ book.log → result = result'

/-- Where a job that finished with `result` may be: in its slot, or out of it in one of the
three ways the log knows. -/
def Book.Settled (book : Book κ ι ρ) (k : κ) (job : ι) (result : ρ) : Prop :=
  book.slots k = .done job result ∨ Entry.aborted k job ∈ book.log ∨
    Entry.replaced k job ∈ book.log ∨ Entry.delivered k job result ∈ book.log

/-- Only results of finished jobs are delivered, and no finished job is lost. -/
structure Book.Accounted (book : Book κ ι ρ) : Prop where
  genuine : ∀ k job result, Entry.delivered k job result ∈ book.log →
    Entry.finished k job result ∈ book.log
  settled : ∀ k job result, Entry.finished k job result ∈ book.log →
    book.Settled k job result

section Laws

variable [DecidableEq κ] {ok : ρ → ρ → Prop} {book book' : Book κ ι ρ}

lemma Move.mono {ok' : ρ → ρ → Prop} (hok : ∀ r r', ok r r' → ok' r r')
    (h : Move ok book book') : Move ok' book book' := by
  cases h with
  | quiet => exact .quiet
  | start hslot hfresh => exact .start hslot hfresh
  | finish hslot => exact .finish hslot
  | deliver hslot hr => exact .deliver hslot (hok _ _ hr)
  | abortLive hslot => exact .abortLive hslot
  | abortDone hslot => exact .abortDone hslot
  | replace hslot hfresh => exact .replace hslot hfresh

/-- The log only grows. -/
lemma Move.log_subset (h : Move ok book book') {entry : Entry κ ι ρ} (he : entry ∈ book.log) :
    entry ∈ book'.log := by
  cases h <;> simp [Book.update, he]

lemma Book.Settled.of_slot_ne {k k' : κ} {job : ι} {result : ρ} {slot : Slot ι ρ}
    {entries : List (Entry κ ι ρ)} (h : book.Settled k' job result)
    (hslot : k' = k → book.slots k ≠ .done job result) :
    (book.update k slot entries).Settled k' job result := by
  rcases h with h | h | h | h
  · left
    by_cases hk : k' = k
    · subst hk
      exact absurd h (hslot rfl)
    · simpa [Book.update, hk] using h
  · exact .inr (.inl (by simp [Book.update, h]))
  · exact .inr (.inr (.inl (by simp [Book.update, h])))
  · exact .inr (.inr (.inr (by simp [Book.update, h])))

/-- A finished job leaves its slot with an entry that settles it. -/
lemma Book.Settled.leave {k k' : κ} {job job' : ι} {result result' : ρ} {slot : Slot ι ρ}
    {entry : Entry κ ι ρ} (h : book.Settled k' job' result')
    (hslot : book.slots k = .done job result)
    (hentry : entry = .aborted k job ∨ entry = .replaced k job ∨
      entry = .delivered k job result) :
    (book.update k slot [entry]).Settled k' job' result' := by
  by_cases hk : k' = k ∧ job' = job ∧ result' = result
  · obtain ⟨rfl, rfl, rfl⟩ := hk
    right
    rcases hentry with rfl | rfl | rfl
    · exact .inl (by simp [Book.update])
    · exact .inr (.inl (by simp [Book.update]))
    · exact .inr (.inr (by simp [Book.update]))
  · refine h.of_slot_ne fun hkk hdone => hk ?_
    rw [hslot] at hdone
    cases hdone
    exact ⟨hkk, rfl, rfl⟩

/-- A slot that does not become done, with no new finished entry, keeps a book consistent. -/
lemma Book.Consistent.update (hbook : book.Consistent) {k : κ} {slot : Slot ι ρ}
    {entries : List (Entry κ ι ρ)} (hdone : ∀ job result, slot ≠ .done job result)
    (hlive : ∀ job result, slot = .live job → Entry.finished k job result ∉ book.log)
    (hentries : ∀ k' job result, Entry.finished k' job result ∉ entries) :
    (book.update k slot entries).Consistent where
  done k' job result hslots := by
    by_cases hk : k' = k
    · subst hk
      simp only [Book.update, Function.update_self] at hslots
      exact absurd hslots (hdone job result)
    · simp only [Book.update, Function.update_of_ne hk] at hslots
      simp [Book.update, hbook.done k' job result hslots]
  live k' job result hslots := by
    by_cases hk : k' = k
    · subst hk
      simp only [Book.update, Function.update_self] at hslots
      simp [Book.update, hlive job result hslots, hentries]
    · simp only [Book.update, Function.update_of_ne hk] at hslots
      simp [Book.update, hbook.live k' job result hslots, hentries]
  unique k' job result result' h h' := by
    simp only [Book.update, List.mem_append, hentries, or_false] at h h'
    exact hbook.unique k' job result result' h h'

lemma Book.Consistent.finish (hbook : book.Consistent) {k : κ} {job : ι} {result : ρ}
    (hslot : book.slots k = .live job) :
    (book.update k (.done job result) [.finished k job result]).Consistent where
  done k' job' result' hslots := by
    by_cases hk : k' = k
    · subst hk
      simp only [Book.update, Function.update_self, Slot.done.injEq] at hslots
      obtain ⟨rfl, rfl⟩ := hslots
      simp [Book.update]
    · simp only [Book.update, Function.update_of_ne hk] at hslots
      simp [Book.update, hbook.done k' job' result' hslots]
  live k' job' result' hslots := by
    by_cases hk : k' = k
    · subst hk
      simp [Book.update] at hslots
    · simp only [Book.update, Function.update_of_ne hk] at hslots
      simp [Book.update, hbook.live k' job' result' hslots, hk]
  unique k' job' result₁ result₂ h₁ h₂ := by
    have hnone := hbook.live k job
    simp only [Book.update, List.mem_append, List.mem_singleton, Entry.finished.injEq] at h₁ h₂
    rcases h₁ with h₁ | ⟨rfl, rfl, rfl⟩
    · rcases h₂ with h₂ | ⟨rfl, rfl, rfl⟩
      · exact hbook.unique k' job' result₁ result₂ h₁ h₂
      · exact absurd h₁ (hnone result₁ hslot)
    · rcases h₂ with h₂ | ⟨-, -, rfl⟩
      · exact absurd h₂ (hnone result₂ hslot)
      · rfl

/-- Every move keeps a book consistent. -/
theorem Move.consistent (h : Move ok book book') (hbook : book.Consistent) :
    book'.Consistent := by
  cases h with
  | quiet => exact hbook
  | start hslot hfresh =>
    refine hbook.update (by simp) (fun job result hlive => ?_) (by simp)
    cases hlive
    exact hfresh result
  | finish hslot => exact hbook.finish hslot
  | deliver hslot hok => exact hbook.update (by simp) (by simp) (by simp)
  | abortLive hslot => exact hbook.update (by simp) (by simp) (by simp)
  | abortDone hslot => exact hbook.update (by simp) (by simp) (by simp)
  | replace hslot hfresh =>
    refine hbook.update (by simp) (fun job result hlive => ?_) (by simp)
    cases hlive
    exact hfresh result

/-- What holds of the results of the jobs in the slots holds of all that were entered. -/
lemma Move.forall_finished {P : ρ → Prop} (h : Move ok book book')
    (hslots : ∀ k job result, book'.slots k = .done job result → P result)
    (hlog : ∀ k job result, Entry.finished k job result ∈ book.log → P result)
    {k : κ} {job : ι} {result : ρ} (he : Entry.finished k job result ∈ book'.log) :
    P result := by
  cases h with
  | quiet => exact hlog k job result he
  | @finish k' job' result' hslot =>
    simp only [Book.update, List.mem_append, List.mem_singleton] at he
    rcases he with he | he
    · exact hlog k job result he
    · cases he
      exact hslots k job result (by simp [Book.update])
  | _ => exact hlog k job result (by simpa [Book.update] using he)

/-- A component that hands out each result as it is keeps its book accounted for. -/
theorem Move.accounted (h : Move Eq book book') (hbook : book.Consistent)
    (hacc : book.Accounted) : book'.Accounted := by
  cases h with
  | quiet => exact hacc
  | start hslot hfresh =>
    refine ⟨fun k job result he => ?_, fun k job result he => ?_⟩
    · simpa [Book.update] using hacc.genuine k job result (by simpa [Book.update] using he)
    · exact (hacc.settled k job result (by simpa [Book.update] using he)).of_slot_ne
        (by simp [hslot])
  | @finish k' job' result' hslot =>
    refine ⟨fun k job result he => ?_, fun k job result he => ?_⟩
    · have hold := hacc.genuine k job result (by simpa [Book.update] using he)
      simp [Book.update, hold]
    · simp only [Book.update, List.mem_append, List.mem_singleton] at he
      rcases he with he | he
      · exact (hacc.settled k job result he).of_slot_ne (by simp [hslot])
      · cases he
        exact .inl (by simp [Book.update])
  | @deliver k' job' result' returned hslot hok =>
    subst hok
    refine ⟨fun k job result he => ?_, fun k job result he => ?_⟩
    · simp only [Book.update, List.mem_append, List.mem_singleton] at he ⊢
      rcases he with he | he
      · exact .inl (hacc.genuine k job result he)
      · cases he
        exact .inl (hbook.done _ _ _ hslot)
    · refine (hacc.settled k job result ?_).leave hslot (.inr (.inr rfl))
      simpa [Book.update] using he
  | abortLive hslot =>
    refine ⟨fun k job result he => ?_, fun k job result he => ?_⟩
    · have hold := hacc.genuine k job result (by simpa [Book.update] using he)
      simp [Book.update, hold]
    · exact (hacc.settled k job result (by simpa [Book.update] using he)).of_slot_ne
        (by simp [hslot])
  | abortDone hslot =>
    refine ⟨fun k job result he => ?_, fun k job result he => ?_⟩
    · have hold := hacc.genuine k job result (by simpa [Book.update] using he)
      simp [Book.update, hold]
    · refine (hacc.settled k job result ?_).leave hslot (.inl rfl)
      simpa [Book.update] using he
  | replace hslot hfresh =>
    refine ⟨fun k job result he => ?_, fun k job result he => ?_⟩
    · have hold := hacc.genuine k job result (by simpa [Book.update] using he)
      simp [Book.update, hold]
    · refine (hacc.settled k job result ?_).leave hslot (.inr (.inl rfl))
      simpa [Book.update] using he

end Laws

end Ledger
