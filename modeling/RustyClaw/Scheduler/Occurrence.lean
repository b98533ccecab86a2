import Mathlib.Data.List.Chain
import Mathlib.Order.Bounds.Basic
import RustyClaw.Scheduler.Store

/-!
# How often one task is fired for an occurrence

A tick looks back sixty seconds and fires a task whose first occurrence in this window has come,
unless the task has run in the clock minute that the tick is in.  The window of an occurrence reaches
into the next clock minute, except for occurrences on the full minute, and ticks are closer together
than sixty seconds: two ticks in one window that lie in different clock minutes both fire.

The module is about one task under a sequence of ticks (`firings`).  When the occurrences are two
minutes apart and the ticks sixty seconds at most, exactly one tick fires for an occurrence if and
only if all ticks in its window lie in one clock minute (`countP_firings_first`).  A task that runs
once is gone after its first tick (`length_firings_first`).
-/

namespace RustyClaw.Cron

/-! ## Windows and minutes -/

/-- The number of a clock minute. -/
def minuteOf (t : Int) : Int := t / seconds 60

def DateTime.minute (now : DateTime) : Int := minuteOf now.time

/-- The minute in which the task has run, as the test of a tick computes it. -/
def ScheduledTask.lastMinute (task : ScheduledTask) : Int := ((task.lastRun.getD 0 / 60).toNat : Nat)

/-- The ticks that fire the task; a task that runs once is gone after the first. -/
def firings (cron : CronCrate) : ScheduledTask → List DateTime → List DateTime
  | _, [] => []
  | task, now :: ticks =>
    if task.isDue cron now then now :: if task.runOnce then [] else firings cron (task.ran now) ticks
    else firings cron task ticks

/-- The tick looks back at the occurrence. -/
def DateTime.inWindow (now : DateTime) (occurrence : Int) : Bool :=
  decide (occurrence ≤ now.time) && decide (now.time < occurrence + seconds 60)

/-- `after t` is the first occurrence strictly later than `t`. -/
def FirstAfter (occurrences : Set Int) (after : Schedule) : Prop :=
  ∀ t, match after t with
    | some next => IsLeast {o | o ∈ occurrences ∧ t < o} next
    | none => ∀ o ∈ occurrences, o ≤ t

/-- Successive occurrences are at least two minutes apart. -/
def TwoMinutesApart (occurrences : Set Int) : Prop :=
  ∀ o ∈ occurrences, ∀ o' ∈ occurrences, o < o' → o + seconds 120 ≤ o'

/-- The clock does not go back, and a tick comes at most sixty seconds after the one before. -/
def Ticking (ticks : List DateTime) : Prop :=
  ticks.IsChain fun now next => now.time ≤ next.time ∧ next.time ≤ now.time + seconds 60

/-- All ticks that look back at the occurrence lie in one clock minute. -/
def OneMinute (occurrence : Int) (ticks : List DateTime) : Prop :=
  ∀ now ∈ ticks, ∀ now' ∈ ticks, now.inWindow occurrence = true → now'.inWindow occurrence = true →
    now.minute = now'.minute

section Clock

variable {now : DateTime} {occurrence : Int}

lemma toNat_timestamp (now : DateTime) : (now.timestamp.toNat : Int) = now.time / seconds 1 := by
  have hstarted := now.started
  have hbounded := now.bounded
  simp only [seconds] at hstarted hbounded
  rw [DateTime.timestamp, UInt64.toNat_ofNat', Nat.mod_eq_of_lt]
  · simp only [seconds]
    omega
  · simp only [seconds]
    omega

lemma toNat_timestamp_div (now : DateTime) : ((now.timestamp / 60).toNat : Int) = now.minute := by
  have htimestamp := toNat_timestamp now
  have hsixty : (60 : UInt64).toNat = 60 := rfl
  rw [UInt64.toNat_div, hsixty, DateTime.minute, minuteOf]
  simp only [seconds] at htimestamp ⊢
  omega

lemma inWindow_iff :
    now.inWindow occurrence = true ↔
      occurrence ≤ now.time ∧ now.time < occurrence + seconds 60 := by
  rw [DateTime.inWindow, Bool.and_eq_true, decide_eq_true_eq, decide_eq_true_eq]

lemma minuteOf_le {t t' : Int} (h : t ≤ t') : minuteOf t ≤ minuteOf t' :=
  Int.ediv_le_ediv (by decide) h

lemma minuteOf_lt {t t' : Int} (h : t + seconds 60 ≤ t') : minuteOf t < minuteOf t' := by
  simp only [minuteOf, seconds] at h ⊢
  omega

/-- The clock minutes begin at the latest one minute after the epoch. -/
lemma minute_pos (now : DateTime) : 0 < now.minute := by
  have hstarted := now.started
  simp only [DateTime.minute, minuteOf, seconds] at hstarted ⊢
  omega

end Clock

section Ticks

variable {cron : CronCrate} {task : ScheduledTask} {after : Schedule} {occurrences : Set Int}
  {now : DateTime} {ticks : List DateTime} {occurrence : Int}

@[simp] lemma lastMinute_ran : (task.ran now).lastMinute = now.minute := toNat_timestamp_div now

/-- A tick fires the task when it looks back at an occurrence and the task has last run in an
earlier clock minute. -/
lemma isDue_iff (henabled : task.enabled = true) (hcron : cron task.cron = .ok after)
    (hafter : FirstAfter occurrences after) :
    task.isDue cron now = true ↔
      (∃ o ∈ occurrences, now.inWindow o = true) ∧ task.lastMinute < now.minute := by
  have hminutes : (task.lastRun.getD 0 / 60 < now.timestamp / 60) ↔
      task.lastMinute < now.minute := by
    rw [UInt64.lt_iff_toNat_lt, ← toNat_timestamp_div, ScheduledTask.lastMinute, Int.ofNat_lt]
  have hfirst := hafter (now.time - seconds 60)
  rw [ScheduledTask.isDue, henabled, Bool.true_and, hcron]
  dsimp only
  cases hnext : after (now.time - seconds 60) with
  | none =>
    rw [hnext] at hfirst
    refine iff_of_false Bool.false_ne_true ?_
    rintro ⟨⟨o, ho, hwindow⟩, -⟩
    have hlast := hfirst o ho
    have hlater := (inWindow_iff.mp hwindow).2
    omega
  | some next =>
    rw [hnext] at hfirst
    obtain ⟨⟨hoccurs, hlater⟩, hleast⟩ := hfirst
    dsimp only
    rw [Bool.and_eq_true, decide_eq_true_eq, decide_eq_true_eq, hminutes]
    refine and_congr_left fun _ => ⟨fun hcome => ?_, ?_⟩
    · exact ⟨next, hoccurs, inWindow_iff.mpr ⟨hcome, by omega⟩⟩
    · rintro ⟨o, ho, hwindow⟩
      obtain ⟨hcome, hlast⟩ := inWindow_iff.mp hwindow
      have hbefore : next ≤ o := hleast ⟨ho, by omega⟩
      omega

lemma firings_subset (task : ScheduledTask) (ticks : List DateTime) :
    ∀ now ∈ firings cron task ticks, now ∈ ticks := by
  induction ticks generalizing task with
  | nil => exact fun _ h => h
  | cons now ticks ih =>
    intro fired hfired
    rw [firings] at hfired
    split at hfired
    · rcases List.mem_cons.mp hfired with rfl | hrest
      · exact List.mem_cons_self
      · split at hrest
        · cases hrest
        · exact List.mem_cons_of_mem _ (ih _ fired hrest)
    · exact List.mem_cons_of_mem _ (ih _ fired hfired)

lemma countP_cons_of_inWindow (h : now.inWindow occurrence = true) (rest : List DateTime) :
    (now :: rest).countP (·.inWindow occurrence) = rest.countP (·.inWindow occurrence) + 1 :=
  List.countP_cons_of_pos h

/-- Ticks that do not look back at the occurrence do not fire for it. -/
lemma countP_firings_eq_zero (h : ∀ now ∈ ticks, now.inWindow occurrence = false) :
    (firings cron task ticks).countP (·.inWindow occurrence) = 0 := by
  refine List.countP_eq_zero.mpr fun now hnow => ?_
  rw [h now (firings_subset task ticks now hnow)]
  exact Bool.false_ne_true

lemma Ticking.le (h : Ticking (now :: ticks)) : ∀ next ∈ ticks, now.time ≤ next.time := by
  have hle : (now :: ticks).IsChain fun now next => now.time ≤ next.time :=
    h.imp fun _ _ hnext => hnext.1
  have hpairwise := List.isChain_iff_pairwise.mp hle
  exact (List.pairwise_cons.mp hpairwise).1

/-! ### Behind the first firing for an occurrence -/

/-- Once the task has run in a minute of the window, no later tick fires for the occurrence if and
only if none in the window lies in a later minute. -/
lemma countP_firings_eq_zero_iff (henabled : task.enabled = true)
    (hcron : cron task.cron = .ok after) (hafter : FirstAfter occurrences after)
    (hoccurs : occurrence ∈ occurrences) (hticks : Ticking (now :: ticks))
    (hnow : occurrence ≤ now.time) :
    (firings cron task ticks).countP (·.inWindow occurrence) = 0 ↔
      ∀ next ∈ ticks, next.inWindow occurrence = true → next.minute ≤ task.lastMinute := by
  induction ticks generalizing now with
  | nil => simp [firings]
  | cons next ticks ih =>
    have hnext : occurrence ≤ next.time := hnow.trans (hticks.le next List.mem_cons_self)
    have hrest := ih (List.isChain_cons_cons.mp hticks).2 hnext
    by_cases hwindow : next.inWindow occurrence = true
    · by_cases hdue : task.lastMinute < next.minute
      · have hfires : task.isDue cron next = true :=
          (isDue_iff henabled hcron hafter).mpr ⟨⟨occurrence, hoccurs, hwindow⟩, hdue⟩
        rw [firings, if_pos hfires, countP_cons_of_inWindow hwindow]
        refine iff_of_false (Nat.succ_ne_zero _) fun h => ?_
        exact absurd (h next List.mem_cons_self hwindow) (not_le.mpr hdue)
      · have hquiet : ¬ task.isDue cron next = true := fun hfires =>
          hdue ((isDue_iff henabled hcron hafter).mp hfires).2
        rw [firings, if_neg hquiet, hrest, List.forall_mem_cons]
        exact ⟨fun h => ⟨fun _ => not_lt.mp hdue, h⟩, fun h => h.2⟩
    · -- the window is over
      have hover : ∀ later ∈ next :: ticks, later.inWindow occurrence = false := by
        intro later hlater
        rw [Bool.eq_false_iff]
        intro hin
        refine hwindow (inWindow_iff.mpr ⟨hnext, ?_⟩)
        have hle : next.time ≤ later.time := by
          rcases List.mem_cons.mp hlater with rfl | hmem
          · exact le_rfl
          · exact Ticking.le (List.isChain_cons_cons.mp hticks).2 later hmem
        exact lt_of_le_of_lt hle (inWindow_iff.mp hin).2
      refine iff_of_true (countP_firings_eq_zero hover) fun later hlater hin => ?_
      rw [hover later hlater] at hin
      cases hin

/-! ### Up to the first firing for an occurrence -/

/-- The tick does not look back at an occurrence that is still to come. -/
lemma inWindow_eq_false (h : now.time < occurrence) : now.inWindow occurrence = false := by
  rw [Bool.eq_false_iff]
  exact fun hin => absurd (inWindow_iff.mp hin).1 (not_le.mpr h)

lemma exists_later (hbefore : now.time < occurrence)
    (hcome : ∃ next ∈ now :: ticks, occurrence ≤ next.time) :
    ∃ later ∈ ticks, occurrence ≤ later.time := by
  obtain ⟨later, hmem, hle⟩ := hcome
  rcases List.mem_cons.mp hmem with rfl | hmem
  · exact absurd hle (not_le.mpr hbefore)
  · exact ⟨later, hmem, hle⟩

/-- A tick before an occurrence fires in a minute before that of the occurrence. -/
lemma minute_lt_of_inWindow (hapart : TwoMinutesApart occurrences) {earlier : Int}
    (hearlier : earlier ∈ occurrences) (hoccurs : occurrence ∈ occurrences)
    (hwindow : now.inWindow earlier = true) (hbefore : now.time < occurrence) :
    now.minute < minuteOf occurrence := by
  obtain ⟨hcome, hlast⟩ := inWindow_iff.mp hwindow
  have hdistance := hapart earlier hearlier occurrence hoccurs (lt_of_le_of_lt hcome hbefore)
  refine minuteOf_lt ?_
  simp only [seconds] at hlast hdistance ⊢
  omega

/-- The first tick at or behind an occurrence looks back at it. -/
lemma inWindow_of_ticking {next : DateTime} (hticks : Ticking (now :: next :: ticks))
    (hbefore : now.time < occurrence) (hcome : occurrence ≤ next.time) :
    next.inWindow occurrence = true := by
  refine inWindow_iff.mpr ⟨hcome, ?_⟩
  have hgap := (List.isChain_cons_cons.mp hticks).1.2
  omega

/-- A recurring task whose last run is before the minute of the occurrence is fired exactly once for
it if and only if all ticks that look back at the occurrence lie in one clock minute. -/
lemma countP_firings_eq_one_iff (henabled : task.enabled = true)
    (hcron : cron task.cron = .ok after) (hafter : FirstAfter occurrences after)
    (hapart : TwoMinutesApart occurrences) (honce : task.runOnce = false)
    (hoccurs : occurrence ∈ occurrences) (hlast : task.lastMinute < minuteOf occurrence)
    (hticks : Ticking (now :: ticks)) (hbefore : now.time < occurrence)
    (hcome : ∃ next ∈ ticks, occurrence ≤ next.time) :
    (firings cron task ticks).countP (·.inWindow occurrence) = 1 ↔ OneMinute occurrence ticks := by
  induction ticks generalizing task now with
  | nil =>
    obtain ⟨next, hmem, -⟩ := hcome
    cases hmem
  | cons next ticks ih =>
    have hrest : Ticking (next :: ticks) := (List.isChain_cons_cons.mp hticks).2
    by_cases hearly : next.time < occurrence
    · have hout : next.inWindow occurrence = false := by
        rw [Bool.eq_false_iff]
        exact fun hin => absurd (inWindow_iff.mp hin).1 (not_le.mpr hearly)
      have hlater := exists_later hearly hcome
      have hone : OneMinute occurrence (next :: ticks) ↔ OneMinute occurrence ticks := by
        simp [OneMinute, hout]
      rw [firings, hone]
      split
      · next hdue =>
        -- fired for an earlier occurrence
        obtain ⟨⟨earlier, hearlier, hwindow⟩, -⟩ := (isDue_iff henabled hcron hafter).mp hdue
        rw [List.countP_cons_of_neg (by rw [hout]; exact Bool.false_ne_true), honce,
          if_neg Bool.false_ne_true]
        refine ih henabled hcron honce ?_ hrest hearly hlater
        rw [lastMinute_ran]
        exact minute_lt_of_inWindow hapart hearlier hoccurs hwindow hearly
      · exact ih henabled hcron honce hlast hrest hearly hlater
    · -- the first tick that looks back at the occurrence
      have hnext := not_lt.mp hearly
      have hwindow := inWindow_of_ticking hticks hbefore hnext
      have hdue : task.isDue cron next = true :=
        (isDue_iff henabled hcron hafter).mpr
          ⟨⟨occurrence, hoccurs, hwindow⟩, lt_of_lt_of_le hlast (minuteOf_le hnext)⟩
      have hran : (firings cron (task.ran next) ticks).countP (·.inWindow occurrence) = 0 ↔
          ∀ later ∈ ticks, later.inWindow occurrence = true →
            later.minute ≤ (task.ran next).lastMinute :=
        countP_firings_eq_zero_iff henabled hcron hafter hoccurs hrest hnext
      rw [firings, if_pos hdue, honce, if_neg Bool.false_ne_true, countP_cons_of_inWindow hwindow,
        Nat.add_eq_right, hran, lastMinute_ran]
      have hle : ∀ later ∈ ticks, next.minute ≤ later.minute :=
        fun later hlater => minuteOf_le (hrest.le later hlater)
      constructor
      · intro h
        have hsame : ∀ later ∈ next :: ticks, later.inWindow occurrence = true →
            later.minute = next.minute := by
          intro later hlater hin
          rcases List.mem_cons.mp hlater with rfl | hmem
          · rfl
          · exact le_antisymm (h later hmem hin) (hle later hmem)
        intro a ha b hb hina hinb
        rw [hsame a ha hina, hsame b hb hinb]
      · intro h later hlater hin
        exact (h later (List.mem_cons_of_mem _ hlater) next List.mem_cons_self hin hwindow).le

/-- A task that runs once is fired once when one of its occurrences comes. -/
lemma length_firings_eq_one (henabled : task.enabled = true)
    (hcron : cron task.cron = .ok after) (hafter : FirstAfter occurrences after)
    (honce : task.runOnce = true) (hoccurs : occurrence ∈ occurrences)
    (hlast : task.lastMinute < minuteOf occurrence) (hticks : Ticking (now :: ticks))
    (hbefore : now.time < occurrence) (hcome : ∃ next ∈ ticks, occurrence ≤ next.time) :
    (firings cron task ticks).length = 1 := by
  induction ticks generalizing now with
  | nil =>
    obtain ⟨next, hmem, -⟩ := hcome
    cases hmem
  | cons next ticks ih =>
    rw [firings]
    split
    · rfl
    · next hquiet =>
      have hearly : next.time < occurrence := by
        by_contra hnext
        have hwindow := inWindow_of_ticking hticks hbefore (not_lt.mp hnext)
        exact hquiet ((isDue_iff henabled hcron hafter).mpr
          ⟨⟨occurrence, hoccurs, hwindow⟩, lt_of_lt_of_le hlast (minuteOf_le (not_lt.mp hnext))⟩)
      exact ih (List.isChain_cons_cons.mp hticks).2 hearly (exists_later hearly hcome)

/-! ### From the first tick on -/

/-- The task has not run yet, or an earlier tick has run it for an earlier occurrence. -/
def RanBefore (occurrences : Set Int) (first : DateTime) (task : ScheduledTask) : Prop :=
  ∀ last, task.lastRun = some last → ∃ earlier : DateTime, last = earlier.timestamp ∧
    earlier.time ≤ first.time ∧ ∃ o ∈ occurrences, earlier.inWindow o = true

lemma RanBefore.lastMinute_lt {first : DateTime} (h : RanBefore occurrences first task)
    (hapart : TwoMinutesApart occurrences) (hoccurs : occurrence ∈ occurrences)
    (hfirst : first.time < occurrence) : task.lastMinute < minuteOf occurrence := by
  cases hlast : task.lastRun with
  | none =>
    have hzero : task.lastMinute = 0 := by rw [ScheduledTask.lastMinute, hlast]; rfl
    rw [hzero]
    exact lt_of_lt_of_le (minute_pos first) (minuteOf_le hfirst.le)
  | some last =>
    obtain ⟨earlier, rfl, hle, o, ho, hwindow⟩ := h last hlast
    have hminute : task.lastMinute = earlier.minute := by
      rw [ScheduledTask.lastMinute, hlast]
      exact toNat_timestamp_div earlier
    rw [hminute]
    exact minute_lt_of_inWindow hapart ho hoccurs hwindow (lt_of_le_of_lt hle hfirst)

lemma countP_firings_first (henabled : task.enabled = true) (hcron : cron task.cron = .ok after)
    (hafter : FirstAfter occurrences after) (hapart : TwoMinutesApart occurrences)
    (honce : task.runOnce = false) (hoccurs : occurrence ∈ occurrences)
    (hran : RanBefore occurrences now task) (hticks : Ticking (now :: ticks))
    (hfirst : now.time < occurrence) (hcome : ∃ next ∈ now :: ticks, occurrence ≤ next.time) :
    (firings cron task (now :: ticks)).countP (·.inWindow occurrence) = 1 ↔
      OneMinute occurrence (now :: ticks) := by
  have hout := inWindow_eq_false hfirst
  have hlater := exists_later hfirst hcome
  have hone : OneMinute occurrence (now :: ticks) ↔ OneMinute occurrence ticks := by
    simp [OneMinute, hout]
  rw [firings, hone]
  split
  · next hdue =>
    obtain ⟨⟨earlier, hearlier, hwindow⟩, -⟩ := (isDue_iff henabled hcron hafter).mp hdue
    rw [List.countP_cons_of_neg (by rw [hout]; exact Bool.false_ne_true), honce,
      if_neg Bool.false_ne_true]
    refine countP_firings_eq_one_iff henabled hcron hafter hapart honce hoccurs ?_ hticks hfirst
      hlater
    rw [lastMinute_ran]
    exact minute_lt_of_inWindow hapart hearlier hoccurs hwindow hfirst
  · exact countP_firings_eq_one_iff henabled hcron hafter hapart honce hoccurs
      (hran.lastMinute_lt hapart hoccurs hfirst) hticks hfirst hlater

lemma length_firings_first (henabled : task.enabled = true) (hcron : cron task.cron = .ok after)
    (hafter : FirstAfter occurrences after) (hapart : TwoMinutesApart occurrences)
    (honce : task.runOnce = true) (hoccurs : occurrence ∈ occurrences)
    (hran : RanBefore occurrences now task) (hticks : Ticking (now :: ticks))
    (hfirst : now.time < occurrence) (hcome : ∃ next ∈ now :: ticks, occurrence ≤ next.time) :
    (firings cron task (now :: ticks)).length = 1 := by
  rw [firings]
  split
  · rfl
  · exact length_firings_eq_one henabled hcron hafter honce hoccurs
      (hran.lastMinute_lt hapart hoccurs hfirst) hticks hfirst (exists_later hfirst hcome)

end Ticks

end RustyClaw.Cron
