import RustyClaw.Scheduler.Firing
import RustyClaw.Tools.Protocol

/-!
# Delays

`manage_schedule` reads a delay such as `5m` and makes of it the seven-field expression of the local
second at which the delay is over.  What is read is the text without the unit letters at its end; a
text that is no number counts as zero, the seconds are computed in 64 bits without a sign and then
taken as a number with a sign, and `chrono` panics where a time is out of its range.

`parsesDelay_iff` says which delays are handled as they should be: those that have no unit at their
end, which are refused, and the numbers with one unit after them whose time the calendar and the
`cron` crate know.  The local time zone is a parameter, and what the crate makes of an expression
with a year is an assumption (`ReadsYears`).
-/

namespace RustyClaw.Cron

open Glyph
open Json hiding str

/-! ## The calendar -/

/-- The fields of a `DateTime<Local>`. -/
structure CivilTime where
  year : Int
  month : Nat
  day : Nat
  hour : Nat
  minute : Nat
  second : Nat
  deriving DecidableEq

/-- The local time in a second since the epoch; `none` out of the range of `chrono`. -/
abbrev LocalTime := Int → Option CivilTime

def displayYear (year : Int) : List Char :=
  if year < 0 then '-' :: Nat.toDigits 10 year.natAbs else Nat.toDigits 10 year.natAbs

/-- `sec min hour day month dow year`. -/
def cronOf (target : CivilTime) : List Char :=
  Nat.toDigits 10 target.second ++ str " " ++ Nat.toDigits 10 target.minute ++ str " " ++
    Nat.toDigits 10 target.hour ++ str " " ++ Nat.toDigits 10 target.day ++ str " " ++
    Nat.toDigits 10 target.month ++ str " ? " ++ displayYear target.year

/-! ## The tool -/

structure ManageScheduleArgs where
  action : List Char
  id : Option (List Char)
  cron : Option (List Char)
  goal : Option (List Char)
  sessionId : Option (List Char)
  delay : Option (List Char)
  enabled : Option Bool

/-- What a call of the tool finds: whether arithmetic is checked for overflow, the clock, where the
call comes from, and `TELEGRAM_CHAT_ID`. -/
structure Surroundings where
  overflowChecks : Bool
  localTime : LocalTime
  now : DateTime
  replyTo : List Char
  telegramChatId : Option (List Char)

section Tool

variable (w : Surroundings)

/-- `a * b` on `u64`. -/
def mulU64 (a b : UInt64) : Option UInt64 :=
  if w.overflowChecks && decide (2 ^ 64 ≤ a.toNat * b.toNat) then none else some (a * b)

/-- `delay_str.trim_end_matches(unit).parse::<u64>().unwrap_or(0)`. -/
def leadingNumber (unit : Char) (delay : List Char) : UInt64 :=
  UInt64.ofNat ((parseUnsigned (2 ^ 64) (delay.rdropWhile (· == unit))).getD 0)

/-- The seconds of a delay; `none` when the multiplication panics. -/
def delaySeconds (delay : List Char) : Option (Except ToolError UInt64) :=
  if delay.getLast? = some 's' then some (.ok (leadingNumber 's' delay))
  else if delay.getLast? = some 'm' then (mulU64 w (leadingNumber 'm' delay) 60).map .ok
  else if delay.getLast? = some 'h' then (mulU64 w (leadingNumber 'h' delay) 3600).map .ok
  else some (.error (.invalidArguments "Format delay as '10s', '5m', or '1h'"))

/-- `i64::MAX / 1000`. -/
def maxSeconds : Nat := 9223372036854775

/-- `chrono::Local::now() + chrono::Duration::seconds(seconds as i64)`; `none` when it panics. -/
def targetTime (seconds : UInt64) : Option CivilTime :=
  let duration := seconds.toInt64.toInt
  if duration.natAbs ≤ maxSeconds then
    w.localTime ((w.now.time + Cron.seconds duration) / Cron.seconds 1)
  else none

/-- The expression of a delay. -/
def delayCron (delay : List Char) : Option (Except ToolError (List Char)) :=
  (delaySeconds w delay).bind fun
    | .error error => some (.error error)
    | .ok seconds => (targetTime w seconds).map fun target => .ok (cronOf target)

def replyToOf : List Char :=
  if w.replyTo = str "cli" then
    match w.telegramChatId with
    | some chatId => str "telegram:" ++ chatId
    | none => w.replyTo
  else w.replyTo

/-- The part of `execute` for `add`, up to the call of the scheduler; `none` when it panics. -/
def addRequest (args : ManageScheduleArgs) : Option (Except ToolError Op) :=
  match args.id with
  | none => some (.error (.invalidArguments "id is required for add"))
  | some id =>
    match args.goal with
    | none => some (.error (.invalidArguments "goal is required for add"))
    | some goal =>
      let cron : Option (Except ToolError (List Char)) :=
        match args.delay with
        | some delay => delayCron w delay
        | none =>
          match args.cron with
          | some cron => some (.ok cron)
          | none => some (.error (.invalidArguments "cron or delay is required for add"))
      cron.map fun
        | .error error => .error error
        | .ok cron => .ok (.addTask
          { id := id, cron := cron, goal := goal
            sessionId := args.sessionId.getD (str "cron_" ++ id)
            replyTo := replyToOf w, enabled := true, runOnce := args.delay.isSome
            lastRun := none })

/-- What `execute` asks of the scheduler; `none` when it panics. -/
def request (args : ManageScheduleArgs) : Option (Except ToolError Op) :=
  if args.action = str "add" then addRequest w args
  else if args.action = str "remove" then
    match args.id with
    | none => some (.error (.invalidArguments "id is required for remove"))
    | some id => some (.ok (.removeTask id))
  else if args.action = str "toggle" then
    match args.id with
    | none => some (.error (.invalidArguments "id is required for toggle"))
    | some id =>
      match args.enabled with
      | none => some (.error (.invalidArguments "enabled is required for toggle"))
      | some enabled => some (.ok (.toggleTask id enabled))
  else if args.action = str "list" then some (.ok .listTasks)
  else some (.error (.invalidArguments ("Unknown action: " ++ String.ofList args.action)))

end Tool

/-! ## What a delay should do -/

def unitSeconds : Char → Option Nat
  | 's' => some 1
  | 'm' => some 60
  | 'h' => some 3600
  | _ => none

/-- The delay is a decimal number with one unit after it, together `n` seconds. -/
def IsDelay (delay : List Char) (n : Nat) : Prop :=
  ∃ digits unit u, delay = digits ++ [unit] ∧ digits ≠ [] ∧ allDigits digits = true ∧
    unitSeconds unit = some u ∧ n = Nat.ofDigitChars 10 digits 0 * u

/-- The scheduler accepts the task and stores it, it runs once, and its only occurrence is the
second `t`. -/
structure SchedulesOnly (cron : CronCrate) (task : ScheduledTask) (t : Int) : Prop where
  enabled : task.enabled = true
  runOnce : task.runOnce = true
  occurs : ∃ after, cron task.cron = .ok after ∧ FirstAfter {seconds t} after
  stored : ∀ (s s' : Scheduler) (call : Nat) (order : Table.Order (List Char) ScheduledTask),
    s.calls call = some ⟨.addTask task, .ready⟩ → step cron s (.change call order) = some s' →
      s'.tasks.lookup task.id = some task

/-- The second that the clock shows. -/
def DateTime.second (now : DateTime) : Int := now.time / seconds 1

/-- The delay is a number of seconds and the task is scheduled for the second that is so much later,
or the arguments are refused and the scheduler is not called. -/
def ParsesDelay (cron : CronCrate) (w : Surroundings) (args : ManageScheduleArgs)
    (delay : List Char) : Prop :=
  (∃ n task, IsDelay delay n ∧ request w args = some (.ok (.addTask task)) ∧
      SchedulesOnly cron task (w.now.second + n)) ∨
    ∃ message, request w args = some (.error (.invalidArguments message))

/-! ## Which delays do so -/

/-- What the `cron` crate makes of the expression of a local time: it knows the years from 1970 to
2100, and all seconds with this local time are occurrences. -/
structure ReadsYears (cron : CronCrate) (localTime : LocalTime) : Prop where
  once : ∀ target t, 1970 ≤ target.year → target.year ≤ 2100 → localTime t = some target →
    (∀ t', localTime t' = some target → t' = t) →
      ∃ after, cron (cronOf target) = .ok after ∧ FirstAfter {seconds t} after
  twice : ∀ target t t', localTime t = some target → localTime t' = some target → t ≠ t' →
    ∀ after o, cron (cronOf target) = .ok after → ¬ FirstAfter {o} after
  refuses : ∀ target, target.year < 1970 ∨ 2100 < target.year →
    ∃ error, cron (cronOf target) = .error error

/-- The time `n` seconds from now is in the range of `chrono`, in a year that the `cron` crate knows,
and no other second has its local time. -/
def InRange (w : Surroundings) (n : Nat) : Prop :=
  n ≤ maxSeconds ∧ ∃ target, w.localTime (w.now.second + n) = some target ∧
    1970 ≤ target.year ∧ target.year ≤ 2100 ∧
      ∀ t, w.localTime t = some target → t = w.now.second + n

/-- The task has no id or goal, or the delay has no unit at its end, or it is a number in range with
one unit. -/
def WellFormed (w : Surroundings) (args : ManageScheduleArgs) (delay : List Char) : Prop :=
  args.id = none ∨ args.goal = none ∨
    (∀ unit, delay.getLast? = some unit → unitSeconds unit = none) ∨
      ∃ n, IsDelay delay n ∧ InRange w n

/-! ## What is read -/

section Reading

variable {w : Surroundings} {delay digits : List Char} {unit : Char} {u n : Nat}

lemma unitSeconds_eq_some (h : unitSeconds unit = some u) :
    unit.isDigit = false ∧ 1 ≤ u ∧ u ≤ 3600 := by
  unfold unitSeconds at h
  split at h <;> cases h <;> decide

/-- A unit stands for a factor. -/
lemma delaySeconds_unit (hlast : delay.getLast? = some unit) (hunit : unitSeconds unit = some u) :
    delaySeconds w delay = (mulU64 w (leadingNumber unit delay) (UInt64.ofNat u)).map .ok := by
  unfold delaySeconds
  rw [hlast]
  unfold unitSeconds at hunit
  split at hunit
  · cases hunit
    have hone : mulU64 w (leadingNumber 's' delay) 1 = some (leadingNumber 's' delay) := by
      have hlt := (leadingNumber 's' delay).toNat_lt
      have hsmall : ¬ 2 ^ 64 ≤ (leadingNumber 's' delay).toNat * (1 : UInt64).toNat := by
        rw [show (1 : UInt64).toNat = 1 from rfl]
        omega
      rw [mulU64, decide_eq_false hsmall, Bool.and_false, if_neg Bool.false_ne_true,
        UInt64.mul_one]
    exact (congrArg (Option.map Except.ok) hone).symm
  · cases hunit
    rfl
  · cases hunit
    rfl
  · cases hunit

lemma delaySeconds_eq_error (h : ∀ unit, delay.getLast? = some unit → unitSeconds unit = none) :
    delaySeconds w delay =
      some (.error (.invalidArguments "Format delay as '10s', '5m', or '1h'")) := by
  have hne : ∀ unit u, unitSeconds unit = some u → delay.getLast? ≠ some unit := by
    intro unit u hunit hlast
    rw [h unit hlast] at hunit
    cases hunit
  rw [delaySeconds, if_neg (hne 's' 1 rfl), if_neg (hne 'm' 60 rfl), if_neg (hne 'h' 3600 rfl)]

/-- A number with one unit is read as the number. -/
lemma leadingNumber_digits (hne : digits ≠ []) (hdigits : allDigits digits = true)
    (hunit : unit.isDigit = false) (hlt : Nat.ofDigitChars 10 digits 0 < 2 ^ 64) :
    leadingNumber unit (digits ++ [unit]) = UInt64.ofNat (Nat.ofDigitChars 10 digits 0) := by
  have hall : ∀ c ∈ digits, c.isDigit = true := List.all_eq_true.mp hdigits
  have htrim : (digits ++ [unit]).rdropWhile (· == unit) = digits := by
    rw [List.rdropWhile_concat, if_pos (beq_self_eq_true unit)]
    apply List.rdropWhile_eq_self_iff.mpr
    intro hlast hunit'
    have hdigit := hall _ (List.getLast_mem hlast)
    rw [eq_of_beq hunit', hunit] at hdigit
    cases hdigit
  rw [leadingNumber, htrim, parseUnsigned_digits hne hdigits hlt]
  rfl

lemma toInt_ofNat (h : n ≤ maxSeconds) : (UInt64.ofNat n).toInt64.toInt = n := by
  unfold maxSeconds at h
  have hnat : (UInt64.ofNat n).toBitVec.toNat = n := by
    show (UInt64.ofNat n).toNat = n
    rw [UInt64.toNat_ofNat', Nat.mod_eq_of_lt (by omega)]
  show (UInt64.ofNat n).toBitVec.toInt = n
  rw [BitVec.toInt_eq_toNat_of_lt (by rw [hnat]; omega), hnat]

lemma targetTime_ofNat (h : n ≤ maxSeconds) :
    targetTime w (UInt64.ofNat n) = w.localTime (w.now.second + n) := by
  have hquotient : (w.now.time + seconds n) / seconds 1 = w.now.second + n := by
    simp only [seconds, DateTime.second]
    omega
  rw [targetTime, toInt_ofNat h, if_pos (by simpa using h), hquotient]

/-- A number of seconds in range reaches the calendar. -/
lemma delayCron_of_isDelay (hdelay : IsDelay delay n) (hn : n ≤ maxSeconds) :
    delayCron w delay =
      (w.localTime (w.now.second + n)).map fun target => .ok (cronOf target) := by
  obtain ⟨digits, unit, u, rfl, hne, hdigits, hunit, rfl⟩ := hdelay
  obtain ⟨hnodigit, hu, hu'⟩ := unitSeconds_eq_some hunit
  set value := Nat.ofDigitChars 10 digits 0
  have hproduct : value * u < 2 ^ 64 := by
    unfold maxSeconds at hn
    omega
  have hvalue : value < 2 ^ 64 := lt_of_le_of_lt (Nat.le_mul_of_pos_right _ hu) hproduct
  have hlast : (digits ++ [unit]).getLast? = some unit := List.getLast?_concat
  have hmul : mulU64 w (UInt64.ofNat value) (UInt64.ofNat u) = some (UInt64.ofNat (value * u)) := by
    rw [mulU64, UInt64.toNat_ofNat', UInt64.toNat_ofNat', Nat.mod_eq_of_lt hvalue,
      Nat.mod_eq_of_lt (by omega), decide_eq_false (Nat.not_le.mpr hproduct), Bool.and_false,
      if_neg Bool.false_ne_true, UInt64.ofNat_mul]
  rw [delayCron, delaySeconds_unit hlast hunit, leadingNumber_digits hne hdigits hnodigit hvalue,
    hmul, Option.map_some, Option.bind_some, ← targetTime_ofNat hn]

end Reading

/-! ## Handled delays -/

section Handled

variable {cron : CronCrate} {w : Surroundings} {args : ManageScheduleArgs}
  {delay id goal : List Char} {n : Nat} {task : ScheduledTask}

/-- A schedule has one set of occurrences. -/
lemma eq_of_firstAfter {after : Schedule} {o o' : Int} (h : FirstAfter {o} after)
    (h' : FirstAfter {o'} after) : o = o' := by
  have hbefore : ∀ o, FirstAfter {o} after → ∀ t, t < o → after t = some o := by
    intro o h t ht
    have hfirst := h t
    cases hafter : after t with
    | none =>
      rw [hafter] at hfirst
      exact absurd (hfirst o rfl) (not_le.mpr ht)
    | some next =>
      rw [hafter] at hfirst
      exact congrArg some hfirst.1.1
  have hmin := hbefore o h (min o o' - 1) (by omega)
  rw [hbefore o' h' (min o o' - 1) (by omega)] at hmin
  exact (Option.some_inj.mp hmin).symm

lemma stored_of_change {s s' : Scheduler} {call : Nat}
    {order : Table.Order (List Char) ScheduledTask}
    (hcall : s.calls call = some ⟨.addTask task, .ready⟩)
    (hstep : step cron s (.change call order) = some s') :
    s'.tasks.lookup task.id = some task := by
  simp only [step, hcall, Scheduler.changeTasks, Option.some.injEq] at hstep
  rw [← hstep]
  exact Finmap.lookup_insert _

/-- What a request with a delay comes from. -/
lemma request_of_delay (haction : args.action = str "add") (hdelay : args.delay = some delay)
    (hid : args.id = some id) (hgoal : args.goal = some goal) :
    request w args = (delayCron w delay).map fun
      | .error error => .error error
      | .ok cron => .ok (.addTask
        { id := id, cron := cron, goal := goal
          sessionId := args.sessionId.getD (str "cron_" ++ id)
          replyTo := replyToOf w, enabled := true, runOnce := true, lastRun := none }) := by
  rw [request, if_pos haction, addRequest, hid, hgoal, hdelay]
  rfl

/-- With a unit at the end the arguments are not refused. -/
lemma delayCron_unit {unit : Char} {u : Nat} (hlast : delay.getLast? = some unit)
    (hunit : unitSeconds unit = some u) {result : Except ToolError (List Char)}
    (h : delayCron w delay = some result) :
    ∃ (seconds : UInt64) (target : CivilTime),
      targetTime w seconds = some target ∧ result = .ok (cronOf target) := by
  rw [delayCron, delaySeconds_unit hlast hunit] at h
  obtain ⟨read, hread, h⟩ := Option.bind_eq_some_iff.mp h
  obtain ⟨seconds, -, rfl⟩ := Option.map_eq_some_iff.mp hread
  obtain ⟨target, htarget, rfl⟩ := Option.map_eq_some_iff.mp h
  exact ⟨seconds, target, htarget, rfl⟩

/-- A delay that is scheduled for the right second is in range: the time of another second would be
read as an occurrence of its own. -/
lemma inRange_of_schedules (hreads : ReadsYears cron w.localTime) {seconds' : UInt64}
    {target : CivilTime} (htarget : targetTime w seconds' = some target)
    {after : Schedule} (hcron : cron (cronOf target) = .ok after)
    (hafter : FirstAfter {seconds (w.now.second + n)} after) : InRange w n := by
  set duration := seconds'.toInt64.toInt with hduration
  have hquotient : (w.now.time + seconds duration) / seconds 1 = w.now.second + duration := by
    simp only [seconds, DateTime.second]
    omega
  rw [targetTime] at htarget
  split at htarget
  · next hbound =>
    rw [← hduration] at hbound htarget
    rw [hquotient] at htarget
    have hyears : 1970 ≤ target.year ∧ target.year ≤ 2100 := by
      by_contra hyear
      obtain ⟨error, herror⟩ := hreads.refuses target (by omega)
      rw [hcron] at herror
      cases herror
    have hunique : ∀ t, w.localTime t = some target → t = w.now.second + duration := by
      intro t ht
      by_contra hne
      exact hreads.twice target t _ ht htarget hne after _ hcron hafter
    obtain ⟨after', hcron', hafter'⟩ :=
      hreads.once target _ hyears.1 hyears.2 htarget hunique
    rw [hcron, Except.ok.injEq] at hcron'
    rw [← hcron'] at hafter'
    have hsame : duration = n := by
      have := eq_of_firstAfter hafter hafter'
      simp only [seconds] at this
      omega
    rw [hsame] at hbound htarget hunique
    exact ⟨by simpa using hbound, target, htarget, hyears.1, hyears.2, hunique⟩
  · cases htarget

/-- A delay is handled as it should be exactly when it has no unit at its end, or is a number with
one unit whose time is in range. -/
theorem parsesDelay_iff (hreads : ReadsYears cron w.localTime) (haction : args.action = str "add")
    (hdelay : args.delay = some delay) :
    ParsesDelay cron w args delay ↔ WellFormed w args delay := by
  constructor
  · intro h
    cases hid : args.id with
    | none => exact Or.inl hid
    | some id =>
      cases hgoal : args.goal with
      | none => exact Or.inr (Or.inl hgoal)
      | some goal =>
        by_cases hunits : ∀ unit, delay.getLast? = some unit → unitSeconds unit = none
        · exact Or.inr (Or.inr (Or.inl hunits))
        · obtain ⟨unit, hlast, hsome⟩ : ∃ unit, delay.getLast? = some unit ∧
              unitSeconds unit ≠ none := by
            simpa using hunits
          obtain ⟨u, hunit⟩ := Option.ne_none_iff_exists'.mp hsome
          have hrequest := request_of_delay (w := w) haction hdelay hid hgoal
          rcases h with ⟨n, task, hn, hadds, honly⟩ | ⟨message, hrefused⟩
          · rw [hadds] at hrequest
            obtain ⟨result, hresult, hop⟩ := Option.map_eq_some_iff.mp hrequest.symm
            obtain ⟨seconds', target, htarget, rfl⟩ := delayCron_unit hlast hunit hresult
            simp only [Except.ok.injEq, Op.addTask.injEq] at hop
            obtain ⟨after, hcron, hafter⟩ := honly.occurs
            rw [← hop] at hcron
            exact Or.inr (Or.inr (Or.inr ⟨n, hn, inRange_of_schedules hreads htarget hcron hafter⟩))
          · rw [hrefused] at hrequest
            obtain ⟨result, hresult, hop⟩ := Option.map_eq_some_iff.mp hrequest.symm
            obtain ⟨seconds', target, htarget, rfl⟩ := delayCron_unit hlast hunit hresult
            cases hop
  · intro h
    cases hid : args.id with
    | none =>
      refine Or.inr ⟨"id is required for add", ?_⟩
      rw [request, if_pos haction, addRequest, hid]
    | some id =>
      cases hgoal : args.goal with
      | none =>
        refine Or.inr ⟨"goal is required for add", ?_⟩
        rw [request, if_pos haction, addRequest, hid, hgoal]
      | some goal =>
        have hrequest := request_of_delay (w := w) haction hdelay hid hgoal
        rcases h with h | h | h | ⟨n, hn, hle, target, htarget, hfrom, hto, hunique⟩
        · rw [hid] at h
          cases h
        · rw [hgoal] at h
          cases h
        · refine Or.inr ⟨"Format delay as '10s', '5m', or '1h'", ?_⟩
          rw [hrequest, delayCron, delaySeconds_eq_error h]
          rfl
        · obtain ⟨after, hcron, hafter⟩ := hreads.once target _ hfrom hto htarget hunique
          rw [delayCron_of_isDelay hn hle, htarget] at hrequest
          exact Or.inl ⟨n, _, hn, hrequest, rfl, rfl, ⟨after, hcron, hafter⟩,
            fun _ _ _ _ => stored_of_change⟩

end Handled

/-! ## One minute of a calendar -/

section Examples

/-- 8:40 on the 21st of March 2026, in Greenwich. -/
def eightForty (second : Nat) : CivilTime := ⟨2026, 3, 21, 8, 40, second⟩

def minuteStart : Int := 1774082400

/-- A calendar of one minute. -/
def oneMinuteTime : LocalTime := fun t =>
  if minuteStart ≤ t ∧ t < minuteStart + 60 then some (eightForty (t - minuteStart).toNat) else none

/-- What the crate makes of the expressions of this minute. -/
def oneMinuteCron : CronCrate := fun text =>
  match (List.range 60).find? fun second => decide (cronOf (eightForty second) = text) with
  | some second => .ok (onceAt (seconds (minuteStart + second)))
  | none => .error (str "Invalid expression")

lemma oneMinuteTime_eq_some {t : Int} {target : CivilTime} (h : oneMinuteTime t = some target) :
    ∃ second < 60, t = minuteStart + (second : Nat) ∧ target = eightForty second := by
  unfold oneMinuteTime at h
  split at h
  · next ht =>
    exact ⟨(t - minuteStart).toNat, by omega, by omega, (Option.some_inj.mp h).symm⟩
  · cases h

/-- The last field of an expression is the year. -/
lemma takeWhile_reverse_cronOf (target : CivilTime) :
    (cronOf target).reverse.takeWhile (fun c => decide (c ≠ ' ')) =
      (displayYear target.year).reverse := by
  have hyear : ∀ c ∈ (displayYear target.year).reverse, decide (c ≠ ' ') = true := by
    intro c hc
    have hdigits : ' ' ∉ Nat.toDigits 10 target.year.natAbs := Text.not_mem_toDigits (by decide) _
    rw [List.mem_reverse, displayYear] at hc
    apply decide_eq_true
    rintro rfl
    split at hc
    · rcases List.mem_cons.mp hc with hminus | hc
      · exact absurd hminus (by decide)
      · exact hdigits hc
    · exact hdigits hc
  rw [cronOf, List.reverse_append, List.takeWhile_append_of_pos hyear, List.reverse_append]
  exact List.append_nil _

lemma year_of_cronOf_eq {target : CivilTime} {second : Nat}
    (h : cronOf (eightForty second) = cronOf target) : target.year = 2026 := by
  have htake := congrArg (fun text => text.reverse.takeWhile fun c => decide (c ≠ ' ')) h
  rw [takeWhile_reverse_cronOf, takeWhile_reverse_cronOf, List.reverse_inj] at htake
  have hyear : displayYear (eightForty second).year = Nat.toDigits 10 2026 :=
    if_neg (show ¬ (2026 : Int) < 0 by decide)
  rw [hyear, displayYear] at htake
  split at htake
  · have hmem : '-' ∈ Nat.toDigits 10 2026 := by
      rw [htake]
      exact List.mem_cons_self
    exact absurd hmem (Text.not_mem_toDigits (by decide) _)
  · have := Text.toDigits_injective htake
    omega

lemma second_of_cronOf_eq {second second' : Nat}
    (h : cronOf (eightForty second) = cronOf (eightForty second')) : second = second' := by
  apply Text.toDigits_injective
  simp only [cronOf, List.append_assoc] at h
  exact List.append_cancel_right h

lemma readsYears_oneMinute : ReadsYears oneMinuteCron oneMinuteTime where
  once := by
    intro target t _ _ ht _
    obtain ⟨second, hsecond, rfl, rfl⟩ := oneMinuteTime_eq_some ht
    refine ⟨onceAt (seconds (minuteStart + second)), ?_, firstAfter_onceAt _⟩
    unfold oneMinuteCron
    cases hfind : (List.range 60).find? fun other =>
        decide (cronOf (eightForty other) = cronOf (eightForty second)) with
    | none =>
      have := List.find?_eq_none.mp hfind second (List.mem_range.mpr hsecond)
      simp at this
    | some other =>
      have hother := List.find?_some hfind
      rw [second_of_cronOf_eq (of_decide_eq_true hother)]
  twice := by
    intro target t t' ht ht' hne
    obtain ⟨second, -, rfl, rfl⟩ := oneMinuteTime_eq_some ht
    obtain ⟨second', -, rfl, hsame⟩ := oneMinuteTime_eq_some ht'
    have hsecond : second = second' := congrArg CivilTime.second hsame
    exact absurd (by rw [hsecond]) hne
  refuses := by
    intro target hyear
    unfold oneMinuteCron
    cases hfind : (List.range 60).find? fun second =>
        decide (cronOf (eightForty second) = cronOf target) with
    | none => exact ⟨_, rfl⟩
    | some second =>
      have hsecond := List.find?_some hfind
      have := year_of_cronOf_eq (of_decide_eq_true hsecond)
      omega

/-- Twenty-two seconds after 8:40. -/
def eightFortyNow : DateTime := ⟨seconds 1774082422, by decide, by decide⟩

def inEightForty : Surroundings := ⟨true, oneMinuteTime, eightFortyNow, str "cli", none⟩

def addWith (delay : List Char) : ManageScheduleArgs :=
  ⟨str "add", some (str "tea"), none, some (str "Tea is ready"), none, some delay, none⟩

theorem parsesDelay_fiveSeconds : ReadsYears oneMinuteCron inEightForty.localTime ∧
    (addWith (str "5s")).action = str "add" ∧ (addWith (str "5s")).delay = some (str "5s") ∧
    (ParsesDelay oneMinuteCron inEightForty (addWith (str "5s")) (str "5s") ↔
      WellFormed inEightForty (addWith (str "5s")) (str "5s")) :=
  ⟨readsYears_oneMinute, rfl, rfl, parsesDelay_iff readsYears_oneMinute rfl rfl⟩

/-- `10 minutes` is scheduled for the moment at which it is said. -/
theorem not_parsesDelay_tenMinutes : ¬ ∀ (args : ManageScheduleArgs) (delay : List Char),
    args.action = str "add" → args.delay = some delay →
      ParsesDelay oneMinuteCron inEightForty args delay := by
  intro h
  rcases h (addWith (str "10 minutes")) (str "10 minutes") rfl rfl with
    ⟨n, task, ⟨digits, unit, u, htext, -, hdigits, -⟩, -⟩ | ⟨message, hrefused⟩
  · have htext : str "10 minute" ++ ['s'] = digits ++ [unit] := htext
    rw [← List.append_inj_left' htext rfl] at hdigits
    exact absurd hdigits (by decide)
  · have haccepted : (request inEightForty (addWith (str "10 minutes"))).any
        (fun result => result.toOption.isSome) = true := by
      decide +kernel
    rw [hrefused] at haccepted
    cases haccepted

end Examples

end RustyClaw.Cron
