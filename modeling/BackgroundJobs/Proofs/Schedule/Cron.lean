import BackgroundJobs.Proofs.Time.Calendar
import BackgroundJobs.Proofs.Time.Step
import BackgroundJobs.Schedule.Cron.Next

/-!
# Proofs — the times of a cron expression

An expression selects values of its units, in increasing order. The search for
the next time goes through these from a start on. Where it stands on the year,
the month or the day of the start, what is below is searched from the start on as
well, and so nothing is found that comes before it.

Main results:

* `isRegular_of_parse?` — an expression selects values of its units, in order.
* `civil_of_search`     — what is found does not come before the start of a search.
* `lt_of_nextAfter?`    — the next selected time comes later.
-/

namespace BackgroundJobs

namespace Cron

variable {α β γ : Type} {u : TimeUnit} {c : Cron} {l : List Nat} {n bound : Nat}

-- ---------------------------------------------------------------------------
-- Regular selections
-- ---------------------------------------------------------------------------

/-- Are these values of the unit, in increasing order? -/
structure TimeUnit.Selects (u : TimeUnit) (l : List Nat) : Prop where
  increasing : l.Pairwise (· < ·)
  within : ∀ n ∈ l, u.least ≤ n ∧ n ≤ u.greatest

/-- Does every field select values of its unit? -/
structure IsRegular (c : Cron) : Prop where
  seconds : TimeUnit.second.Selects c.seconds
  minutes : TimeUnit.minute.Selects c.minutes
  hours : TimeUnit.hour.Selects c.hours
  daysOfMonth : TimeUnit.dayOfMonth.Selects c.daysOfMonth
  months : TimeUnit.month.Selects c.months
  daysOfWeek : TimeUnit.dayOfWeek.Selects c.daysOfWeek
  years : TimeUnit.year.Selects c.years

theorem TimeUnit.Selects.filter (h : u.Selects l) (p : Nat → Bool) : u.Selects (l.filter p) :=
  ⟨h.increasing.filter p, fun n hn => h.within n (List.mem_filter.mp hn).1⟩

theorem TimeUnit.selects_values (u : TimeUnit) : u.Selects u.values := by
  refine ⟨List.pairwise_lt_range.drop, fun n hn => ?_⟩
  obtain ⟨i, hi, rfl⟩ := List.mem_drop_iff_getElem.mp hn
  rw [List.length_range] at hi
  rw [List.getElem_range]
  omega

theorem TimeUnit.selects_singleton (hLeast : u.least ≤ n) (hGreatest : n ≤ u.greatest) :
    u.Selects [n] := by
  refine ⟨List.pairwise_singleton _ n, fun m hm => ?_⟩
  obtain rfl := List.mem_singleton.mp hm
  exact ⟨hLeast, hGreatest⟩

/-- A field that is read selects values of its unit. -/
theorem selects_of_read {anyMark : Bool} {s rest : List Char}
    (h : values u anyMark s = some (l, rest)) : u.Selects l := by
  obtain ⟨⟨f, s'⟩, -, hRest⟩ := Option.bind_eq_some_iff.mp h
  obtain ⟨l', hField, hPair⟩ := Option.bind_eq_some_iff.mp hRest
  cases hPair
  obtain ⟨chosen, -, hChosen⟩ := Option.bind_eq_some_iff.mp hField
  cases hChosen
  exact u.selects_values.filter _

theorem isRegular_mk {second minute hour dayOfMonth month dayOfWeek year : List Nat}
    (hSecond : TimeUnit.second.Selects second) (hMinute : TimeUnit.minute.Selects minute)
    (hHour : TimeUnit.hour.Selects hour) (hDay : TimeUnit.dayOfMonth.Selects dayOfMonth)
    (hMonth : TimeUnit.month.Selects month) (hWeekday : TimeUnit.dayOfWeek.Selects dayOfWeek)
    (hYear : TimeUnit.year.Selects year) :
    (mk second minute hour dayOfMonth month dayOfWeek year).IsRegular :=
  ⟨hSecond, hMinute, hHour, hDay, hMonth, hWeekday, hYear⟩

theorem isRegular_of_ofFields? {s : List Char} (h : ofFields? s = some c) : c.IsRegular := by
  obtain ⟨⟨second, s₁⟩, hSecond, h⟩ := Option.bind_eq_some_iff.mp h
  obtain ⟨⟨minute, s₂⟩, hMinute, h⟩ := Option.bind_eq_some_iff.mp h
  obtain ⟨⟨hour, s₃⟩, hHour, h⟩ := Option.bind_eq_some_iff.mp h
  obtain ⟨⟨dayOfMonth, s₄⟩, hDay, h⟩ := Option.bind_eq_some_iff.mp h
  obtain ⟨⟨month, s₅⟩, hMonth, h⟩ := Option.bind_eq_some_iff.mp h
  obtain ⟨⟨dayOfWeek, s₆⟩, hWeekday, h⟩ := Option.bind_eq_some_iff.mp h
  obtain ⟨⟨year, s₇⟩, hRead⟩ :
      ∃ x, (values TimeUnit.year false s₆).getD (TimeUnit.year.values, s₆) = x := ⟨_, rfl⟩
  have hYear : TimeUnit.year.Selects year := by
    cases hSome : values TimeUnit.year false s₆ with
    | none =>
      rw [hSome, Option.getD_none, Prod.mk.injEq] at hRead
      rw [← hRead.1]
      exact TimeUnit.year.selects_values
    | some x =>
      rw [hSome, Option.getD_some] at hRead
      exact selects_of_read (hRead ▸ hSome)
  simp only [hRead] at h
  split at h <;> cases h
  exact isRegular_mk (selects_of_read hSecond) (selects_of_read hMinute) (selects_of_read hHour)
    (selects_of_read hDay) (selects_of_read hMonth) (selects_of_read hWeekday) hYear

theorem isRegular_of_shorthand {name : String} (h : (name, c) ∈ shorthands) : c.IsRegular := by
  have hZero {u : TimeUnit} (hLeast : u.least = 0) : u.Selects [0] :=
    TimeUnit.selects_singleton (Nat.le_of_eq hLeast) (Nat.zero_le _)
  have hOne {u : TimeUnit} (hLeast : u.least = 1 ∧ 1 ≤ u.greatest) : u.Selects [1] :=
    TimeUnit.selects_singleton (Nat.le_of_eq hLeast.1) hLeast.2
  have hSecond := hZero (u := TimeUnit.second) rfl
  have hMinute := hZero (u := TimeUnit.minute) rfl
  have hHour := hZero (u := TimeUnit.hour) rfl
  have hDay := TimeUnit.dayOfMonth.selects_values
  have hMonth := TimeUnit.month.selects_values
  have hWeekday := TimeUnit.dayOfWeek.selects_values
  have hYear := TimeUnit.year.selects_values
  have hEveryHour := TimeUnit.hour.selects_values
  have hFirstDay := hOne (u := TimeUnit.dayOfMonth) (by decide)
  have hFirstMonth := hOne (u := TimeUnit.month) (by decide)
  have hSunday := hOne (u := TimeUnit.dayOfWeek) (by decide)
  simp only [shorthands, daily, List.mem_cons, Prod.mk.injEq, List.not_mem_nil, or_false] at h
  rcases h with ⟨-, rfl⟩ | ⟨-, rfl⟩ | ⟨-, rfl⟩ | ⟨-, rfl⟩ | ⟨-, rfl⟩
  · exact isRegular_mk hSecond hMinute hHour hFirstDay hFirstMonth hWeekday hYear
  · exact isRegular_mk hSecond hMinute hHour hFirstDay hMonth hWeekday hYear
  · exact isRegular_mk hSecond hMinute hHour hDay hMonth hSunday hYear
  · exact isRegular_mk hSecond hMinute hHour hDay hMonth hWeekday hYear
  · exact isRegular_mk hSecond hMinute hEveryHour hDay hMonth hWeekday hYear

/-- An expression selects values of its units, in increasing order. -/
theorem isRegular_of_parse? {s : String} (h : parse? s = some c) : c.IsRegular := by
  unfold parse? ofChars? at h
  rw [Option.orElse_eq_orElse, Option.orElse_eq_or] at h
  rcases Option.or_eq_some_iff.mp h with hShort | ⟨-, hFields⟩
  · obtain ⟨⟨name, cron⟩, hMem, hNamed⟩ := List.exists_of_findSome?_eq_some hShort
    simp only at hNamed
    split at hNamed <;> cases hNamed
    exact isRegular_of_shorthand hMem
  · exact isRegular_of_ofFields? hFields

-- ---------------------------------------------------------------------------
-- Searches
-- ---------------------------------------------------------------------------

theorem firstFrom_eq_some {search : α → β → Option γ} {inner start : β} {l : List α} {x : γ}
    (h : firstFrom search inner start l = some x) :
    ∃ a rest, l = a :: rest ∧ (search a inner = some x ∨ ∃ b ∈ rest, search b start = some x) := by
  cases l with
  | nil => cases h
  | cons a rest =>
    refine ⟨a, rest, rfl, ?_⟩
    rcases Option.or_eq_some_iff.mp h with hHere | ⟨-, hThere⟩
    · exact .inl hHere
    · exact .inr (List.exists_of_findSome?_eq_some hThere)

/-- In an increasing list, a value past the bound is searched from its start on. -/
theorem firstFrom_increasing {search : Nat → β → Option γ} {inner start : β} {x : γ}
    (hIncreasing : l.Pairwise (· < ·)) (hFrom : ∀ n ∈ l, bound ≤ n)
    (h : firstFrom search (if bound ∈ l then inner else start) start l = some x) :
    ∃ n ∈ l, (n = bound ∧ search n inner = some x) ∨ (bound < n ∧ search n start = some x) := by
  obtain ⟨a, rest, rfl, hHere | ⟨b, hMem, hThere⟩⟩ := firstFrom_eq_some h
  · refine ⟨a, List.mem_cons_self, ?_⟩
    have ha := hFrom a List.mem_cons_self
    by_cases hBound : a = bound
    · rw [if_pos (by rw [hBound]; exact List.mem_cons_self)] at hHere
      exact .inl ⟨hBound, hHere⟩
    · have hNot : bound ∉ a :: rest := by
        intro hMem
        rcases List.mem_cons.mp hMem with rfl | hRest
        · exact hBound rfl
        · have hLater := List.rel_of_pairwise_cons hIncreasing hRest
          omega
      rw [if_neg hNot] at hHere
      exact .inr ⟨by omega, hHere⟩
  · have ha := hFrom a List.mem_cons_self
    have hLater := List.rel_of_pairwise_cons hIncreasing hMem
    exact ⟨b, List.mem_cons_of_mem a hMem, .inr ⟨by omega, hThere⟩⟩

theorem searchFrom_eq_some {search : Nat → β → Option γ} {inner start : β} {x : γ}
    (hSelects : u.Selects l) (h : searchFrom search l bound inner start = some x) :
    ∃ n, (u.least ≤ n ∧ n ≤ u.greatest) ∧
      ((n = bound ∧ search n inner = some x) ∨ (bound < n ∧ search n start = some x)) := by
  have hSelects' := hSelects.filter (bound ≤ ·)
  have hContains : l.contains bound = true ↔ bound ∈ l.filter (bound ≤ ·) := by
    simp
  simp only [searchFrom, hContains] at h
  obtain ⟨n, hMem, hFound⟩ :=
    firstFrom_increasing hSelects'.increasing (fun n hn => by simpa using (List.mem_filter.mp hn).2)
      h
  exact ⟨n, hSelects'.within n hMem, hFound⟩

-- ---------------------------------------------------------------------------
-- Times of day
-- ---------------------------------------------------------------------------

/-- The seconds of the day that have passed. -/
def TimeOfDay.seconds (t : TimeOfDay) : Nat :=
  t.hour * 3600 + t.minute * 60 + t.second

/-- Is this a time of day outside of leap seconds? -/
structure TimeOfDay.IsCivil (t : TimeOfDay) : Prop where
  hour : t.hour < 24
  minute : t.minute < 60
  second : t.second < 60

theorem nextSecond?_spec (hc : c.IsRegular) (h : nextSecond? c bound = some n) :
    n < 60 ∧ bound ≤ n := by
  have hWithin := hc.seconds.within n (List.mem_of_find?_eq_some h)
  have hFrom := List.find?_some h
  simp only [TimeUnit.second, decide_eq_true_eq] at hWithin hFrom
  omega

theorem nextMinute?_spec (hc : c.IsRegular) {minute second : Nat} {t : Nat × Nat}
    (hSecond : second < 60) (h : nextMinute? c minute second = some t) :
    t.1 < 60 ∧ t.2 < 60 ∧ minute * 60 + second ≤ t.1 * 60 + t.2 := by
  obtain ⟨n, hWithin, ⟨rfl, hFound⟩ | ⟨hLater, hFound⟩⟩ := searchFrom_eq_some hc.minutes h
  all_goals
    obtain ⟨s, hs, rfl⟩ := Option.map_eq_some_iff.mp hFound
    have hNext := nextSecond?_spec hc hs
    simp only [TimeUnit.minute] at hWithin ⊢
    omega

/-- A time of day that is found does not come before the bound. -/
theorem nextTime?_spec (hc : c.IsRegular) {first t : TimeOfDay} (hFirst : first.IsCivil)
    (h : nextTime? c first = some t) : t.IsCivil ∧ first.seconds ≤ t.seconds := by
  obtain ⟨hHour, hMinute, hSecond⟩ := hFirst
  obtain ⟨n, hWithin, ⟨rfl, hFound⟩ | ⟨hLater, hFound⟩⟩ := searchFrom_eq_some hc.hours h
  · obtain ⟨⟨m, s⟩, hNext, rfl⟩ := Option.map_eq_some_iff.mp hFound
    obtain ⟨hm, hs, hOrder⟩ := nextMinute?_spec hc hSecond hNext
    simp only [TimeOfDay.seconds]
    exact ⟨⟨hHour, hm, hs⟩, by omega⟩
  · obtain ⟨⟨m, s⟩, hNext, rfl⟩ := Option.map_eq_some_iff.mp hFound
    obtain ⟨hm, hs, -⟩ := nextMinute?_spec hc (by decide) hNext
    simp only [TimeUnit.hour] at hWithin
    simp only [TimeOfDay.seconds]
    exact ⟨⟨Nat.lt_succ_of_le hWithin.2, hm, hs⟩, by omega⟩

-- ---------------------------------------------------------------------------
-- Dates
-- ---------------------------------------------------------------------------

/-- The time of day of a date-time. -/
def timeOf (t : DateTime) : TimeOfDay :=
  ⟨t.hour, t.minute, t.second⟩

/-- Is the date-time one of the calendar, outside of leap seconds? -/
structure IsCivil (t : DateTime) : Prop where
  valid : t.date.isValid = true
  time : (timeOf t).IsCivil

/-- Does the date-time come no earlier than a date and a time of day? -/
def Follows (t : DateTime) (date : Date) (time : TimeOfDay) : Prop :=
  date.Earlier t.date ∨ t.date = date ∧ time.seconds ≤ (timeOf t).seconds

variable {date : Date} {time : TimeOfDay} {t : DateTime} {year month day : Nat}

theorem isCivil_midnight : midnight.IsCivil :=
  ⟨by decide, by decide, by decide⟩

theorem onDay?_spec (hc : c.IsRegular) (hDate : date.isValid = true) (hTime : time.IsCivil)
    (h : onDay? c date time = some t) : IsCivil t ∧ t.date = date ∧ Follows t date time := by
  unfold onDay? at h
  split at h
  · obtain ⟨found, hNext, rfl⟩ := Option.map_eq_some_iff.mp h
    obtain ⟨hCivil, hOrder⟩ := nextTime?_spec hc hTime hNext
    exact ⟨⟨hDate, hCivil⟩, rfl, .inr ⟨rfl, hOrder⟩⟩
  · cases h

/-- The days that are searched in a month, from one of them on. -/
def daysFrom (c : Cron) (year month day : Nat) : List Nat :=
  c.daysOfMonth.filter fun n =>
    decide (min day (daysInMonth year month) ≤ n) && decide (n ≤ daysInMonth year month)

theorem inMonth?_eq : inMonth? c year month (day, time) =
    firstFrom (fun n => onDay? c ⟨year, month, n⟩)
      (if c.daysOfMonth.contains day then time else midnight) midnight
      (c.daysFrom year month day) :=
  rfl

theorem isValid_of_mem_daysFrom (hc : c.IsRegular) (hMonth : 1 ≤ month ∧ month ≤ 12)
    (h : n ∈ c.daysFrom year month day) : (Date.mk year month n).isValid = true := by
  have hWithin := (hc.daysOfMonth.filter _).within n h
  have hLength := (List.mem_filter.mp h).2
  simp only [TimeUnit.dayOfMonth, Date.isValid, Bool.and_eq_true, decide_eq_true_eq] at *
  omega

/-- Whatever is found in a month is a time of that month. -/
theorem inMonth?_civil (hc : c.IsRegular) (hMonth : 1 ≤ month ∧ month ≤ 12) (hTime : time.IsCivil)
    (h : inMonth? c year month (day, time) = some t) :
    IsCivil t ∧ t.date.year = year ∧ t.date.month = month := by
  obtain ⟨n, hMem, found, hFound, hDay⟩ : ∃ n ∈ c.daysFrom year month day, ∃ found : TimeOfDay,
      found.IsCivil ∧ onDay? c ⟨year, month, n⟩ found = some t := by
    rw [inMonth?_eq] at h
    obtain ⟨a, rest, hDays, hHere | ⟨b, hb, hThere⟩⟩ := firstFrom_eq_some h
    · refine ⟨a, hDays ▸ List.mem_cons_self, _, ?_, hHere⟩
      split
      · exact hTime
      · exact isCivil_midnight
    · exact ⟨b, hDays ▸ List.mem_cons_of_mem a hb, _, isCivil_midnight, hThere⟩
  obtain ⟨hCivil, hDate, -⟩ := onDay?_spec hc (isValid_of_mem_daysFrom hc hMonth hMem) hFound hDay
  exact ⟨hCivil, by rw [hDate], by rw [hDate]⟩

/-- What is found in a month that has the day to search from does not come before it. -/
theorem inMonth?_follows (hc : c.IsRegular) (hMonth : 1 ≤ month ∧ month ≤ 12)
    (hDay : day ≤ daysInMonth year month) (hTime : time.IsCivil)
    (h : inMonth? c year month (day, time) = some t) : Follows t ⟨year, month, day⟩ time := by
  have hFrom : ∀ n ∈ c.daysFrom year month day, day ≤ n := by
    intro n hn
    have hLeast := (List.mem_filter.mp hn).2
    simp only [Bool.and_eq_true, decide_eq_true_eq] at hLeast
    omega
  have hContains : c.daysOfMonth.contains day = true ↔ day ∈ c.daysFrom year month day := by
    simp [daysFrom, List.mem_filter, hDay]
  rw [inMonth?_eq] at h
  simp only [hContains] at h
  have hIncreasing : (c.daysFrom year month day).Pairwise (· < ·) :=
    (hc.daysOfMonth.filter _).increasing
  obtain ⟨n, hMem, ⟨rfl, hFound⟩ | ⟨hLater, hFound⟩⟩ :=
    firstFrom_increasing hIncreasing hFrom h
  · exact (onDay?_spec hc (isValid_of_mem_daysFrom hc hMonth hMem) hTime hFound).2.2
  · obtain ⟨-, hDate, -⟩ :=
      onDay?_spec hc (isValid_of_mem_daysFrom hc hMonth hMem) isCivil_midnight hFound
    rw [Follows, hDate]
    exact .inl (.inr ⟨rfl, .inr ⟨rfl, hLater⟩⟩)

/-- Whatever is found in a year is a time of that year. -/
theorem inYear?_civil (hc : c.IsRegular) (hTime : time.IsCivil)
    (h : inYear? c year (month, day, time) = some t) : IsCivil t ∧ t.date.year = year := by
  obtain ⟨n, hWithin, ⟨-, hFound⟩ | ⟨-, hFound⟩⟩ := searchFrom_eq_some hc.months h
  · obtain ⟨hCivil, hYear, -⟩ := inMonth?_civil hc hWithin hTime hFound
    exact ⟨hCivil, hYear⟩
  · obtain ⟨hCivil, hYear, -⟩ := inMonth?_civil hc hWithin isCivil_midnight hFound
    exact ⟨hCivil, hYear⟩

theorem inYear?_follows (hc : c.IsRegular) (hDay : day ≤ daysInMonth year month)
    (hTime : time.IsCivil) (h : inYear? c year (month, day, time) = some t) :
    Follows t ⟨year, month, day⟩ time := by
  obtain ⟨n, hWithin, ⟨rfl, hFound⟩ | ⟨hLater, hFound⟩⟩ := searchFrom_eq_some hc.months h
  · exact inMonth?_follows hc hWithin hDay hTime hFound
  · obtain ⟨-, hYear, hMonth⟩ := inMonth?_civil hc hWithin isCivil_midnight hFound
    refine .inl (.inr ⟨hYear.symm, .inl ?_⟩)
    rw [hMonth]
    exact hLater

/-- The years that are searched, from one of them on. -/
def yearsFrom (c : Cron) (first : Int) : List Nat :=
  c.years.filter fun year => decide (0 ≤ first) && decide (first ≤ (year : Int))

theorem le_of_mem_yearsFrom {first : Int} (h : n ∈ c.yearsFrom first) : first ≤ n := by
  have hKept := (List.mem_filter.mp h).2
  simp only [Bool.and_eq_true, decide_eq_true_eq] at hKept
  exact hKept.2

/-- What is found from a date-time on does not come before it. In a later year that holds of
anything that is found, and in the year itself the bound has a day of its month. -/
theorem civil_of_search (hc : c.IsRegular) {start : DateTime} (hStart : IsCivil start)
    (h : firstFrom (inYear? c) (start.date.month, start.date.day, timeOf start) (1, 1, midnight)
      (c.yearsFrom start.date.year) = some t) :
    IsCivil t ∧ Follows t start.date (timeOf start) := by
  have hIncreasing : (c.yearsFrom start.date.year).Pairwise (· < ·) :=
    (hc.years.filter _).increasing
  obtain ⟨a, rest, hSplit, hFound⟩ := firstFrom_eq_some h
  have hFirst : start.date.year ≤ a :=
    le_of_mem_yearsFrom (by rw [hSplit]; exact List.mem_cons_self)
  rcases hFound with hHere | ⟨b, hb, hThere⟩
  · obtain ⟨hCivil, hYear⟩ := inYear?_civil hc hStart.time hHere
    refine ⟨hCivil, ?_⟩
    rcases Int.lt_or_eq_of_le hFirst with hLater | hSame
    · rw [← hYear] at hLater
      exact .inl (.inl hLater)
    · have hDay : start.date.day ≤ daysInMonth a start.date.month := by
        have hValid := hStart.valid
        simp only [Date.isValid, Bool.and_eq_true, decide_eq_true_eq] at hValid
        rw [← hSame]
        exact hValid.2
      have hFollows := inYear?_follows hc hDay hStart.time hHere
      rwa [← hSame] at hFollows
  · obtain ⟨hCivil, hYear⟩ := inYear?_civil hc isCivil_midnight hThere
    rw [hSplit] at hIncreasing
    have hLater : a < b := List.rel_of_pairwise_cons hIncreasing hb
    refine ⟨hCivil, .inl (.inl ?_)⟩
    omega

-- ---------------------------------------------------------------------------
-- Instants
-- ---------------------------------------------------------------------------

theorem isCivil_toDateTime {t : Instant} (h : t.isLeap = false) : IsCivil t.toDateTime := by
  have hNanos := Instant.nanos_lt h
  unfold nanosPerSecond at hNanos
  refine ⟨Date.isValid_ofDays _, ?_, ?_, ?_⟩ <;>
    simp only [timeOf, Instant.toDateTime, Instant.secondOfDay, secondsPerDay, nanosPerSecond] <;>
    omega

/-- Date-times that do not come earlier are no earlier instants. -/
theorem seconds_le_of_follows {t start : DateTime} (ht : IsCivil t) (hStart : IsCivil start)
    (h : Follows t start.date (timeOf start)) :
    start.toInstant.seconds ≤ t.toInstant.seconds := by
  obtain ⟨hValid, hHour, hMinute, hSecond⟩ := ht
  obtain ⟨hValid', hHour', hMinute', hSecond'⟩ := hStart
  simp only [timeOf, TimeOfDay.seconds, Follows] at *
  simp only [DateTime.toInstant, secondsPerDay]
  rcases h with hEarlier | ⟨hDate, hOrder⟩
  · have hDays := Date.toDays_lt hValid' hValid hEarlier
    omega
  · rw [hDate]
    omega

/-- The next selected time comes later. -/
theorem lt_of_nextAfter? (hc : c.IsRegular) {t u : Instant} (h : c.nextAfter? t = some u) :
    t < u := by
  obtain ⟨found, hFound, rfl⟩ := Option.map_eq_some_iff.mp h
  obtain ⟨hRegular, hForward⟩ := Instant.shift_second t
  have hStart := isCivil_toDateTime hRegular
  obtain ⟨hCivil, hFollows⟩ := civil_of_search hc hStart hFound
  have hOrder := seconds_le_of_follows hCivil hStart hFollows
  rw [Instant.seconds_toDateTime hRegular] at hOrder
  exact .inl (Int.lt_of_lt_of_le hForward hOrder)

end Cron

end BackgroundJobs
