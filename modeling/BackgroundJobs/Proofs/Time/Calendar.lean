import BackgroundJobs.Time.Calendar
import Mathlib.Tactic.IntervalCases

/-!
# Proofs — the civil calendar

Every day count is that of exactly one date. The days are counted from March on,
so a date is cut into a year that begins in March and a day of that year, and the
two directions of the calendar are compared through these.

Main results:

* `isValid_ofDays` — the date of a day count is one of the calendar.
* `toDays_ofDays`  — the date of a day count has that count.
* `toDays_lt`      — later dates have larger day counts.
-/

namespace BackgroundJobs.Date

-- ---------------------------------------------------------------------------
-- Years that begin in March
-- ---------------------------------------------------------------------------

/-- The date of a day, from 0, of the year that begins in March. -/
def ofMarch (year dayOfYear : Int) : Date :=
  let monthFromMarch := (5 * dayOfYear + 2) / 153
  let day := dayOfYear - (153 * monthFromMarch + 2) / 5 + 1
  let month := if monthFromMarch < 10 then monthFromMarch + 3 else monthFromMarch - 9
  ⟨year + (if month ≤ 2 then 1 else 0), month.toNat, day.toNat⟩

/-- The days of a cycle before the year of the cycle begins. -/
def daysBefore (yearOfCycle : Int) : Int :=
  365 * yearOfCycle + yearOfCycle / 4 - yearOfCycle / 100

/-- Does the year that begins in March have such a day? It ends with the leap day of the next
calendar year, if that has one. -/
def IsMarchDay (year dayOfYear : Int) : Prop :=
  0 ≤ dayOfYear ∧ (dayOfYear ≤ 364 ∨ dayOfYear = 365 ∧ isLeapYear (year + 1) = true)

theorem isValid_ofMarch {year dayOfYear : Int} (h : IsMarchDay year dayOfYear) :
    (ofMarch year dayOfYear).isValid = true := by
  obtain ⟨hDay, hLast⟩ := h
  have hMonths : 0 ≤ (5 * dayOfYear + 2) / 153 ∧ (5 * dayOfYear + 2) / 153 ≤ 11 := by omega
  obtain ⟨m, hm⟩ : ∃ m, (5 * dayOfYear + 2) / 153 = m := ⟨_, rfl⟩
  rw [hm] at hMonths
  simp only [ofMarch, isValid, daysInMonth, hm, Bool.and_eq_true, decide_eq_true_eq]
  obtain ⟨hFirst, hTwelve⟩ := hMonths
  rcases Int.lt_or_eq_of_le hTwelve with hOther | rfl
  · interval_cases m <;> simp <;> omega
  · -- February, the last month of such a year
    rcases hLast with hShort | ⟨rfl, hLeap⟩
    · simp
      split <;> omega
    · simp [hLeap]

theorem toDays_ofMarch {cycle yearOfCycle dayOfYear : Int} (hYear : 0 ≤ yearOfCycle)
    (hCycle : yearOfCycle < 400) (hDay : 0 ≤ dayOfYear) (hLast : dayOfYear ≤ 365) :
    (ofMarch (yearOfCycle + cycle * 400) dayOfYear).toDays =
      cycle * 146097 + daysBefore yearOfCycle + dayOfYear - 719468 := by
  have hMonths : 0 ≤ (5 * dayOfYear + 2) / 153 ∧ (5 * dayOfYear + 2) / 153 ≤ 11 := by omega
  obtain ⟨m, hm⟩ : ∃ m, (5 * dayOfYear + 2) / 153 = m := ⟨_, rfl⟩
  rw [hm] at hMonths
  simp only [ofMarch, toDays, daysBefore, hm]
  obtain ⟨hFirst, hTwelve⟩ := hMonths
  interval_cases m <;> simp <;> omega

-- ---------------------------------------------------------------------------
-- Cycles of four hundred years
-- ---------------------------------------------------------------------------

/-- A day of a cycle lies in the year that is computed for it. -/
theorem yearOfCycle_spec {day year : Int} (h : 0 ≤ day) (hCycle : day < 146097)
    (hYear : (day - day / 1460 + day / 36524 - day / 146096) / 365 = year) :
    0 ≤ year ∧ year < 400 ∧ IsMarchDay year (day - daysBefore year) := by
  have hLeap : ∀ y : Int, (y + 1) % 4 = 0 → ((y + 1) % 100 ≠ 0 ∨ (y + 1) % 400 = 0) →
      isLeapYear (y + 1) = true := by
    intro y h4 h100
    simpa [isLeapYear, h4] using h100
  unfold daysBefore
  rcases Int.lt_or_eq_of_le (show day ≤ 146096 by omega) with hLess | rfl
  · -- a century, a group of four years in it, and a year of the group
    have hWhole : day / 146096 = 0 := by omega
    obtain ⟨b, hb⟩ : ∃ b, day / 36524 = b := ⟨_, rfl⟩
    obtain ⟨q, hq⟩ : ∃ q, (day - 36524 * b) / 1461 = q := ⟨_, rfl⟩
    obtain ⟨k, hk⟩ : ∃ k, min ((day - 36524 * b - 1461 * q) / 365) 3 = k := ⟨_, rfl⟩
    have hGroups : day / 1460 =
        25 * b + q + (24 * b + q + (day - 36524 * b - 1461 * q)) / 1460 := by
      omega
    obtain rfl : 100 * b + 4 * q + k = year := by
      rw [hWhole, hb] at hYear
      omega
    have hFours : (100 * b + 4 * q + k) / 4 = 25 * b + q := by omega
    have hHundreds : (100 * b + 4 * q + k) / 100 = b := by omega
    rw [hFours, hHundreds]
    refine ⟨by omega, by omega, by omega, ?_⟩
    by_cases hEarly : day - 36524 * b - 1461 * q - 365 * k ≤ 364
    · exact .inl (by omega)
    · exact .inr ⟨by omega, hLeap _ (by omega) (.inl (by omega))⟩
  · subst hYear
    exact ⟨by decide, by decide, by decide, .inr (by decide)⟩

theorem ofDays_eq (days : Int) : ∃ cycle yearOfCycle dayOfYear : Int,
    ofDays days = ofMarch (yearOfCycle + cycle * 400) dayOfYear ∧
      0 ≤ yearOfCycle ∧ yearOfCycle < 400 ∧ IsMarchDay yearOfCycle dayOfYear ∧
      days = cycle * 146097 + daysBefore yearOfCycle + dayOfYear - 719468 := by
  obtain ⟨cycle, hCycle⟩ : ∃ cycle, (days + 719468) / 146097 = cycle := ⟨_, rfl⟩
  obtain ⟨day, hDay⟩ : ∃ day, days + 719468 - cycle * 146097 = day := ⟨_, rfl⟩
  obtain ⟨year, hYear⟩ :
      ∃ year, (day - day / 1460 + day / 36524 - day / 146096) / 365 = year := ⟨_, rfl⟩
  obtain ⟨hFirst, hLast, hMarch⟩ := yearOfCycle_spec (by omega) (by omega) hYear
  refine ⟨cycle, year, day - daysBefore year, ?_, hFirst, hLast, hMarch, by omega⟩
  simp only [ofDays, hCycle, hDay, hYear]
  rfl

/-- Four hundred years later the calendar is the same. -/
theorem isLeapYear_add_cycle (year cycle : Int) :
    isLeapYear (year + cycle * 400) = isLeapYear year := by
  have h4 : (year + cycle * 400) % 4 = year % 4 := by omega
  have h100 : (year + cycle * 400) % 100 = year % 100 := by omega
  have h400 : (year + cycle * 400) % 400 = year % 400 := by omega
  rw [isLeapYear, isLeapYear, h4, h100, h400]

/-- The date of a day count is one of the calendar. -/
theorem isValid_ofDays (days : Int) : (ofDays days).isValid = true := by
  obtain ⟨cycle, year, day, hDate, -, -, ⟨hFirst, hLast⟩, -⟩ := ofDays_eq days
  rw [hDate]
  refine isValid_ofMarch ⟨hFirst, hLast.imp_right fun ⟨hDay, hLeap⟩ => ⟨hDay, ?_⟩⟩
  rw [show year + cycle * 400 + 1 = year + 1 + cycle * 400 by omega, isLeapYear_add_cycle, hLeap]

/-- The date of a day count has that count. -/
theorem toDays_ofDays (days : Int) : (ofDays days).toDays = days := by
  obtain ⟨cycle, year, day, hDate, hFirst, hLast, ⟨hNonneg, hYear⟩, hDays⟩ := ofDays_eq days
  rw [hDate, toDays_ofMarch hFirst hLast hNonneg (by omega), hDays]

-- ---------------------------------------------------------------------------
-- The order of dates
-- ---------------------------------------------------------------------------

/-- Does the one date come before the other? -/
def Earlier (a b : Date) : Prop :=
  a.year < b.year ∨ a.year = b.year ∧ (a.month < b.month ∨ a.month = b.month ∧ a.day < b.day)

theorem toDays_day (year : Int) (month day : Nat) :
    (mk year month day).toDays = (mk year month 1).toDays + day - 1 := by
  simp only [toDays]
  omega

/-- A month begins when the one before it has ended. -/
theorem toDays_succ_month (year : Int) {month : Nat} (hFirst : 1 ≤ month) (hLast : month < 12) :
    (mk year (month + 1) 1).toDays = (mk year month 1).toDays + daysInMonth year month := by
  by_cases hFebruary : month = 2
  · -- March begins a year of the count, and so the leap day decides
    subst hFebruary
    cases hLeap : isLeapYear year <;>
      · simp [isLeapYear] at hLeap
        simp [daysInMonth, isLeapYear, toDays]
        omega
  · interval_cases month <;> first | contradiction | (simp [daysInMonth, toDays]; omega)

theorem toDays_lt_of_month (year : Int) {month later : Nat} (hFirst : 1 ≤ month)
    (hLater : month < later) (hLast : later ≤ 12) :
    (mk year month 1).toDays + daysInMonth year month ≤ (mk year later 1).toDays := by
  induction later, hLater using Nat.le_induction with
  | base => rw [toDays_succ_month year hFirst (by omega)]
  | succ later hBetween ih =>
    have hBefore := ih (by omega)
    rw [toDays_succ_month year (by omega) (by omega)]
    omega

/-- The last month of a year ends before the next year begins. -/
theorem toDays_lt_of_year {year later : Int} (hLater : year < later) :
    (mk year 12 1).toDays + 31 ≤ (mk later 1 1).toDays := by
  simp [toDays]
  omega

/-- A valid date lies between the beginning of its year and its end. -/
theorem toDays_within_year {d : Date} (h : d.isValid = true) :
    (mk d.year 1 1).toDays ≤ d.toDays ∧ d.toDays < (mk d.year 12 1).toDays + 31 := by
  obtain ⟨year, month, day⟩ := d
  simp only [isValid, Bool.and_eq_true, decide_eq_true_eq] at h ⊢
  obtain ⟨⟨⟨hFirst, hTwelve⟩, hDay⟩, hLast⟩ := h
  have hBegin : (mk year 1 1).toDays ≤ (mk year month 1).toDays := by
    rcases Nat.lt_or_eq_of_le hFirst with hAfter | rfl
    · have hMonths := toDays_lt_of_month year (Nat.le_refl 1) hAfter hTwelve
      omega
    · exact Int.le_refl _
  have hEnd : (mk year month 1).toDays + daysInMonth year month ≤ (mk year 12 1).toDays + 31 := by
    rcases Nat.lt_or_eq_of_le hTwelve with hBefore | rfl
    · have hMonths := toDays_lt_of_month year hFirst hBefore (Nat.le_refl 12)
      omega
    · simp [daysInMonth]
  rw [toDays_day year month day]
  omega

/-- Later dates have larger day counts. -/
theorem toDays_lt {a b : Date} (ha : a.isValid = true) (hb : b.isValid = true) (h : a.Earlier b) :
    a.toDays < b.toDays := by
  have hEnd := (toDays_within_year ha).2
  have hBegin := (toDays_within_year hb).1
  obtain ⟨year, month, day⟩ := a
  obtain ⟨year', month', day'⟩ := b
  simp only [Earlier] at h hEnd hBegin
  rcases h with hYear | ⟨rfl, hMonth | ⟨rfl, hDay⟩⟩
  · have hYears := toDays_lt_of_year hYear
    omega
  · simp only [isValid, Bool.and_eq_true, decide_eq_true_eq] at ha hb
    have hMonths := toDays_lt_of_month year ha.1.1.1 hMonth hb.1.1.2
    rw [toDays_day year month, toDays_day year month']
    omega
  · rw [toDays_day year month day, toDays_day year month day']
    omega

end BackgroundJobs.Date
