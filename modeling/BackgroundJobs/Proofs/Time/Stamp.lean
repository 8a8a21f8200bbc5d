import BackgroundJobs.Proofs.Number.Decimal
import BackgroundJobs.Proofs.Text.Blank
import BackgroundJobs.Proofs.Time.Calendar
import BackgroundJobs.Time.Stamp

/-!
# Proofs — date-time stamps

A stamp that was written is read back, as the instant that it was written of.
The reader takes off piece by piece what the writer put down, and each piece ends
where the next one begins with something else.

Main results:

* `Stamp.ofChars?_chars`       — the stamp of a date and a time of day is read back.
* `Instant.toInstant_toDateTime` — an instant is made again of its date and time.
* `Instant.parse?_text`        — the text of an instant is read back.
-/

namespace BackgroundJobs

open Number
open Text (isBlank_of_isDigit trimStart_cons)

namespace Stamp

variable {c : Char} {n width : Nat} {ds rest : List Char}

-- ---------------------------------------------------------------------------
-- The pieces of a stamp
-- ---------------------------------------------------------------------------

theorem trimStart_digits (hDigits : ∀ c ∈ ds, isDigit c = true) (hSome : ds ≠ []) :
    Text.trimStart (ds ++ rest) = ds ++ rest := by
  cases ds with
  | nil => exact (hSome rfl).elim
  | cons c ds => exact trimStart_cons (isBlank_of_isDigit (hDigits c List.mem_cons_self))

/-- A run of digits is read up to where it ends, or where the width does. -/
theorem number?_append (hDigits : ∀ c ∈ ds, isDigit c = true) (hSome : ds ≠ [])
    (hEnds : ds.length = width ∨ ds.length ≤ width ∧ Ends rest) :
    number? width (ds ++ rest) = some (ofDigits ds, rest) := by
  have hRun : ((ds ++ rest).take width).takeWhile isDigit = ds := by
    rcases hEnds with hFull | ⟨hFits, hEnds⟩
    · rw [List.take_left' hFull, ← List.append_nil (ds.takeWhile isDigit)]
      simpa using takeWhile_isDigit_append hDigits (show Ends [] from nofun)
    · rw [List.take_append, List.take_of_length_le hFits]
      refine takeWhile_isDigit_append hDigits fun c hc => ?_
      cases hTake : width - ds.length <;> rw [hTake] at hc
      · cases hc
      · cases rest with
        | nil => cases hc
        | cons d rest => exact hEnds c hc
  have hNotEmpty : ds.isEmpty = false := by simpa using hSome
  simp only [number?, hRun, hNotEmpty, Bool.false_eq_true, if_false, List.drop_left]

theorem pair?_padded (h : n < 100) : pair? (padded 2 n ++ rest) = some (n, rest) := by
  have hDigits : ∀ c ∈ padded 2 n, isDigit c = true := fun c => isDigit_of_mem_padded
  rw [pair?, trimStart_digits hDigits padded_ne_nil,
    number?_append hDigits padded_ne_nil (.inl (length_padded (by decide) h)), ofDigits_padded]

theorem mark?_cons (h : Text.isBlank c = false) : mark? c (c :: rest) = some rest := by
  rw [mark?, trimStart_cons h]
  exact if_pos rfl

theorem bind_of_eq_some {α β : Type} {x : Option α} {a : α} {f : α → Option β} (h : x = some a) :
    (x >>= f) = f a := by
  rw [h]
  rfl

theorem ends_cons (h : isDigit c = false) : Ends (c :: rest) := by
  intro d hd
  cases hd
  exact h

/-- A year of four digits is read back. -/
theorem year?_padded (h : n < 10000) :
    year? (padded 4 n ++ '-' :: rest) = some ((n : Int), '-' :: rest) := by
  have hDigits : ∀ c ∈ padded 4 n, isDigit c = true := fun c => isDigit_of_mem_padded
  have hSome : padded 4 n ≠ [] := padded_ne_nil
  have hFour : (padded 4 n).length = 4 := length_padded (by decide) h
  have hRead : number? 4 (padded 4 n ++ '-' :: rest) = some (n, '-' :: rest) := by
    rw [number?_append hDigits hSome (.inl hFour), ofDigits_padded]
  rw [year?, trimStart_digits hDigits hSome]
  -- a digit is no sign
  obtain ⟨d, ds, hFirst⟩ := List.exists_cons_of_ne_nil hSome
  have hDigit : isDigit d = true := hDigits d (by rw [hFirst]; exact List.mem_cons_self)
  rw [hFirst, List.cons_append] at hRead ⊢
  split
  · next hSign =>
    cases hSign
    cases hDigit
  · next hSign =>
    cases hSign
    cases hDigit
  · simp only [hRead, Option.map_some]

/-- A year is read back, with its sign or without. -/
theorem year?_yearText (year : Int) : year? (yearText year ++ '-' :: rest) =
    some (year, '-' :: rest) := by
  have hSigned : number? (padded 4 year.natAbs ++ '-' :: rest).length
      (padded 4 year.natAbs ++ '-' :: rest) = some (year.natAbs, '-' :: rest) := by
    rw [number?_append (fun c => isDigit_of_mem_padded) padded_ne_nil
      (.inr ⟨by simp, ends_cons rfl⟩), ofDigits_padded]
  unfold yearText
  split
  · next hPlain =>
    have hFour : year.toNat < 10000 := by omega
    rw [year?_padded hFour, Int.toNat_of_nonneg hPlain.1]
  · split
    · next hNegative =>
      have hYear : -(year.natAbs : Int) = year := by omega
      rw [List.cons_append, year?, trimStart_cons rfl]
      simp only [hSigned, Option.map_some, hYear]
    · next hPositive =>
      have hYear : (year.natAbs : Int) = year := by omega
      rw [List.cons_append, year?, trimStart_cons rfl]
      simp only [hSigned, Option.map_some, hYear]

/-- The digits of a fraction count from the point on. -/
theorem fraction?_padded (hWidth : 0 < width) (hNine : width ≤ 9) (hShort : n < 10 ^ width)
    (hEnds : Ends rest) :
    fraction? ('.' :: padded width n ++ rest) = some (n * 10 ^ (9 - width), rest) := by
  have hLength : (padded width n).length = width := length_padded hWidth hShort
  have hRead : number? 9 (padded width n ++ rest) = some (n, rest) := by
    rw [number?_append (fun c => isDigit_of_mem_padded) padded_ne_nil (.inr ⟨by omega, hEnds⟩),
      ofDigits_padded]
  have hDrop : rest.dropWhile isDigit = rest := by
    have hSplit : rest.takeWhile isDigit ++ rest.dropWhile isDigit = rest :=
      List.takeWhile_append_dropWhile
    rwa [takeWhile_isDigit_of_ends hEnds] at hSplit
  rw [List.cons_append, fraction?]
  simp [hRead, hDrop, hLength]

/-- A fraction of a second is read back, however many digits it is written with. -/
theorem fraction?_fractionText (h : n < 1000000000) (hEnds : Ends rest)
    (hDot : rest.head? ≠ some '.') : fraction? (fractionText n ++ rest) = some (n, rest) := by
  unfold fractionText
  split
  · next hNone =>
    subst hNone
    rw [List.nil_append]
    unfold fraction?
    split
    · exact (hDot rfl).elim
    · rfl
  · split
    · next hMillis =>
      have hWhole : n / 1000000 * 10 ^ (9 - 3) = n := by omega
      rw [fraction?_padded (by decide) (by decide) (by omega) hEnds, hWhole]
    · split
      · next hMicros =>
        have hWhole : n / 1000 * 10 ^ (9 - 6) = n := by omega
        rw [fraction?_padded (by decide) (by decide) (by omega) hEnds, hWhole]
      · have hWhole : n * 10 ^ (9 - 9) = n := by omega
        rw [fraction?_padded (by decide) (by decide) (by omega) hEnds, hWhole]

-- ---------------------------------------------------------------------------
-- Stamps
-- ---------------------------------------------------------------------------

theorem bounds_of_isValid {d : Date} (h : d.isValid = true) : d.month < 100 ∧ d.day < 100 := by
  simp only [Date.isValid, Bool.and_eq_true, decide_eq_true_eq] at h
  have hShort : daysInMonth d.year d.month ≤ 31 := by
    unfold daysInMonth
    repeat' split
    all_goals omega
  omega

/-- The stamp of a date and a time of day is read back, as the instant that they denote. -/
theorem ofChars?_chars {t : DateTime} (hDate : t.date.isValid = true) (hHour : t.hour < 24)
    (hMinute : t.minute < 60) (hSecond : t.second ≤ 60) (hNano : t.nano < 1000000000) :
    ofChars? (chars t) = t.toInstant.inRange? := by
  obtain ⟨hMonth, hDay⟩ := bounds_of_isValid hDate
  have hChars : chars t = yearText t.date.year ++ '-' :: (padded 2 t.date.month ++
      '-' :: (padded 2 t.date.day ++ 'T' :: (padded 2 t.hour ++ ':' :: (padded 2 t.minute ++
        ':' :: (padded 2 t.second ++ (fractionText t.nano ++ ['Z'])))))) := by
    simp only [chars, List.append_assoc, List.cons_append]
  have hFraction : fraction? (fractionText t.nano ++ ['Z']) = some (t.nano, ['Z']) :=
    fraction?_fractionText hNano (ends_cons rfl) (by decide)
  have hGuard : guard (t.date.isValid = true ∧ t.hour < 24 ∧ t.minute < 60 ∧ t.second ≤ 60) =
      some () :=
    if_pos ⟨hDate, hHour, hMinute, hSecond⟩
  rw [hChars]
  calc ofChars? _
    _ = _ := bind_of_eq_some (year?_yearText t.date.year)
    _ = _ := bind_of_eq_some (mark?_cons rfl)
    _ = _ := bind_of_eq_some (pair?_padded hMonth)
    _ = _ := bind_of_eq_some (mark?_cons rfl)
    _ = _ := bind_of_eq_some (pair?_padded hDay)
    _ = _ := bind_of_eq_some (pair?_padded (show t.hour < 100 by omega))
    _ = _ := bind_of_eq_some (mark?_cons rfl)
    _ = _ := bind_of_eq_some (pair?_padded (show t.minute < 100 by omega))
    _ = _ := bind_of_eq_some (mark?_cons rfl)
    _ = _ := bind_of_eq_some (pair?_padded (show t.second < 100 by omega))
    _ = _ := bind_of_eq_some hFraction
    _ = _ := bind_of_eq_some (show offset? ['Z'] = some (0, []) from rfl)
    _ = _ := bind_of_eq_some (show guard (Text.trimStart []).isEmpty = some () from rfl)
    _ = _ := bind_of_eq_some hGuard
    _ = t.toInstant.inRange? := by simp

end Stamp

namespace Instant

/-- An instant of the calendar: one that a date and a time of day denote. Leap seconds come at the
end of a minute. -/
structure IsRegular (t : Instant) : Prop where
  inRange : earliest.seconds ≤ t.seconds ∧ t.seconds ≤ latest.seconds
  nanos : t.nanos < nanosPerSecond ∨ t.nanos < 2 * nanosPerSecond ∧ t.seconds % 60 = 59

/-- An instant is made again of its date and its time of day. -/
theorem toInstant_toDateTime {t : Instant} (h : t.IsRegular) : t.toDateTime.toInstant = t := by
  obtain ⟨seconds, nanos⟩ := t
  obtain ⟨-, hNanos⟩ := h
  simp only [nanosPerSecond] at hNanos
  simp only [toDateTime, DateTime.toInstant, Date.toDays_ofDays, days, secondOfDay, secondsPerDay,
    nanosPerSecond, Instant.mk.injEq]
  omega

/-- The time of day of an instant is one that a clock shows, leap seconds included. -/
theorem bounds_toDateTime {t : Instant} (h : t.IsRegular) :
    t.toDateTime.hour < 24 ∧ t.toDateTime.minute < 60 ∧ t.toDateTime.second ≤ 60 ∧
      t.toDateTime.nano < 1000000000 := by
  have hNanos := h.nanos
  simp only [nanosPerSecond] at hNanos
  simp only [toDateTime, secondOfDay, secondsPerDay, nanosPerSecond]
  omega

/-- The text of an instant is read back. -/
theorem parse?_text {t : Instant} (h : t.IsRegular) : parse? t.text = some t := by
  obtain ⟨hHour, hMinute, hSecond, hNano⟩ := bounds_toDateTime h
  have hDate : t.toDateTime.date.isValid = true := Date.isValid_ofDays _
  rw [parse?, text, String.toList_ofList,
    Stamp.ofChars?_chars hDate hHour hMinute hSecond hNano, toInstant_toDateTime h]
  exact if_pos h.inRange

end Instant

end BackgroundJobs
