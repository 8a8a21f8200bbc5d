import BackgroundJobs.Proofs.Number.Decimal
import BackgroundJobs.Proofs.Text.Blank
import BackgroundJobs.Schedule.Basic

/-!
# Proofs — schedules as texts

A text that begins with `every` and a space denotes an interval, or nothing at
all: a number and a unit, in any of their spellings. Every other text is left to
the reader of expressions. An interval is displayed in whole milliseconds, so
that it is read back exactly if it has no part of one over and if their number
fits into 64 bits.

Main results:

* `accepts_exactly`  — which texts denote a schedule, and which one.
* `survives_display` — which schedules are read back from their own text.
-/

namespace BackgroundJobs.Schedule

variable {s : Schedule} {text : String} {rest part : List Char} {n : Nat} {d : Duration}

-- ---------------------------------------------------------------------------
-- The grammar of intervals
-- ---------------------------------------------------------------------------

/-- What the text of an interval counts. -/
inductive IntervalUnit where
  | millis
  | seconds
  /-- None is written, which stands for seconds. -/
  | unwritten
  | minutes
  | hours

namespace IntervalUnit

def name : IntervalUnit → List Char
  | millis => ['m', 's']
  | seconds => ['s']
  | unwritten => []
  | minutes => ['m']
  | hours => ['h']

/-- The milliseconds of one unit. -/
def size : IntervalUnit → Nat
  | millis => 1
  | seconds | unwritten => 1000
  | minutes => 60 * 1000
  | hours => 3600 * 1000

/-- So many units of time. -/
def times (u : IntervalUnit) (n : Nat) : Duration :=
  .ofMillis (n * u.size)

/-- Have so many minutes or hours room in 64 bits, as seconds? The other units are not converted
to seconds. -/
def Fits : IntervalUnit → Nat → Prop
  | minutes, n => n * 60 < 2 ^ 64
  | hours, n => n * 3600 < 2 ^ 64
  | millis, _ | seconds, _ | unwritten, _ => True

end IntervalUnit

variable {u : IntervalUnit}

/-- Is this a run of digits that denote the number, blanks or none, and the unit, and nothing
else? -/
def Writes (part : List Char) (n : Nat) (u : IntervalUnit) : Prop :=
  ∃ digits blanks, part = digits ++ blanks ++ u.name ∧ digits ≠ [] ∧
    (∀ c ∈ digits, Number.isDigit c = true) ∧ Number.ofDigits digits = n ∧ Text.Blanks blanks

-- ---------------------------------------------------------------------------
-- Units
-- ---------------------------------------------------------------------------

namespace IntervalUnit

theorem bare_name (u : IntervalUnit) : Text.Bare u.name := by
  constructor <;> intro c hc <;> cases u <;> cases hc <;> rfl

theorem ends_name (u : IntervalUnit) : Number.Ends u.name := by
  intro c hc
  cases u <;> cases hc <;> rfl

/-- What is short enough in milliseconds is so in seconds. -/
theorem fits_of_lt (h : n * u.size < 2 ^ 64) : u.Fits n := by
  cases u with
  | millis | seconds | unwritten => trivial
  | minutes =>
    have hLess : n * 60 ≤ n * (60 * 1000) := Nat.mul_le_mul_left n (by decide)
    exact Nat.lt_of_le_of_lt hLess h
  | hours =>
    have hLess : n * 3600 ≤ n * (3600 * 1000) := Nat.mul_le_mul_left n (by decide)
    exact Nat.lt_of_le_of_lt hLess h

theorem interval?_of_fits (h : u.Fits n) : interval? n u.name = some (u.times n) := by
  have hSeconds : ∀ m, Duration.ofSeconds m = .ofMillis (m * 1000) := fun m => by
    simp only [Duration.ofSeconds, Duration.ofMillis, Duration.mk.injEq]
    omega
  cases u with
  | millis => exact congrArg (fun m => some (Duration.ofMillis m)) (Nat.mul_one n).symm
  | seconds | unwritten => exact congrArg some (hSeconds n)
  | minutes =>
    have hRoom : n * 60 % 0x10000000000000000 = n * 60 := Nat.mod_eq_of_lt h
    simp only [interval?, name, hRoom, hSeconds, times, size, Nat.mul_assoc]
  | hours =>
    have hRoom : n * 3600 % 0x10000000000000000 = n * 3600 := Nat.mod_eq_of_lt h
    simp only [interval?, name, hRoom, hSeconds, times, size, Nat.mul_assoc]

end IntervalUnit

theorem exists_unit_of_interval? {name : List Char} (h : interval? n name = some d) :
    ∃ u : IntervalUnit, name = u.name := by
  unfold interval? at h
  split at h
  · exact ⟨.millis, rfl⟩
  · exact ⟨.seconds, rfl⟩
  · exact ⟨.unwritten, rfl⟩
  · exact ⟨.minutes, rfl⟩
  · exact ⟨.hours, rfl⟩
  · cases h

-- ---------------------------------------------------------------------------
-- Reading intervals
-- ---------------------------------------------------------------------------

/-- A blank or a unit ends a run of digits. -/
theorem ends_blanks_append {blanks : List Char} (h : Text.Blanks blanks) (u : IntervalUnit) :
    Number.Ends (blanks ++ u.name) := by
  cases blanks with
  | nil => exact u.ends_name
  | cons c blanks =>
    rintro _ ⟨⟩
    have hBlank := h c List.mem_cons_self
    cases hDigit : Number.isDigit c with
    | false => rfl
    | true =>
      rw [Text.isBlank_of_isDigit hDigit] at hBlank
      cases hBlank

/-- The number is what the digits at the front denote, and the unit what comes behind them. -/
theorem Writes.parts (h : Writes part n u) :
    Number.read? (part.takeWhile Number.isDigit) = some n ∧
      Text.trim (part.dropWhile Number.isDigit) = u.name := by
  obtain ⟨digits, blanks, rfl, hSome, hDigits, hNumber, hBlanks⟩ := h
  have hRun : (digits ++ blanks ++ u.name).takeWhile Number.isDigit = digits := by
    rw [List.append_assoc]
    exact Number.takeWhile_isDigit_append hDigits (ends_blanks_append hBlanks u)
  have hRest : (digits ++ blanks ++ u.name).dropWhile Number.isDigit = blanks ++ u.name := by
    have hWhole := List.takeWhile_append_dropWhile (p := Number.isDigit)
      (l := digits ++ blanks ++ u.name)
    rw [hRun] at hWhole
    exact List.append_cancel_left (hWhole.trans (List.append_assoc ..))
  rw [hRun, hRest]
  refine ⟨Number.read?_eq_some_iff.mpr ⟨hSome, hDigits, hNumber⟩, ?_⟩
  have hNothing : Text.Blanks [] := nofun
  rw [← List.append_nil (blanks ++ u.name)]
  exact Text.trim_surrounded hBlanks hNothing u.bare_name

/-- A text is written in one way only. -/
theorem Writes.unique {n' : Nat} {u' : IntervalUnit} (h : Writes part n u)
    (h' : Writes part n' u') : n = n' ∧ u.name = u'.name := by
  obtain ⟨hNumber, hUnit⟩ := h.parts
  rw [h'.parts.1] at hNumber
  exact ⟨(Option.some.inj hNumber).symm, hUnit.symm.trans h'.parts.2⟩

/-- A number and a unit are read, if the number has room in 64 bits. -/
theorem Writes.parseInterval_eq (h : Writes part n u) (hInterval : interval? n u.name = some d) :
    parseInterval part =
      if n < 2 ^ 64 then .ok d else .error (.badInterval (String.ofList part)) := by
  obtain ⟨hNumber, hUnit⟩ := h.parts
  simp only [parseInterval, hNumber, hUnit, hInterval]
  rfl

/-- What is read is a number that has room in 64 bits, and a unit. -/
theorem writes_of_parseInterval (hBack : ∀ c ∈ part.getLast?, Text.isBlank c = false)
    (h : parseInterval part = .ok d) :
    ∃ n u, Writes part n u ∧ n < 2 ^ 64 ∧ interval? n u.name = some d := by
  simp only [parseInterval] at h
  split at h
  · next n hRead =>
    split at h
    · next hWord =>
      split at h
      · next hInterval =>
        cases h
        obtain ⟨hSome, hDigits, hNumber⟩ := Number.read?_eq_some_iff.mp hRead
        obtain ⟨u, hName⟩ := exists_unit_of_interval? hInterval
        obtain ⟨blanks, hBlanks, hRest⟩ := Text.exists_blanks_of_back fun c hc =>
          hBack c (Text.mem_getLast?_of_suffix (List.dropWhile_suffix Number.isDigit) hc)
        rw [hName] at hRest hInterval
        refine ⟨n, u, ⟨_, blanks, ?_, hSome, hDigits, hNumber, hBlanks⟩, hWord, hInterval⟩
        rw [List.append_assoc, ← hRest, List.takeWhile_append_dropWhile]
      · cases h
    · cases h
  · cases h

-- ---------------------------------------------------------------------------
-- Reading schedules
-- ---------------------------------------------------------------------------

theorem ofInterval_of_ne (h : d.nanos ≠ 0) : ofInterval d = .ok (.every d) :=
  if_neg h

theorem eq_every_of_ofInterval (h : ofInterval d = .ok s) : d.nanos ≠ 0 ∧ s = .every d := by
  unfold ofInterval at h
  split at h
  · cases h
  · next hSome =>
    cases h
    exact ⟨hSome, rfl⟩

/-- A text that begins like an interval is read as one. -/
theorem parse_of_every (h : Text.trim text.toList = "every ".toList ++ rest) :
    parse text = (parseInterval (Text.trim rest)).bind ofInterval := by
  simp only [parse, h, Text.afterPrefix?_append]
  rfl

/-- Every other text is read as an expression. -/
theorem parse_of_other (h : ¬ "every ".toList <+: Text.trim text.toList) :
    parse text = ofCron (Text.trimmed text) := by
  simp only [parse, Text.afterPrefix?_eq_none h]
  rfl

theorem Writes.parse_eq (h : Text.trim text.toList = "every ".toList ++ rest)
    (hWrites : Writes (Text.trim rest) n u) (hSome : 1 ≤ n) (hWord : n < 2 ^ 64)
    (hFits : u.Fits n) : parse text = .ok (.every (u.times n)) := by
  have hLength : (u.times n).nanos ≠ 0 := by
    have hSize : 0 < u.size := by cases u <;> decide
    have hTotal : 0 < n * u.size := Nat.mul_pos hSome hSize
    show 1000000 * (n * u.size) ≠ 0
    omega
  rw [parse_of_every h, hWrites.parseInterval_eq (IntervalUnit.interval?_of_fits hFits),
    if_pos hWord]
  exact ofInterval_of_ne hLength

/-- A schedule that is read from a text that begins like an interval is the interval of a number
above zero and a unit. -/
theorem writes_of_parse (h : Text.trim text.toList = "every ".toList ++ rest)
    (hParse : parse text = .ok s) :
    ∃ n u d, Writes (Text.trim rest) n u ∧ 1 ≤ n ∧ n < 2 ^ 64 ∧
      interval? n u.name = some d ∧ s = .every d := by
  rw [parse_of_every h] at hParse
  cases hInterval : parseInterval (Text.trim rest) with
  | error e =>
    rw [hInterval] at hParse
    cases hParse
  | ok d =>
    rw [hInterval] at hParse
    obtain ⟨hSome, rfl⟩ := eq_every_of_ofInterval hParse
    obtain ⟨n, u, hWrites, hWord, hUnits⟩ :=
      writes_of_parseInterval (Text.bare_trim rest).back hInterval
    refine ⟨n, u, d, hWrites, Nat.pos_of_ne_zero ?_, hWord, hUnits, rfl⟩
    rintro rfl
    -- of no unit is there nothing, whatever the unit
    apply hSome
    cases u <;> cases hUnits <;> rfl

/-- What is wrong with a text that begins like an interval is wrong with the interval. -/
theorem ne_badExpression_of_every (h : Text.trim text.toList = "every ".toList ++ rest)
    (expression : String) : parse text ≠ .error (.badExpression expression) := by
  rw [parse_of_every h]
  cases hInterval : parseInterval (Text.trim rest) with
  | error e =>
    rintro ⟨⟩
    simp only [parseInterval] at hInterval
    repeat' split at hInterval
    all_goals cases hInterval
  | ok d =>
    show ofInterval d ≠ _
    unfold ofInterval
    split <;> nofun

theorem eq_cron_of_ofCron {expression : String} :
    ofCron expression = .ok s ↔
      ∃ times, Cron.parse? expression = some times ∧ s = .cron expression times := by
  unfold ofCron
  cases Cron.parse? expression with
  | none => simp
  | some times => simp [eq_comm]

/-- A text that begins with `every` and a space, blanks around it aside, denotes the interval of a
number that has room in 64 bits and is above zero, and a unit, if it consists of these and blanks
in between; it denotes nothing otherwise, and no expression in any case. Minutes and hours are
meant to have room in 64 bits as seconds. Every other text denotes what it does as an expression,
which is kept without the blanks around it. -/
theorem accepts_exactly (text : String) :
    (∀ rest, Text.trim text.toList = "every ".toList ++ rest →
      ((∀ n u, Writes (Text.trim rest) n u → n < 2 ^ 64 → u.Fits n) →
        ∀ s, parse text = .ok s ↔
          ∃ n u, Writes (Text.trim rest) n u ∧ 1 ≤ n ∧ n < 2 ^ 64 ∧ s = .every (u.times n)) ∧
      ((¬ ∃ n u, Writes (Text.trim rest) n u ∧ 1 ≤ n ∧ n < 2 ^ 64) →
        ∃ e, parse text = .error e) ∧
      (∀ s, parse text = .ok s → ∃ d, s = .every d) ∧
      ∀ expression, parse text ≠ .error (.badExpression expression)) ∧
    (¬ "every ".toList <+: Text.trim text.toList →
      ∀ s, parse text = .ok s ↔ ∃ times, Cron.parse? (Text.trimmed text) = some times ∧
        s = .cron (Text.trimmed text) times) := by
  refine ⟨fun rest hEvery => ⟨fun hFits s => ⟨fun hParse => ?_, ?_⟩, fun hNone => ?_,
    fun s hParse => ?_, ne_badExpression_of_every hEvery⟩, fun hOther s => ?_⟩
  · obtain ⟨n, u, d, hWrites, hSome, hWord, hUnits, rfl⟩ := writes_of_parse hEvery hParse
    rw [IntervalUnit.interval?_of_fits (hFits n u hWrites hWord)] at hUnits
    cases hUnits
    exact ⟨n, u, hWrites, hSome, hWord, rfl⟩
  · rintro ⟨n, u, hWrites, hSome, hWord, rfl⟩
    exact hWrites.parse_eq hEvery hSome hWord (hFits n u hWrites hWord)
  · cases hParse : parse text with
    | error e => exact ⟨e, rfl⟩
    | ok s =>
      obtain ⟨n, u, -, hWrites, hSome, hWord, -⟩ := writes_of_parse hEvery hParse
      exact (hNone ⟨n, u, hWrites, hSome, hWord⟩).elim
  · obtain ⟨-, -, d, -, -, -, -, rfl⟩ := writes_of_parse hEvery hParse
    exact ⟨d, rfl⟩
  · rw [parse_of_other hOther]
    exact eq_cron_of_ofCron

/-- A number with leading zeros and a unit behind a blank, with other blanks around them. -/
def sevenMinutes : String := "\tevery  007\u00a0m \n"

theorem trim_sevenMinutes :
    Text.trim sevenMinutes.toList = "every ".toList ++ " 007\u00a0m".toList := by
  decide

theorem writes_sevenMinutes : Writes (Text.trim " 007\u00a0m".toList) 7 .minutes := by
  have hDigits : ∀ c ∈ "007".toList, Number.isDigit c = true := List.all_eq_true.mp (by decide)
  have hBlanks : Text.Blanks "\u00a0".toList := List.all_eq_true.mp (by decide)
  exact ⟨"007".toList, "\u00a0".toList, by decide, by decide, hDigits, by decide, hBlanks⟩

/-- Seven minutes are read, a sign is no digit, and an expression is kept without its blanks. -/
theorem accepts_exactly_sevenMinutes :
    parse sevenMinutes = .ok (.every (.ofMillis 420000)) ∧
      (∃ e, parse "every +5s" = .error e) ∧
      parse "@daily\n" = .ok (.cron "@daily" Cron.daily) := by
  refine ⟨?_, ?_, ?_⟩
  · refine (((accepts_exactly sevenMinutes).1 _ trim_sevenMinutes).1 ?_ _).mpr
      ⟨7, .minutes, writes_sevenMinutes, by decide, by decide, rfl⟩
    intro n u hWrites _
    obtain ⟨rfl, -⟩ := writes_sevenMinutes.unique hWrites
    cases u <;> simp [IntervalUnit.Fits]
  · refine ((accepts_exactly "every +5s").1 "+5s".toList (by decide)).2.1 ?_
    rintro ⟨n, u, hWrites, -⟩
    cases hWrites.parts.1
  · exact ((accepts_exactly "@daily\n").2 (by decide) _).mpr ⟨_, by decide +kernel, rfl⟩

-- ---------------------------------------------------------------------------
-- Displayed schedules
-- ---------------------------------------------------------------------------

/-- Was the schedule built from an interval, or read from a text? -/
def Made (s : Schedule) : Prop :=
  (∃ d, ofInterval d = .ok s) ∨ ∃ text, parse text = .ok s

/-- The displayed text of an interval, behind `every` and a space. -/
def shown (d : Duration) : List Char :=
  Number.digits d.millis ++ ['m', 's']

theorem writes_shown (d : Duration) : Writes (shown d) d.millis .millis :=
  ⟨Number.digits d.millis, [], by rw [List.append_nil]; rfl, Nat.toDigits_ne_nil,
    fun _ => Number.isDigit_of_mem_digits, Number.ofDigits_digits _, nofun⟩

theorem bare_shown (d : Duration) : Text.Bare (shown d) := by
  obtain ⟨c, more, hDigits⟩ : ∃ c more, Number.digits d.millis = c :: more :=
    List.exists_cons_of_ne_nil Nat.toDigits_ne_nil
  constructor
  · rw [shown, hDigits]
    rintro _ ⟨⟩
    have hMem : c ∈ Number.digits d.millis := hDigits ▸ List.mem_cons_self
    exact Text.isBlank_of_isDigit (Number.isDigit_of_mem_digits hMem)
  · intro c hc
    rw [shown, List.getLast?_append] at hc
    cases hc
    decide

theorem text_every (d : Duration) :
    (Schedule.every d).text = String.ofList ("every ".toList ++ shown d) :=
  congrArg String.ofList (List.append_assoc ..)

theorem trim_text_every (d : Duration) :
    Text.trim (Schedule.every d).text.toList = "every ".toList ++ shown d := by
  rw [text_every, String.toList_ofList]
  refine Text.trim_of_bare ⟨?_, fun c hc => ?_⟩
  · rintro _ ⟨⟩
    decide
  · rw [List.getLast?_append, shown, List.getLast?_append] at hc
    cases hc
    decide

/-- The text of an interval denotes its whole milliseconds, if there are any and if their number
has room in 64 bits. -/
theorem parse_text_every (d : Duration) : parse (Schedule.every d).text = .ok s ↔
    1 ≤ d.millis ∧ d.millis < 2 ^ 64 ∧ s = .every (.ofMillis d.millis) := by
  have hWrites : Writes (Text.trim (shown d)) d.millis .millis := by
    rw [Text.trim_of_bare (bare_shown d)]
    exact writes_shown d
  have hOnce : IntervalUnit.times .millis d.millis = .ofMillis d.millis :=
    congrArg Duration.ofMillis (Nat.mul_one d.millis)
  constructor
  · intro hParse
    obtain ⟨n, u, d', hWrites', hSome, hWord, hUnits, rfl⟩ :=
      writes_of_parse (trim_text_every d) hParse
    obtain ⟨rfl, hUnit⟩ := hWrites.unique hWrites'
    rw [← hUnit] at hUnits
    cases hUnits
    exact ⟨hSome, hWord, rfl⟩
  · rintro ⟨hSome, hWord, rfl⟩
    rw [← hOnce]
    exact hWrites.parse_eq (trim_text_every d) hSome hWord trivial

theorem text_cron (expression : String) (times : Cron) :
    (Schedule.cron expression times).text = expression := rfl

/-- An expression that was read is read back. -/
theorem parse_text_cron {expression : String} {times : Cron}
    (h : parse text = .ok (.cron expression times)) :
    parse expression = .ok (.cron expression times) := by
  by_cases hEvery : "every ".toList <+: Text.trim text.toList
  · obtain ⟨rest, hRest⟩ := hEvery
    obtain ⟨-, -, d, -, -, -, -, hCron⟩ := writes_of_parse hRest.symm h
    cases hCron
  · rw [parse_of_other hEvery] at h
    obtain ⟨_, -, hCron⟩ := eq_cron_of_ofCron.mp h
    obtain ⟨rfl, rfl⟩ := Schedule.cron.inj hCron
    have hTrimmed : Text.trim (Text.trimmed text).toList = Text.trim text.toList := by
      rw [Text.trimmed, String.toList_ofList, Text.trim_trim]
    have hOther : ¬ "every ".toList <+: Text.trim (Text.trimmed text).toList := by
      rw [hTrimmed]
      exact hEvery
    have hSame : Text.trimmed (Text.trimmed text) = Text.trimmed text :=
      congrArg String.ofList hTrimmed
    rw [parse_of_other hOther, hSame]
    exact h

/-- A schedule that was built from an interval or read is read back from its own text, if it is an
expression, or an interval of whole milliseconds whose number has room in 64 bits; and in no other
case. So is every interval that was written in whole units and is that short. Whatever a displayed
text denotes is displayed as that text. -/
theorem survives_display :
    (∀ s, Made s → (parse s.text = .ok s ↔
      (∃ expression times, s = .cron expression times) ∨
        ∃ n, 1 ≤ n ∧ n < 2 ^ 64 ∧ s = .every (.ofMillis n))) ∧
    (∀ text rest n u, Text.trim text.toList = "every ".toList ++ rest →
      Writes (Text.trim rest) n u → 1 ≤ n → n * u.size < 2 ^ 64 →
        parse text = .ok (.every (u.times n)) ∧
          parse (Schedule.every (u.times n)).text = .ok (.every (u.times n))) ∧
    ∀ s t, Made s → parse s.text = .ok t → t.text = s.text := by
  refine ⟨fun s hMade => ?_, fun text rest n u hEvery hWrites hSome hShort => ?_,
    fun s t hMade hParse => ?_⟩
  · cases s with
    | cron expression times =>
      obtain ⟨text, hText⟩ : ∃ text, parse text = .ok (.cron expression times) := by
        rcases hMade with ⟨d, hInterval⟩ | hText
        · cases (eq_every_of_ofInterval hInterval).2
        · exact hText
      rw [text_cron]
      exact ⟨fun _ => .inl ⟨expression, times, rfl⟩, fun _ => parse_text_cron hText⟩
    | every d =>
      rw [parse_text_every]
      constructor
      · rintro ⟨hSome, hWord, hSame⟩
        exact .inr ⟨d.millis, hSome, hWord, hSame⟩
      · rintro (⟨_, _, hCron⟩ | ⟨n, hSome, hWord, hWhole⟩)
        · cases hCron
        · cases hWhole
          rw [Duration.millis_ofMillis]
          exact ⟨hSome, hWord, rfl⟩
  · have hSize : 1 ≤ u.size := by cases u <;> decide
    have hWord : n < 2 ^ 64 := Nat.lt_of_le_of_lt (Nat.le_mul_of_pos_right n hSize) hShort
    have hFits := IntervalUnit.fits_of_lt hShort
    refine ⟨hWrites.parse_eq hEvery hSome hWord hFits, (parse_text_every _).mpr ?_⟩
    rw [IntervalUnit.times, Duration.millis_ofMillis]
    exact ⟨Nat.mul_pos hSome hSize, hShort, rfl⟩
  · cases s with
    | cron expression times =>
      rcases hMade with ⟨d, hInterval⟩ | ⟨text, hText⟩
      · cases (eq_every_of_ofInterval hInterval).2
      · rw [text_cron, parse_text_cron hText] at hParse
        exact congrArg Schedule.text (Except.ok.inj hParse).symm
    | every d =>
      have hSame := ((parse_text_every d).mp hParse).2.2
      have hShown : shown (.ofMillis d.millis) = shown d := by
        rw [shown, Duration.millis_ofMillis, shown]
      rw [hSame, text_every, text_every, hShown]

/-- Seven minutes are read back as they were displayed; a millisecond and a half is displayed as
one. -/
theorem survives_display_sevenMinutes :
    (parse sevenMinutes = .ok (.every (.ofMillis 420000)) ∧
      parse (Schedule.every (.ofMillis 420000)).text = .ok (.every (.ofMillis 420000))) ∧
    parse (Schedule.every ⟨1500000⟩).text ≠ .ok (.every ⟨1500000⟩) ∧
    parse (Schedule.every ⟨1500000⟩).text = .ok (.every (.ofMillis 1)) ∧
      (Schedule.every (.ofMillis 1)).text = (Schedule.every ⟨1500000⟩).text := by
  have hMade : Made (.every ⟨1500000⟩) := .inl ⟨⟨1500000⟩, ofInterval_of_ne (by decide)⟩
  have hOne : parse (Schedule.every ⟨1500000⟩).text = .ok (.every (.ofMillis 1)) :=
    (parse_text_every _).mpr ⟨by decide, by decide, rfl⟩
  refine ⟨survives_display.2.1 sevenMinutes _ 7 .minutes trim_sevenMinutes writes_sevenMinutes
    (by decide) (by decide), fun hRead => ?_, hOne, survives_display.2.2 _ _ hMade hOne⟩
  rcases (survives_display.1 _ hMade).mp hRead with ⟨_, _, hCron⟩ | ⟨n, -, -, hWhole⟩
  · cases hCron
  · have hNanos : 1500000 = 1000000 * n :=
      congrArg Duration.nanos (Schedule.every.inj hWhole)
    omega

end BackgroundJobs.Schedule
