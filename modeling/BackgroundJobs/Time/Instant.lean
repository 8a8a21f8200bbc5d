import BackgroundJobs.Time.Calendar
import BackgroundJobs.Time.Duration

/-!
# Time — instants

An instant is a point of universal time, to the nanosecond. It may lie in a leap
second, which comes between a second and the one that is counted next. Instants
are ordered as they come; a step counts the leap second that it starts in, and
no other. Steps that would leave the years -262143 to 262142 have no result.
-/

namespace BackgroundJobs

/-- A point in time. -/
structure Instant where
  /-- Whole seconds since 1 January 1970, without the leap seconds. -/
  seconds : Int
  /-- Nanoseconds past the last whole second; a second's worth and more of them lie in the leap
  second after it. -/
  nanos : Nat
  deriving DecidableEq, Inhabited

/-- An instant split into its date and its time of day. A leap second is the second 60 of its
minute. -/
structure DateTime where
  date : Date
  hour : Nat
  minute : Nat
  second : Nat
  nano : Nat
  deriving DecidableEq, Inhabited

def nanosPerSecond : Nat := 1000000000

/-- The seconds of a day without leap seconds. -/
def secondsPerDay : Nat := 86400

/-- The instant of a date and a time of day. -/
def DateTime.toInstant (t : DateTime) : Instant :=
  ⟨t.date.toDays * secondsPerDay + (t.hour * 3600 + t.minute * 60 + min t.second 59 : Nat),
    (t.second - 59) * nanosPerSecond + t.nano⟩

namespace Instant

-- ---------------------------------------------------------------------------
-- Order
-- ---------------------------------------------------------------------------

instance : LT Instant :=
  ⟨fun a b => a.seconds < b.seconds ∨ (a.seconds = b.seconds ∧ a.nanos < b.nanos)⟩

instance : LE Instant :=
  ⟨fun a b => a.seconds < b.seconds ∨ (a.seconds = b.seconds ∧ a.nanos ≤ b.nanos)⟩

theorem lt_iff {a b : Instant} :
    a < b ↔ a.seconds < b.seconds ∨ (a.seconds = b.seconds ∧ a.nanos < b.nanos) := Iff.rfl

theorem le_iff {a b : Instant} :
    a ≤ b ↔ a.seconds < b.seconds ∨ (a.seconds = b.seconds ∧ a.nanos ≤ b.nanos) := Iff.rfl

instance (a b : Instant) : Decidable (a < b) := decidable_of_iff' _ lt_iff

instance (a b : Instant) : Decidable (a ≤ b) := decidable_of_iff' _ le_iff

theorem le_refl (a : Instant) : a ≤ a := by
  simp [le_iff]

theorem le_trans {a b c : Instant} (hab : a ≤ b) (hbc : b ≤ c) : a ≤ c := by
  simp only [le_iff] at *
  omega

theorem le_total (a b : Instant) : a ≤ b ∨ b ≤ a := by
  simp only [le_iff]
  omega

theorem not_lt {a b : Instant} : ¬ a < b ↔ b ≤ a := by
  simp only [lt_iff, le_iff]
  omega

theorem lt_irrefl (a : Instant) : ¬ a < a := by
  simp [lt_iff]

theorem lt_trans {a b c : Instant} (hab : a < b) (hbc : b < c) : a < c := by
  simp only [lt_iff] at *
  omega

theorem lt_asymm {a b : Instant} (h : a < b) : ¬ b < a := fun h' =>
  lt_irrefl a (lt_trans h h')

theorem lt_trichotomy (a b : Instant) : a < b ∨ a = b ∨ b < a := by
  cases a
  cases b
  simp only [lt_iff, mk.injEq]
  omega

-- ---------------------------------------------------------------------------
-- Parts
-- ---------------------------------------------------------------------------

/-- The instant so many nanoseconds after the beginning of 1970, outside of leap seconds. -/
def ofNanos (n : Int) : Instant :=
  ⟨n / nanosPerSecond, (n % nanosPerSecond).toNat⟩

def millis (t : Instant) : Int :=
  t.seconds * 1000 + (t.nanos / 1000000 : Nat)

/-- Does the instant lie in a leap second? -/
def isLeap (t : Instant) : Bool :=
  nanosPerSecond ≤ t.nanos

/-- Whole days since 1 January 1970, rounded down. -/
def days (t : Instant) : Int :=
  t.seconds / secondsPerDay

/-- The whole seconds of the day that have passed, without leap seconds. -/
def secondOfDay (t : Instant) : Nat :=
  (t.seconds % secondsPerDay).toNat

/-- The date and the time of day of an instant. -/
def toDateTime (t : Instant) : DateTime :=
  let ofDay := t.secondOfDay
  ⟨Date.ofDays t.days, ofDay / 3600, ofDay / 60 % 60,
    ofDay % 60 + t.nanos / nanosPerSecond, t.nanos % nanosPerSecond⟩

-- ---------------------------------------------------------------------------
-- Steps
-- ---------------------------------------------------------------------------

/-- The instant so many nanoseconds later, or earlier if there are less than none. Where the step
leads out of a leap second, the rest of that second counts. -/
def shift (t : Instant) (step : Int) : Instant :=
  if t.nanos < nanosPerSecond ∨ t.nanos + step < nanosPerSecond then
    ofNanos (t.seconds * nanosPerSecond + t.nanos + step)
  else if t.nanos + step < 2 * nanosPerSecond then ⟨t.seconds, (t.nanos + step).toNat⟩
  else ofNanos (t.seconds * nanosPerSecond + t.nanos + step - nanosPerSecond)

/-- The first instant that steps may lead to. -/
def earliest : Instant :=
  (DateTime.mk ⟨-262143, 1, 1⟩ 0 0 0 0).toInstant

/-- The last instant outside of leap seconds that steps may lead to. -/
def latest : Instant :=
  (DateTime.mk ⟨262142, 12, 31⟩ 23 59 59 999999999).toInstant

def inRange? (t : Instant) : Option Instant :=
  if earliest.seconds ≤ t.seconds ∧ t.seconds ≤ latest.seconds then some t else none

/-- The instant so many nanoseconds later, if it is within range. -/
def shift? (t : Instant) (step : Int) : Option Instant :=
  (t.shift step).inRange?

/-- The instant a duration later, if there is one. -/
def after? (t : Instant) (d : Duration) : Option Instant :=
  d.step?.bind t.shift?

/-- The instant a duration earlier, if there is one. -/
def before? (t : Instant) (d : Duration) : Option Instant :=
  d.step?.bind fun step => t.shift? (-step)

/-- The nanoseconds from one instant to another. A leap second counts where one of them lies in it
and the other comes later in the day. -/
def nanosSince (later earlier : Instant) : Int :=
  let leap : Int :=
    if earlier.secondOfDay < later.secondOfDay ∧ earlier.isLeap then 1
    else if later.secondOfDay < earlier.secondOfDay ∧ later.isLeap then -1
    else 0
  (later.seconds - earlier.seconds + leap) * nanosPerSecond + (later.nanos - earlier.nanos)

/-- The whole milliseconds from one instant to a later one, and zero to an earlier one. -/
def millisSince (later earlier : Instant) : Nat :=
  (nanosSince later earlier).toNat / 1000000

/-- A step forward leads to no earlier instant. -/
theorem le_shift (t : Instant) {step : Int} (h : 0 ≤ step) : t ≤ t.shift step := by
  unfold shift
  split
  · simp only [le_iff, ofNanos, nanosPerSecond] at *
    omega
  · split
    · exact Or.inr ⟨rfl, by simp only; omega⟩
    · simp only [le_iff, ofNanos, nanosPerSecond] at *
      omega

end Instant

example : (DateTime.mk ⟨2016, 12, 31⟩ 23 59 60 5).toInstant.shift 1000000000 =
    (DateTime.mk ⟨2017, 1, 1⟩ 0 0 0 5).toInstant := by decide

end BackgroundJobs
