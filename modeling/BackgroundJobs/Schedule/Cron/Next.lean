import BackgroundJobs.Schedule.Cron.Basic
import BackgroundJobs.Time.Instant

/-!
# Cron — the next selected time

The search for the next time starts one second after a given instant and goes
through years, months, days and times of day in order. Where it stands on the
month, the day or the time of day of its start it looks no further back than
the start; further on it begins again at the first value.

The bound on the month holds in the first year that is searched, whether or not
that is the year of the start: with a year field that skips the current year,
earlier months of the first selected year are passed over.
-/

namespace BackgroundJobs.Cron

/-- A time of day. -/
structure TimeOfDay where
  hour : Nat
  minute : Nat
  second : Nat
  deriving DecidableEq, Repr

def midnight : TimeOfDay := ⟨0, 0, 0⟩

/-- The first answer of `search` on a list whose first element is searched from `bound` and all
others from `start`. -/
def firstFrom {α β γ : Type} (search : α → β → Option γ) (bound start : β) : List α → Option γ
  | [] => none
  | a :: rest => (search a bound).or (rest.findSome? fun a => search a start)

/-- The elements of an increasing list from `bound` on, searched in order: `bound` itself with
its own bound on what is below it, every larger element from the start. -/
def searchFrom {β γ : Type} (search : Nat → β → Option γ) (l : List Nat) (bound : Nat)
    (inner start : β) : Option γ :=
  firstFrom search (if l.contains bound then inner else start) start (l.filter (bound ≤ ·))

/-- The first selected second from `bound` on. -/
def nextSecond? (c : Cron) (bound : Nat) : Option Nat :=
  c.seconds.find? (bound ≤ ·)

/-- The first selected minute and second from a bound on. -/
def nextMinute? (c : Cron) (minute second : Nat) : Option (Nat × Nat) :=
  searchFrom (fun m bound => (nextSecond? c bound).map (m, ·)) c.minutes minute second 0

/-- The first selected time of day from a bound on. -/
def nextTime? (c : Cron) (bound : TimeOfDay) : Option TimeOfDay :=
  searchFrom (fun h (b : Nat × Nat) => (nextMinute? c b.1 b.2).map fun (m, s) => ⟨h, m, s⟩)
    c.hours bound.hour (bound.minute, bound.second) (0, 0)

/-- The first selected time of the given day from a bound on, if the day is selected. -/
def onDay? (c : Cron) (date : Date) (bound : TimeOfDay) : Option DateTime :=
  if c.daysOfWeek.contains (Date.weekday date.toDays) then
    (nextTime? c bound).map fun t => ⟨date, t.hour, t.minute, t.second, 0⟩
  else none

/-- The first selected time of the given month from a day and a time of that day on. A day past
the end of the month counts as its last day. -/
def inMonth? (c : Cron) (year month : Nat) (bound : Nat × TimeOfDay) : Option DateTime :=
  let length := daysInMonth year month
  let first := min bound.1 length
  firstFrom (fun day => onDay? c ⟨year, month, day⟩)
    (if c.daysOfMonth.contains bound.1 then bound.2 else midnight) midnight
    (c.daysOfMonth.filter fun day => first ≤ day && day ≤ length)

/-- The first selected time of the given year from a month on, the bound within that month being
given apart. -/
def inYear? (c : Cron) (year : Nat) (bound : Nat × Nat × TimeOfDay) : Option DateTime :=
  searchFrom (inMonth? c year) c.months bound.1 bound.2 (1, midnight)

/-- The next selected time after an instant. There is none after times before the year 0. -/
def nextAfter? (c : Cron) (t : Instant) : Option Instant :=
  let start := (t.shift nanosPerSecond).toDateTime
  let bound := (start.date.month, start.date.day,
    (⟨start.hour, start.minute, start.second⟩ : TimeOfDay))
  (firstFrom (inYear? c) bound (1, 1, midnight)
    (c.years.filter fun year => 0 ≤ start.date.year && start.date.year ≤ (year : Int))).map
    DateTime.toInstant

end BackgroundJobs.Cron
