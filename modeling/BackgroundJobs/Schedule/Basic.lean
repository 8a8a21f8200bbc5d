import BackgroundJobs.Schedule.Cron.Next
import BackgroundJobs.Text.Blank
import BackgroundJobs.Time.Duration

/-!
# Schedule — when a recurring request fires

A schedule is a cron expression or a fixed interval. An interval is written
`every`, a number and a unit: `ms`, `s`, `m`, `h`, or none for seconds. Any
other text is an expression. An interval counts from the moment it is applied
to, so a late firing moves every later one.
-/

namespace BackgroundJobs

/-- Why a text or an interval is no schedule. -/
inductive ScheduleError where
  | badInterval (text : String)
  | unknownUnit (unit : String)
  | zeroInterval
  | badExpression (expression : String)
  deriving DecidableEq, Repr

def ScheduleError.message : ScheduleError → String
  | .badInterval text => "bad interval: " ++ text
  | .unknownUnit unit => "unknown interval unit `" ++ unit ++ "`"
  | .zeroInterval => "interval must be greater than zero"
  | .badExpression expression =>
    expression ++ ": Invalid expression: Invalid cron expression."

/-- A cron expression with what it selects, or an interval. -/
inductive Schedule where
  | cron (expression : String) (times : Cron)
  | every (interval : Duration)
  deriving DecidableEq

instance : Inhabited Schedule := ⟨.every (.ofSeconds 1)⟩

namespace Schedule

-- ---------------------------------------------------------------------------
-- Building and reading
-- ---------------------------------------------------------------------------

/-- The schedule of a cron expression, which is kept as it is written. -/
def ofCron (expression : String) : Except ScheduleError Schedule :=
  match Cron.parse? expression with
  | some times => .ok (.cron expression times)
  | none => .error (.badExpression expression)

/-- The schedule of an interval, which must not be empty. -/
def ofInterval (interval : Duration) : Except ScheduleError Schedule :=
  if interval.nanos = 0 then .error .zeroInterval else .ok (.every interval)

/-- So many units of time, by the unit's name. Minutes and hours are counted in seconds, in a
number of 64 bits that starts again from zero where it is full. -/
def interval? (n : Nat) : List Char → Option Duration
  | ['m', 's'] => some (.ofMillis n)
  | ['s'] => some (.ofSeconds n)
  | [] => some (.ofSeconds n)
  | ['m'] => some (.ofSeconds (n * 60 % 0x10000000000000000))
  | ['h'] => some (.ofSeconds (n * 3600 % 0x10000000000000000))
  | _ => none

/-- The interval of a number, which has 64 bits, and a unit. -/
def parseInterval (s : List Char) : Except ScheduleError Duration :=
  let digits := s.takeWhile Number.isDigit
  let unit := Text.trim (s.dropWhile Number.isDigit)
  match Number.read? digits with
  | some n =>
    if n < 0x10000000000000000 then
      match interval? n unit with
      | some interval => .ok interval
      | none => .error (.unknownUnit (String.ofList unit))
    else .error (.badInterval (String.ofList s))
  | none => .error (.badInterval (String.ofList s))

/-- The schedule that a text denotes; blanks around it do not count. -/
def parse (text : String) : Except ScheduleError Schedule :=
  let trimmed := Text.trim text.toList
  match Text.afterPrefix? "every ".toList trimmed with
  | some rest => do ofInterval (← parseInterval (Text.trim rest))
  | none => ofCron (String.ofList trimmed)

-- ---------------------------------------------------------------------------
-- Writing
-- ---------------------------------------------------------------------------

/-- The text of a schedule. Intervals are given in whole milliseconds. -/
def text : Schedule → String
  | .cron expression _ => expression
  | .every interval =>
    String.ofList ("every ".toList ++ Number.digits interval.millis ++ ['m', 's'])

instance : ToString Schedule := ⟨text⟩

def toJson (s : Schedule) : Json := .str s.text

-- ---------------------------------------------------------------------------
-- Firing
-- ---------------------------------------------------------------------------

/-- The first time after the given one at which the schedule fires, if there is one. -/
def next? (s : Schedule) (t : Instant) : Option Instant :=
  match s with
  | .cron _ times => times.nextAfter? t
  | .every interval => t.after? interval

/-- The next firings after the given time, as many as asked for unless there are fewer. -/
def fires (s : Schedule) (t : Instant) : Nat → List Instant
  | 0 => []
  | n + 1 =>
    match s.next? t with
    | some u => u :: s.fires u n
    | none => []

end Schedule

/-- When a request runs: once, right away, or again and again on a schedule. -/
inductive Trigger where
  | immediate
  | recurring (schedule : Schedule)
  deriving DecidableEq

namespace Trigger

instance : Inhabited Trigger := ⟨.immediate⟩

def isRecurring : Trigger → Bool
  | .immediate => false
  | .recurring _ => true

def ofCron (expression : String) : Except ScheduleError Trigger :=
  (Schedule.ofCron expression).map .recurring

def ofInterval (interval : Duration) : Except ScheduleError Trigger :=
  (Schedule.ofInterval interval).map .recurring

end Trigger

end BackgroundJobs
