import BackgroundJobs.Schedule.Cron.Grammar

/-!
# Cron — what an expression selects

Every field of an expression selects a set of numbers from the range of its
unit. A date is selected if its day of the month and its day of the week both
are; Sunday is day 1 of the week.
-/

namespace BackgroundJobs.Cron

-- ---------------------------------------------------------------------------
-- Units
-- ---------------------------------------------------------------------------

/-- What a field counts: the bounds of its values and their names. -/
structure TimeUnit where
  least : Nat
  greatest : Nat
  names : List (String × Nat)

namespace TimeUnit

def second : TimeUnit := ⟨0, 59, []⟩

def minute : TimeUnit := ⟨0, 59, []⟩

def hour : TimeUnit := ⟨0, 23, []⟩

def dayOfMonth : TimeUnit := ⟨1, 31, []⟩

def month : TimeUnit :=
  ⟨1, 12, [("jan", 1), ("january", 1), ("feb", 2), ("february", 2), ("mar", 3), ("march", 3),
    ("apr", 4), ("april", 4), ("may", 5), ("jun", 6), ("june", 6), ("jul", 7), ("july", 7),
    ("aug", 8), ("august", 8), ("sep", 9), ("september", 9), ("oct", 10), ("october", 10),
    ("nov", 11), ("november", 11), ("dec", 12), ("december", 12)]⟩

def dayOfWeek : TimeUnit :=
  ⟨1, 7, [("sun", 1), ("sunday", 1), ("mon", 2), ("monday", 2), ("tue", 3), ("tues", 3),
    ("tuesday", 3), ("wed", 4), ("wednesday", 4), ("thu", 5), ("thurs", 5), ("thursday", 5),
    ("fri", 6), ("friday", 6), ("sat", 7), ("saturday", 7)]⟩

def year : TimeUnit := ⟨1970, 2100, []⟩

/-- The values from `first` to `last`, both included. -/
def span (first last : Nat) : List Nat :=
  (List.range (last + 1)).drop first

def values (u : TimeUnit) : List Nat :=
  span u.least u.greatest

/-- Is the number a value of the unit? -/
def has (u : TimeUnit) (n : Nat) : Bool :=
  u.least ≤ n && n ≤ u.greatest

/-- The value of that name, in letters of any case. -/
def named? (u : TimeUnit) (name : String) : Option Nat :=
  u.names.lookup (name.map Char.toLower)

/-- The values between two, if they are values and in order. -/
def between? (u : TimeUnit) (first last : Nat) : Option (List Nat) :=
  if u.has first && u.has last && first ≤ last then some (span first last) else none

def ofRange? (u : TimeUnit) : Range → Option (List Nat)
  | .every => some u.values
  | .single n => u.between? n n
  | .between a b => u.between? a b
  | .betweenNames a b => do u.between? (← u.named? a) (← u.named? b)

/-- Every `step`-th element, the first one included. -/
def everyNth (step : Nat) (l : List Nat) : List Nat :=
  (l.zipIdx.filter fun (_, i) => i % step = 0).map (·.1)

/-- The values of an item. A stepped single value runs on to the end of the unit. -/
def ofItem? (u : TimeUnit) : Item → Option (List Nat)
  | .range r => u.ofRange? r
  | .stepped _ 0 => none
  | .stepped (.single n) step => (u.between? n u.greatest).map (everyNth step)
  | .stepped r step => (u.ofRange? r).map (everyNth step)
  | .named n => (u.named? n).map ([·])

/-- The values of a field, in order. -/
def ofField? (u : TimeUnit) (f : Field) : Option (List Nat) := do
  let chosen ← f.mapM u.ofItem?
  pure (u.values.filter fun n => chosen.any (·.contains n))

end TimeUnit

end Cron

-- ---------------------------------------------------------------------------
-- Expressions
-- ---------------------------------------------------------------------------

/-- What an expression selects, each unit's values in increasing order. -/
structure Cron where
  seconds : List Nat
  minutes : List Nat
  hours : List Nat
  daysOfMonth : List Nat
  months : List Nat
  daysOfWeek : List Nat
  years : List Nat
  deriving DecidableEq, Repr, Inhabited

namespace Cron

def values (u : TimeUnit) (anyMark : Bool) : Reader (List Nat) := fun s => do
  let (f, s) ← field anyMark s
  pure (← u.ofField? f, s)

/-- The fields of an expression, the year left out or not. -/
def ofFields? (s : List Char) : Option Cron := do
  let (second, s) ← values TimeUnit.second false s
  let (minute, s) ← values TimeUnit.minute false s
  let (hour, s) ← values TimeUnit.hour false s
  let (dayOfMonth, s) ← values TimeUnit.dayOfMonth true s
  let (month, s) ← values TimeUnit.month false s
  let (dayOfWeek, s) ← values TimeUnit.dayOfWeek true s
  let (year, s) := (values TimeUnit.year false s).getD (TimeUnit.year.values, s)
  if s.isEmpty then some ⟨second, minute, hour, dayOfMonth, month, dayOfWeek, year⟩ else none

def daily : Cron :=
  ⟨[0], [0], [0], TimeUnit.dayOfMonth.values, TimeUnit.month.values, TimeUnit.dayOfWeek.values,
    TimeUnit.year.values⟩

def shorthands : List (String × Cron) :=
  [("@yearly", { daily with daysOfMonth := [1], months := [1] }),
    ("@monthly", { daily with daysOfMonth := [1] }),
    ("@weekly", { daily with daysOfWeek := [1] }),
    ("@daily", daily),
    ("@hourly", { daily with hours := TimeUnit.hour.values })]

/-- The named expression that a text, its gaps aside, consists of. -/
def ofShorthand? (s : List Char) : Option Cron :=
  shorthands.findSome? fun (name, cron) =>
    if skipGap (skipGap s.reverse).reverse = name.toList then some cron else none

def ofChars? (s : List Char) : Option Cron :=
  ofShorthand? s <|> ofFields? s

def parse? (s : String) : Option Cron :=
  ofChars? s.toList

end Cron

end BackgroundJobs
