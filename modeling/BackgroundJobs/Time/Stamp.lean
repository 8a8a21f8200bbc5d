import BackgroundJobs.Number.Decimal
import BackgroundJobs.Text.Blank
import BackgroundJobs.Time.Instant

/-!
# Time — date-time stamps

An instant is written in universal time, as `2024-05-01T12:00:00.250Z`: the
fraction has 0, 3, 6 or 9 digits, the fewest that are exact, and years beyond
four digits carry their sign. A stamp is read with any offset from universal
time; blanks may stand before its numbers, and numbers may be short.
-/

namespace BackgroundJobs

namespace Stamp

-- ---------------------------------------------------------------------------
-- Writing
-- ---------------------------------------------------------------------------

/-- A year of up to four digits stands plain, any other one with its sign. -/
def yearText (year : Int) : List Char :=
  if 0 ≤ year ∧ year ≤ 9999 then Number.padded 4 year.toNat
  else (if year < 0 then '-' else '+') :: Number.padded 4 year.natAbs

/-- The fraction of a second, with the fewest digits of 0, 3, 6 and 9 that are exact. -/
def fractionText (nano : Nat) : List Char :=
  if nano = 0 then []
  else if nano % 1000000 = 0 then '.' :: Number.padded 3 (nano / 1000000)
  else if nano % 1000 = 0 then '.' :: Number.padded 6 (nano / 1000)
  else '.' :: Number.padded 9 nano

/-- The stamp of a date and a time of day. -/
def chars (t : DateTime) : List Char :=
  yearText t.date.year ++ '-' :: Number.padded 2 t.date.month ++
    '-' :: Number.padded 2 t.date.day ++ 'T' :: Number.padded 2 t.hour ++
    ':' :: Number.padded 2 t.minute ++ ':' :: Number.padded 2 t.second ++
    fractionText t.nano ++ ['Z']

-- ---------------------------------------------------------------------------
-- Reading
-- ---------------------------------------------------------------------------

/-- A number of one up to `width` digits, and what follows it. -/
def number? (width : Nat) (s : List Char) : Option (Nat × List Char) :=
  let ds := (s.take width).takeWhile Number.isDigit
  if ds.isEmpty then none else some (Number.ofDigits ds, s.drop ds.length)

/-- The year: signed with any number of digits, or unsigned with up to four. -/
def year? (s : List Char) : Option (Int × List Char) :=
  match Text.trimStart s with
  | '-' :: rest => (number? rest.length rest).map fun (n, tail) => (-(n : Int), tail)
  | '+' :: rest => (number? rest.length rest).map fun (n, tail) => ((n : Int), tail)
  | rest => (number? 4 rest).map fun (n, tail) => ((n : Int), tail)

/-- A number of one or two digits, blanks before it skipped. -/
def pair? (s : List Char) : Option (Nat × List Char) :=
  number? 2 (Text.trimStart s)

/-- What follows the given character, blanks before it skipped. -/
def mark? (c : Char) (s : List Char) : Option (List Char) :=
  match Text.trimStart s with
  | d :: rest => if d = c then some rest else none
  | [] => none

/-- The fraction of a second, if there is one; digits beyond the ninth are dropped. -/
def fraction? : List Char → Option (Nat × List Char)
  | '.' :: rest => do
    let (n, tail) ← number? 9 rest
    pure (n * Nat.pow 10 (9 - (rest.length - tail.length)), tail.dropWhile Number.isDigit)
  | s => some (0, s)

/-- Two digits at the start of the text. -/
def twoDigits? : List Char → Option (Nat × List Char)
  | a :: b :: rest =>
    if Number.isDigit a && Number.isDigit b then some (Number.ofDigits [a, b], rest) else none
  | _ => none

/-- The offset from universal time in seconds: `Z`, `UTC`, or hours and minutes with a sign. -/
def offset? (s : List Char) : Option (Int × List Char) :=
  match Text.trimStart s with
  | c :: rest =>
    if ((c :: rest).take 3).map Char.toLower = "utc".toList then some (0, rest.drop 2)
    else if c = 'Z' ∨ c = 'z' then some (0, rest)
    else if c = '+' ∨ c = '-' ∨ c = '−' then do
      let (hours, tail) ← twoDigits? rest
      let (minutes, tail) ← twoDigits? (tail.dropWhile fun d => d = ':' || Text.isBlank d)
      guard (minutes < 60)
      let size : Int := hours * 3600 + minutes * 60
      guard (size < 86400)
      pure (if c = '+' then size else -size, tail)
    else none
  | [] => none

/-- The instant that a stamp denotes. Any minute may have a leap second. -/
def ofChars? (s : List Char) : Option Instant := do
  let (year, s) ← year? s
  let s ← mark? '-' s
  let (month, s) ← pair? s
  let s ← mark? '-' s
  let (day, s) ← pair? s
  let s ← match s with
    | c :: rest => if c = 'T' ∨ c = 't' ∨ c = ' ' then some rest else none
    | [] => none
  let (hour, s) ← pair? s
  let s ← mark? ':' s
  let (minute, s) ← pair? s
  let s ← mark? ':' s
  let (second, s) ← pair? s
  let (nano, s) ← fraction? s
  let (offset, s) ← offset? s
  guard (Text.trimStart s).isEmpty
  let date : Date := ⟨year, month, day⟩
  guard (date.isValid ∧ hour < 24 ∧ minute < 60 ∧ second ≤ 60)
  let t := (DateTime.mk date hour minute second nano).toInstant
  Instant.inRange? { t with seconds := t.seconds - offset }

end Stamp

namespace Instant

def text (t : Instant) : String :=
  String.ofList (Stamp.chars t.toDateTime)

def parse? (s : String) : Option Instant :=
  Stamp.ofChars? s.toList

def toJson (t : Instant) : Json := .str t.text

def ofJson? (j : Json) : Option Instant :=
  j.toStr?.bind parse?

end Instant

end BackgroundJobs
