import BackgroundJobs.Number.Decimal

/-!
# Cron — the grammar of expressions

An expression is a shorthand such as `@daily`, or six or seven fields: second,
minute, hour, day of month, month, day of week and, optionally, year. A field
is a list of items separated by commas. Readers take the longest reading of the
first form that fits and do not come back to it.

```text
item  :=  range '/' number  |  range  |  name
range :=  '*'  |  number '-' number  |  number  |  name '-' name
```

`?` stands for `*` in the two day fields. Blanks may surround numbers and
names, and the fields need no blanks between them where none are needed.
-/

namespace BackgroundJobs.Cron

-- ---------------------------------------------------------------------------
-- Parsed fields
-- ---------------------------------------------------------------------------

/-- A range of values as it is written. -/
inductive Range where
  | every
  | single (n : Nat)
  | between (first last : Nat)
  | betweenNames (first last : String)
  deriving DecidableEq, Repr

/-- One item of a field: a range, every `step`-th value of a range, or a name. -/
inductive Item where
  | range (r : Range)
  | stepped (r : Range) (step : Nat)
  | named (name : String)
  deriving DecidableEq, Repr

abbrev Field := List Item

-- ---------------------------------------------------------------------------
-- Readers
-- ---------------------------------------------------------------------------

/-- Reads a value off the front of a text and returns what follows it. -/
abbrev Reader (α : Type) := List Char → Option (α × List Char)

def isGap (c : Char) : Bool :=
  c == ' ' || c == '\t' || c == '\n' || c == '\r'

/-- The text without the gap at its front. -/
def skipGap (s : List Char) : List Char :=
  s.dropWhile isGap

def mark? (c : Char) : List Char → Option (List Char)
  | d :: rest => if d = c then some rest else none
  | [] => none

/-- A run of digits denoting a number of 32 bits, in a gap. -/
def number : Reader Nat := fun s =>
  let s := skipGap s
  let ds := s.takeWhile Number.isDigit
  if ds.isEmpty then none
  else
    let n := Number.ofDigits ds
    if n < 0x100000000 then some (n, skipGap (s.drop ds.length)) else none

/-- Is the character one of `a` to `z` and `A` to `Z`? -/
def isLetter (c : Char) : Bool :=
  ('a' ≤ c && c ≤ 'z') || ('A' ≤ c && c ≤ 'Z')

def name : Reader String := fun s =>
  let s := skipGap s
  let cs := s.takeWhile isLetter
  if cs.isEmpty then none else some (String.ofList cs, skipGap (s.drop cs.length))

/-- A range; `anyMark` says whether `?` may stand for `*`. -/
def range (anyMark : Bool) : Reader Range := fun s =>
  (if anyMark then (mark? '?' s).map (Range.every, ·) else none)
  <|> (mark? '*' s).map (Range.every, ·)
  <|> (do
    let (a, s) ← number s
    let (b, s) ← number (← mark? '-' s)
    pure (.between a b, s))
  <|> (do
    let (n, s) ← number s
    pure (.single n, s))
  <|> (do
    let (a, s) ← name s
    let (b, s) ← name (← mark? '-' s)
    pure (.betweenNames a b, s))

def item (anyMark : Bool) : Reader Item := fun s =>
  (do
    let (r, s) ← range anyMark s
    let (step, s) ← number (← mark? '/' s)
    pure (.stepped r step, s))
  <|> (do
    let (r, s) ← range anyMark s
    pure (.range r, s))
  <|> (do
    let (n, s) ← name s
    pure (.named n, s))

/-- Further items, each behind a comma; a comma without one is left alone. At most `fuel` of
them, which the length of the text bounds. -/
def items (anyMark : Bool) : Nat → List Char → Field × List Char
  | 0, s => ([], s)
  | fuel + 1, s =>
    match (mark? ',' s).bind (item anyMark) with
    | some (i, rest) =>
      let (more, rest) := items anyMark fuel rest
      (i :: more, rest)
    | none => ([], s)

def field (anyMark : Bool) : Reader Field := fun s => do
  let (first, s) ← item anyMark (skipGap s)
  let (more, s) := items anyMark s.length s
  pure (first :: more, skipGap s)

end BackgroundJobs.Cron
