import BackgroundJobs.Number.Decimal
import BackgroundJobs.Text.Reader
import BackgroundJobs.Time.Calendar
import BackgroundJobs.Toml.Document

/-!
# Toml — the text of a document

The reader of TOML 1.0 documents. Lists and inline tables are nested less than
80 deep, and a dotted key has fewer than 80 parts.
-/

namespace BackgroundJobs.Toml

open Text (Reader)
open Text.Reader

/-- Nesting stays below this depth. -/
def nestingLimit : Nat := 80

-- ---------------------------------------------------------------------------
-- Blanks, comments and line ends
-- ---------------------------------------------------------------------------

def isGap (c : Char) : Bool :=
  c == ' ' || c == '\t'

/-- A character that may stand in a text or a comment: all but the control characters, of which
only the tab is allowed. -/
def isPlain (c : Char) : Bool :=
  c == '\t' || (0x20 ≤ c.toNat && c.toNat ≠ 0x7F)

def gap : Reader Unit := do
  let _ ← run isGap

def newline : Reader Unit :=
  mark '\n' <|> word ['\r', '\n']

/-- A comment up to the end of its line. -/
def comment : Reader Unit := do
  mark '#'
  let _ ← run isPlain

/-- What may follow the last value of a line. -/
def lineEnd : Reader Unit := do
  gap
  let _ ← maybe comment
  newline <|> atEnd

/-- Blanks, comments and line ends between the elements of a list. -/
def spread : Reader Unit := do
  let _ ← many ((do let _ ← runOne isGap) <|> newline <|> (comment *> newline))

-- ---------------------------------------------------------------------------
-- Texts
-- ---------------------------------------------------------------------------

def hexValue? (c : Char) : Option Nat :=
  if '0' ≤ c ∧ c ≤ '9' then some (c.toNat - '0'.toNat)
  else if 'a' ≤ c ∧ c ≤ 'f' then some (c.toNat - 'a'.toNat + 10)
  else if 'A' ≤ c ∧ c ≤ 'F' then some (c.toNat - 'A'.toNat + 10)
  else none

/-- The character whose number stands in so many hexadecimal digits. -/
def codePoint (width : Nat) : Reader Char := do
  let s ← rest
  let ds := s.take width
  set (s.drop width)
  guard (ds.length = width)
  let values ← liftM (ds.mapM hexValue?)
  let n := values.foldl (fun n d => 16 * n + d) 0
  if n.isValidChar then pure (Char.ofNat n) else failure

def escape : Reader Char := do
  mark '\\'
  match ← char fun _ => true with
  | 'b' => pure '\x08'
  | 't' => pure '\t'
  | 'n' => pure '\n'
  | 'f' => pure '\x0c'
  | 'r' => pure '\r'
  | '"' => pure '"'
  | '\\' => pure '\\'
  | 'u' => codePoint 4
  | 'U' => codePoint 8
  | _ => failure

/-- A text on one line in double quotes. -/
def basicText : Reader (List Char) := do
  mark '"'
  let cs ← many (escape <|> char fun c => isPlain c && c != '"' && c != '\\')
  mark '"'
  pure cs

/-- A text on one line in single quotes, taken as it stands. -/
def literalText : Reader (List Char) := do
  mark '\''
  let cs ← run fun c => isPlain c && c != '\''
  mark '\''
  pure cs

/-- Three to five quotes, which end a text over several lines; those beyond the third belong to
the text. -/
def closing (quote : Char) : Reader (List Char) := do
  let s ← rest
  let n := min 5 (s.takeWhile (· == quote)).length
  guard (3 ≤ n)
  set (s.drop n)
  pure (List.replicate (n - 3) quote)

/-- One or two quotes inside a text over several lines. -/
def innerQuote (quote : Char) : Reader (List Char) := do
  let s ← rest
  guard ((s.takeWhile (· == quote)).length < 3)
  mark quote
  pure [quote]

/-- A backslash at the end of a line, and all blanks and line ends after it. -/
def foldedLines : Reader (List Char) := do
  mark '\\'
  gap
  newline
  let _ ← many ((do let _ ← runOne isGap) <|> newline)
  pure []

/-- A text over several lines, made of the given pieces, between triple quotes. A line end right
behind the opening quotes does not count, and every other one counts as a line feed. -/
def longText (quote : Char) (piece : Reader (List Char)) : Reader (List Char) := do
  word [quote, quote, quote]
  let _ ← maybe newline
  let pieces ← many (piece <|> (newline *> pure ['\n']) <|> innerQuote quote)
  pure (pieces.flatten ++ (← closing quote))

/-- A text over several lines in double quotes. -/
def longBasicText : Reader (List Char) :=
  longText '"' (foldedLines <|> (return [← escape]) <|>
    runOne fun c => isPlain c && c != '"' && c != '\\')

/-- A text over several lines in single quotes. -/
def longLiteralText : Reader (List Char) :=
  longText '\'' (runOne fun c => isPlain c && c != '\'')

/-- A text in any kind of quotes. -/
def text : Reader String := do
  pure (String.ofList (← longBasicText <|> longLiteralText <|> basicText <|> literalText))

-- ---------------------------------------------------------------------------
-- Keys
-- ---------------------------------------------------------------------------

/-- May the character stand in a name without quotes? -/
def isBare (c : Char) : Bool :=
  ('a' ≤ c && c ≤ 'z') || ('A' ≤ c && c ≤ 'Z') || Number.isDigit c || c == '_' || c == '-'

def keyPart : Reader String := do
  pure (String.ofList (← basicText <|> literalText <|> runOne isBare))

def key : Reader (List String) := do
  let parts ← sepBy (gap *> keyPart <* gap) (mark '.')
  guard (parts.length < nestingLimit)
  pure parts

-- ---------------------------------------------------------------------------
-- Numbers
-- ---------------------------------------------------------------------------

/-- Digits that `ok` holds of, with single underscores between them. -/
def grouped (ok : Char → Bool) : Reader (List Char) :=
  List.flatten <$> sepBy (runOne ok) (mark '_')

/-- The sign of a number: true if it is below zero. -/
def sign : Reader Bool :=
  (mark '-' *> pure true) <|> (mark '+' *> pure false) <|> pure false

/-- The whole part of a decimal number. It has no leading zero, but may be zero. -/
def wholePart : Reader (List Char) := do
  let ds ← grouped Number.isDigit
  guard (ds.head? ≠ some '0' ∨ ds.length = 1)
  pure ds

/-- A whole number within 64 bits. -/
def bounded (i : Int) : Reader Value :=
  if -0x8000000000000000 ≤ i ∧ i < 0x8000000000000000 then pure (.int i) else failure

/-- A whole number in the base that its lead announces. -/
def radixInt : Reader Value := do
  let based (lead : Char) (base : Nat) : Reader Value := do
    word ['0', lead]
    let ds ← grouped fun c => (hexValue? c).any (· < base)
    let values ← liftM (ds.mapM hexValue?)
    bounded (values.foldl (fun n d => base * n + d) 0 : Nat)
  based 'x' 16 <|> based 'o' 8 <|> based 'b' 2

/-- A whole number in decimal. -/
def decimalInt : Reader Value := do
  let negative ← sign
  let n := Number.ofDigits (← wholePart)
  bounded (if negative then -(n : Int) else n)

def exponent : Reader Int := do
  mark 'e' <|> mark 'E'
  let negative ← sign
  let n := Number.ofDigits (← grouped Number.isDigit)
  pure (if negative then -(n : Int) else n)

/-- A number with a fraction or an exponent, which must not be too large. -/
def decimalFloat : Reader Value := do
  let negative ← sign
  let whole ← wholePart
  let fraction ← (mark '.' *> grouped Number.isDigit) <|> pure []
  let power ← maybe exponent
  guard (!fraction.isEmpty || power.isSome)
  let magnitude :=
    Number.nearest (Number.ofDigits (whole ++ fraction)) (power.getD 0 - fraction.length)
  guard (magnitude.isFinite || negative)
  pure (.float (if negative then -magnitude else magnitude))

def specialFloat : Reader Value := do
  let negative ← sign
  let x ← (word "inf".toList *> pure (1.0 / 0.0 : Float)) <|>
    (word "nan".toList *> pure (0.0 / 0.0 : Float))
  pure (.float (if negative then -x else x))

-- ---------------------------------------------------------------------------
-- Times
-- ---------------------------------------------------------------------------

/-- A number of exactly so many digits. -/
def digits (width : Nat) : Reader Nat := do
  let s ← rest
  let ds := s.take width
  set (s.drop width)
  guard (ds.length = width)
  liftM (Number.read? ds)

def date : Reader Unit := do
  let year ← digits 4
  mark '-'
  let month ← digits 2
  mark '-'
  let day ← digits 2
  guard (Date.mk year month day).isValid

def timeOfDay : Reader Unit := do
  let hour ← digits 2
  mark ':'
  let minute ← digits 2
  mark ':'
  let second ← digits 2
  guard (hour < 24 ∧ minute < 60 ∧ second ≤ 60)
  let _ ← maybe (mark '.' *> runOne Number.isDigit)

/-- The offset of a time from universal time. -/
def offset : Reader Unit :=
  mark 'Z' <|> mark 'z' <|> do
    mark '+' <|> mark '-'
    let hour ← digits 2
    mark ':'
    let minute ← digits 2
    guard (hour < 24 ∧ minute < 60)

/-- A date, a time of day, or both, in which case there may be an offset. -/
def time : Reader Value := do
  let before ← rest
  (do
    date
    let _ ← maybe ((mark 'T' <|> mark 't' <|> mark ' ') *> timeOfDay <* maybe offset)) <|> timeOfDay
  let after ← rest
  pure (.time (String.ofList (before.take (before.length - after.length))))

-- ---------------------------------------------------------------------------
-- Values
-- ---------------------------------------------------------------------------

def scalar : Reader Value :=
  (Value.str <$> text) <|> (word "true".toList *> pure (.bool true)) <|>
    (word "false".toList *> pure (.bool false)) <|> time <|> specialFloat <|> decimalFloat <|>
    radixInt <|> decimalInt

/-- The fields of an inline table in the order of their keys in the text. -/
def fieldsOf (entries : List (List String × Value)) : Option (List (String × Value)) :=
  entries.foldlM (fun fields e => addField e.1 e.2 fields) []

/-- A list of values. The last one may have a comma behind it. -/
def arrayOf (value : Reader Value) : Reader Value := do
  mark '['
  let items ← sepBy (spread *> value <* spread) (mark ',') <|> pure []
  if !items.isEmpty then
    let _ ← maybe (mark ',')
  spread
  mark ']'
  pure (.array items)

/-- An inline table with values of the given kind. -/
def inlineOf (value : Reader Value) : Reader Value := do
  mark '\x7b'
  gap
  let entry : Reader (List String × Value) := do
    let k ← key
    mark '='
    gap
    let v ← value
    gap
    pure (k, v)
  let entries ← sepBy entry (mark ',') <|> pure []
  gap
  mark '\x7d'
  let fields ← liftM (fieldsOf entries)
  pure (.inline .braces fields)

/-- A value nested at most `depth` deep. -/
def value : Nat → Reader Value
  | 0 => scalar
  | depth + 1 => arrayOf (value depth) <|> inlineOf (value depth) <|> scalar

-- ---------------------------------------------------------------------------
-- Lines
-- ---------------------------------------------------------------------------

def fieldLine : Reader Line := do
  let k ← key
  mark '='
  gap
  let v ← value (nestingLimit - 1)
  lineEnd
  pure (.field k v)

def tableLine : Reader Line := do
  mark '['
  let k ← key
  mark ']'
  lineEnd
  pure (.table k)

/-- The header of an element of a list of tables. -/
def elementLine : Reader Line := do
  word ['[', '[']
  let k ← key
  word [']', ']']
  lineEnd
  pure (.element k)

def line : Reader (Option Line) := do
  gap
  (some <$> elementLine) <|> (some <$> tableLine) <|> (some <$> fieldLine) <|>
    (comment *> (newline <|> atEnd) *> pure none) <|> (newline *> pure none)

/-- The lines of a document; a byte order mark in front of them does not count. -/
def lines : Reader (List Line) := do
  let _ ← maybe (mark '\uFEFF')
  let all ← many line
  gap
  atEnd
  pure (all.filterMap id)

def Document.parse? (s : String) : Option Document :=
  (readAll? lines s.toList).bind Document.ofLines

end BackgroundJobs.Toml
