import BackgroundJobs.Json.Basic
import BackgroundJobs.Number.Decimal
import BackgroundJobs.Text.Reader

/-!
# Json — the text of a value

The reader of JSON texts. A number without a fraction and an exponent that fits
64 bits is a whole number, and every other one is a binary fraction, minus zero
among them. Of two fields of one name the later one counts.
-/

namespace BackgroundJobs.Json

namespace Grammar

open Text (Reader)
open Text.Reader

def gap : Reader Unit := do
  let _ ← run fun c => c == ' ' || c == '\t' || c == '\n' || c == '\r'

/-- A character of the text, and the gap behind it. -/
def symbol (c : Char) : Reader Unit :=
  mark c <* gap

-- ---------------------------------------------------------------------------
-- Texts
-- ---------------------------------------------------------------------------

def hexDigit : Reader Nat := do
  let c ← char fun _ => true
  if '0' ≤ c ∧ c ≤ '9' then pure (c.toNat - '0'.toNat)
  else if 'a' ≤ c ∧ c ≤ 'f' then pure (c.toNat - 'a'.toNat + 10)
  else if 'A' ≤ c ∧ c ≤ 'F' then pure (c.toNat - 'A'.toNat + 10)
  else failure

/-- A number of four hexadecimal digits behind `\u`. -/
def codeUnit : Reader Nat := do
  word ['\\', 'u']
  let a ← hexDigit
  let b ← hexDigit
  let c ← hexDigit
  let d ← hexDigit
  pure (((a * 16 + b) * 16 + c) * 16 + d)

/-- A character given by its number, in two halves if it is beyond the first 65536. -/
def numbered : Reader Char := do
  let high ← codeUnit
  if 0xD800 ≤ high ∧ high < 0xDC00 then
    let low ← codeUnit
    guard (0xDC00 ≤ low ∧ low < 0xE000)
    pure (Char.ofNat (0x10000 + (high - 0xD800) * 0x400 + (low - 0xDC00)))
  else if high.isValidChar then pure (Char.ofNat high)
  else failure

/-- A character written with a backslash and a letter. -/
def escaped : Reader Char := do
  mark '\\'
  match ← char fun _ => true with
  | '"' => pure '"'
  | '\\' => pure '\\'
  | '/' => pure '/'
  | 'b' => pure '\x08'
  | 'f' => pure '\x0c'
  | 'n' => pure '\n'
  | 'r' => pure '\r'
  | 't' => pure '\t'
  | _ => failure

def piece : Reader (List Char) :=
  runOne (fun c => c != '"' && c != '\\' && 32 ≤ c.toNat) <|> (return [← escaped])
    <|> (return [← numbered])

def text : Reader String := do
  mark '"'
  let pieces ← many piece
  mark '"'
  gap
  pure (String.ofList pieces.flatten)

-- ---------------------------------------------------------------------------
-- Numbers
-- ---------------------------------------------------------------------------

def exponent : Reader Int := do
  mark 'e' <|> mark 'E'
  let negative ← (mark '-' *> pure true) <|> (mark '+' *> pure false) <|> pure false
  let n := Number.ofDigits (← runOne Number.isDigit)
  pure (if negative then -(n : Int) else n)

def number : Reader Json := do
  let negative ← (mark '-' *> pure true) <|> pure false
  let whole ← runOne Number.isDigit
  guard (whole.head? ≠ some '0' ∨ whole.length = 1)
  let fraction ← (mark '.' *> runOne Number.isDigit) <|> pure []
  let power ← maybe exponent
  gap
  let n := Number.ofDigits whole
  let fits := if negative then 0 < n && n ≤ 0x8000000000000000 else n < 0x10000000000000000
  if fraction.isEmpty && power.isNone && fits then
    pure (.int (if negative then -(n : Int) else n))
  else
    let magnitude :=
      Number.nearest (Number.ofDigits (whole ++ fraction)) (power.getD 0 - fraction.length)
    pure (.float (if negative then -magnitude else magnitude))

-- ---------------------------------------------------------------------------
-- Values
-- ---------------------------------------------------------------------------

/-- The elements of a list, or the fields of an object, between brackets. -/
def enclosedBy {α : Type} (opening closing : Char) (element : Reader α) : Reader (List α) := do
  symbol opening
  let elements ← sepBy element (symbol ',') <|> pure []
  symbol closing
  pure elements

/-- A value nested at most `depth` deep. -/
def value : Nat → Reader Json
  | 0 => failure
  | depth + 1 =>
    (Json.str <$> text)
    <|> number
    <|> (Json.object <$> enclosedBy '\x7b' '\x7d' (do
      let name ← text
      symbol ':'
      let j ← value depth
      pure (name, j)))
    <|> (Json.arr <$> enclosedBy '[' ']' (value depth))
    <|> (word "true".toList *> gap *> pure (.bool true))
    <|> (word "false".toList *> gap *> pure (.bool false))
    <|> (word "null".toList *> gap *> pure .null)

end Grammar

def parse? (s : String) : Option Json :=
  let cs := s.toList
  Text.Reader.readAll? (Grammar.gap *> Grammar.value cs.length) cs

end BackgroundJobs.Json
