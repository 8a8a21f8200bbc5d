/-!
# Uuid — 128-bit identifiers and their text

An identifier is written as 32 lower-case hexadecimal digits in groups of
8, 4, 4, 4 and 12. It is read in either case from that form, from the bare
digits, from the grouped form in braces, and from the grouped form behind
`urn:uuid:`.
-/

namespace BackgroundJobs

/-- A 128-bit identifier. Identifiers are ordered as numbers. -/
structure Uuid where
  bits : BitVec 128
  deriving DecidableEq, Inhabited

namespace Uuid

instance : LT Uuid := ⟨fun a b => a.bits < b.bits⟩

instance : LE Uuid := ⟨fun a b => a.bits ≤ b.bits⟩

instance (a b : Uuid) : Decidable (a < b) := inferInstanceAs (Decidable (a.bits < b.bits))

instance (a b : Uuid) : Decidable (a ≤ b) := inferInstanceAs (Decidable (a.bits ≤ b.bits))

-- ---------------------------------------------------------------------------
-- Reading
-- ---------------------------------------------------------------------------

/-- The value of a hexadecimal digit of either case. -/
def hexValue? (c : Char) : Option Nat :=
  if '0' ≤ c ∧ c ≤ '9' then some (c.toNat - '0'.toNat)
  else if 'a' ≤ c ∧ c ≤ 'f' then some (c.toNat - 'a'.toNat + 10)
  else if 'A' ≤ c ∧ c ≤ 'F' then some (c.toNat - 'A'.toNat + 10)
  else none

/-- The identifier of exactly 32 hexadecimal digits. -/
def ofDigits? (s : List Char) : Option Uuid := do
  let values ← s.mapM hexValue?
  if values.length = 32 then
    some ⟨BitVec.ofNat 128 (values.foldl (fun n d => 16 * n + d) 0)⟩
  else none

/-- Cuts a text into groups of the given lengths with a hyphen between two of them. -/
def ungroup? : List Nat → List Char → Option (List Char)
  | [], s => if s.isEmpty then some [] else none
  | [n], s => if s.length = n then some s else none
  | n :: rest, s =>
    if n ≤ s.length then
      match s.drop n with
      | '-' :: tail => (ungroup? rest tail).map (s.take n ++ ·)
      | _ => none
    else none

def groups : List Nat := [8, 4, 4, 4, 12]

/-- The identifier of a text in hyphenated groups. -/
def ofGrouped? (s : List Char) : Option Uuid :=
  (ungroup? groups s).bind ofDigits?

def ofChars? (s : List Char) : Option Uuid :=
  match s.length with
  | 32 => ofDigits? s
  | 36 => ofGrouped? s
  | 38 =>
    if s.head? = some '\x7b' ∧ s.getLast? = some '\x7d' then ofGrouped? s.tail.dropLast else none
  | 45 => if (s.take 9).map Char.toLower = "urn:uuid:".toList then ofGrouped? (s.drop 9) else none
  | _ => none

def parse? (s : String) : Option Uuid :=
  ofChars? s.toList

-- ---------------------------------------------------------------------------
-- Writing
-- ---------------------------------------------------------------------------

/-- The `width` low hexadecimal digits of a number, most significant first. -/
def hexDigits : Nat → Nat → List Char
  | 0, _ => []
  | width + 1, n => hexDigits width (n / 16) ++ [Nat.digitChar (n % 16)]

/-- Joins groups of the given lengths by hyphens. -/
def group : List Nat → List Char → List Char
  | [], _ => []
  | [_], s => s
  | n :: rest, s => s.take n ++ '-' :: group rest (s.drop n)

/-- The lower-case text of an identifier, in hyphenated groups. -/
def toChars (u : Uuid) : List Char :=
  group groups (hexDigits 32 u.bits.toNat)

/-- The lower-case text of an identifier, in hyphenated groups. -/
def text (u : Uuid) : String :=
  String.ofList u.toChars

instance : ToString Uuid := ⟨text⟩

-- ---------------------------------------------------------------------------
-- Time-ordered identifiers
-- ---------------------------------------------------------------------------

/-- The time-ordered identifier (version 7) of a moment in milliseconds and a serial number:
48 bits of time, then 74 bits of the serial around the version and variant marks. -/
def timeOrdered (millis serial : Nat) : Uuid :=
  let time := millis % 0x1000000000000
  let high := serial / 0x4000000000000000 % 0x1000
  let low := serial % 0x4000000000000000
  ⟨BitVec.ofNat 128 (time <<< 80 + 7 <<< 76 + high <<< 64 + 2 <<< 62 + low)⟩

/-- The version digit, which says how the identifier was made. -/
def version (u : Uuid) : Nat :=
  (u.bits.toNat >>> 76) % 16

def isTimeOrdered (u : Uuid) : Bool :=
  u.version = 7

end Uuid

end BackgroundJobs
