import BackgroundJobs.Json.Basic

/-!
# Json — reading values

What a value must look like to be read as a number, a text, a list or a record.
A whole number is never read from a fraction, a fraction may be read from a
whole number, and a record may be written by field names or as the list of its
fields in declaration order. A dialect settles the details that differ between
the notations that values come from.
-/

namespace BackgroundJobs.Json

-- ---------------------------------------------------------------------------
-- Plain values
-- ---------------------------------------------------------------------------

def toBool? : Json → Option Bool
  | .bool b => some b
  | _ => none

def toStr? : Json → Option String
  | .str s => some s
  | _ => none

/-- A whole number within bounds, both included. -/
def toIntWithin? (lo hi : Int) : Json → Option Int
  | .int i => if lo ≤ i ∧ i ≤ hi then some i else none
  | _ => none

/-- A signed whole number of 64 bits. -/
def toInt64? (j : Json) : Option Int :=
  j.toIntWithin? (-0x8000000000000000) 0x7fffffffffffffff

/-- An unsigned whole number of the given width. -/
def toNatBits? (bits : Nat) (j : Json) : Option Nat :=
  (j.toIntWithin? 0 (Nat.pow 2 bits - 1 : Nat)).map Int.toNat

/-- A binary fraction; a whole number is rounded to the nearest one. -/
def toFloat? : Json → Option Float
  | .float x => some x
  | .int i => some (Float.ofInt i)
  | _ => none

/-- A list, every element of which `decode` reads. -/
def toListOf? {α : Type} (decode : Json → Option α) : Json → Option (List α)
  | .arr items => items.mapM decode
  | _ => none

/-- A dictionary, every value of which `decode` reads. -/
def toDictOf? {β : Type} (decode : Json → Option β) : Json → Option (Dict β)
  | .obj fields => do
    let entries ← fields.mapM fun e => (decode e.2).map (Prod.mk e.1)
    pure (Dict.ofList entries)
  | _ => none

/-- `null` reads as an absent value. -/
def toOptionOf? {α : Type} (decode : Json → Option α) : Json → Option (Option α)
  | .null => some none
  | j => (decode j).map some

-- ---------------------------------------------------------------------------
-- Records
-- ---------------------------------------------------------------------------

/-- The ways to write a record: by field names, or field after field. -/
inductive Layout where
  | named (fields : List (String × Json))
  | listed (rest : List Json)

/-- A reader of a record's fields in declaration order. -/
abbrev FieldReader := StateT Layout Option

namespace FieldReader

variable {α : Type}

/-- The next field as it was written, if it was. -/
def next? (name : String) : FieldReader (Option Json) := fun
  | .named fields => some (fields.lookup name, .named fields)
  | .listed (j :: rest) => some (some j, .listed rest)
  | .listed [] => some (none, .listed [])

def required (name : String) (decode : Json → Option α) : FieldReader α := do
  match ← next? name with
  | some j => liftM (decode j)
  | none => failure

/-- A field that has a default value. -/
def withDefault (name : String) (default : α) (decode : Json → Option α) : FieldReader α := do
  match ← next? name with
  | some j => liftM (decode j)
  | none => pure default

/-- A field that may be `null`, and may be left out where fields are named. -/
def optional (name : String) (decode : Json → Option α) : FieldReader (Option α) := fun
  | .named fields =>
    match fields.lookup name with
    | some j => (j.toOptionOf? decode).map (·, .named fields)
    | none => some (none, .named fields)
  | .listed (j :: rest) => (j.toOptionOf? decode).map (·, .listed rest)
  | .listed [] => none

end FieldReader

-- ---------------------------------------------------------------------------
-- Dialects
-- ---------------------------------------------------------------------------

/-- The details in which notations differ. -/
structure Dialect where
  /-- Does the value stand for the data of a case that has none? -/
  isNothing : Json → Bool
  /-- May the list of a record's fields go on after the last of them? -/
  allowsMore : Bool

namespace Dialect

/-- Only `null` is nothing, and a list must not hold more than the fields. -/
def strict : Dialect where
  isNothing
    | .null => true
    | _ => false
  allowsMore := false

/-- The name of a case without data: its name alone, or an object binding just it to nothing. -/
def caseName? (d : Dialect) : Json → Option String
  | .str s => some s
  | .obj [(s, j)] => if d.isNothing j then some s else none
  | _ => none

/-- Reads a record written either way. Named fields that the reader does not ask for are
skipped. -/
def record? {α : Type} (d : Dialect) (j : Json) (reader : FieldReader α) : Option α :=
  match j with
  | .obj fields => (reader (.named fields)).map (·.1)
  | .arr items => do
    let (a, rest) ← reader (.listed items)
    match rest with
    | .listed (_ :: _) => if d.allowsMore then some a else none
    | _ => some a
  | _ => none

end Dialect

/-- The name of a case without data, in the strict dialect. -/
def toCaseName? (j : Json) : Option String :=
  Dialect.strict.caseName? j

/-- Reads a record in the strict dialect. -/
def toRecord? {α : Type} (reader : FieldReader α) (j : Json) : Option α :=
  Dialect.strict.record? j reader

end BackgroundJobs.Json
