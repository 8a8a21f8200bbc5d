import BackgroundJobs.Json.Basic

/-!
# Toml — values

What can stand on the right of an equals sign: texts, numbers, truth values,
times, lists and inline tables.
-/

namespace BackgroundJobs.Toml

/-- How an inline table came about: written out in braces, or by dotted keys alone. Only the
latter may be extended. -/
inductive InlineOrigin where
  | braces
  | dotted
  deriving DecidableEq, Repr

/-- A value. A time is kept as it is written. -/
inductive Value where
  | str (s : String)
  | int (i : Int)
  | float (x : Float)
  | bool (b : Bool)
  | time (text : String)
  | array (items : List Value)
  | inline (origin : InlineOrigin) (fields : List (String × Value))
  deriving Inhabited

/-- The name under which a time is kept in structured form. No field of a record has it. -/
def timeKey : String := "$time"

mutual

def Value.toJson : Value → Json
  | .str s => .str s
  | .int i => .int i
  | .float x => .float x
  | .bool b => .bool b
  | .time text => .object [(timeKey, .str text)]
  | .array items => .arr (itemsToJson items)
  | .inline _ fields => .object (fieldsToJson fields)

/-- The elements of a list in structured form. -/
def itemsToJson : List Value → List Json
  | [] => []
  | v :: rest => v.toJson :: itemsToJson rest

/-- The fields of an inline table in structured form. -/
def fieldsToJson : List (String × Value) → List (String × Json)
  | [] => []
  | (k, v) :: rest => (k, v.toJson) :: fieldsToJson rest

end

/-- The fields with one more, whose key is a path of names: all but the last of them name
tables made by dotted keys. A name must not be bound twice, and nothing is added to a table that
was written out. -/
def addField : List String → Value → List (String × Value) → Option (List (String × Value))
  | [], _, _ => none
  | [name], v, fields =>
    if (fields.lookup name).isSome then none else some (fields ++ [(name, v)])
  | name :: path, v, fields =>
    match fields.lookup name with
    | none => (addField path v []).map fun inner => fields ++ [(name, .inline .dotted inner)]
    | some (.inline .dotted inner) => do
      let inner ← addField path v inner
      pure (fields.map fun f => if f.1 == name then (name, .inline .dotted inner) else f)
    | some _ => none

end BackgroundJobs.Toml
