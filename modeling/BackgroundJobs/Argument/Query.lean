import BackgroundJobs.Argument

/-!
# Argument — queries

The ways in which a definition can ask for one of its arguments, as data, with
the answers in structured form.
-/

namespace BackgroundJobs

/-- What an argument is read as. -/
inductive Reading where
  | str
  | optStr
  | int
  | float
  | bool
  | json
  /-- Whether the argument is there. -/
  | presence
  /-- The argument in stored form. -/
  | stored
  | bytes
  | strList
  | strDict
  /-- The bare value as a whole number between two bounds. -/
  | boundedInt (least greatest : Int)
  | anyFloat
  | anyBool
  | anyStr
  | anyOptStr
  | anyValue
  deriving DecidableEq, Repr

/-- A question for one argument. -/
structure ArgumentQuery where
  key : String
  reading : Reading
  deriving DecidableEq, Repr

namespace Reading

def named : List (String × Reading) :=
  [("str", str), ("opt_str", optStr), ("i64", int), ("f64", float), ("bool", bool), ("json", json),
    ("contains", presence), ("raw", stored), ("as:bytes", bytes), ("as:strings", strList),
    ("as:strmap", strDict), ("as:i64", boundedInt (-0x8000000000000000) 0x7fffffffffffffff),
    ("as:u64", boundedInt 0 0xffffffffffffffff), ("as:u8", boundedInt 0 255), ("as:f64", anyFloat),
    ("as:bool", anyBool), ("as:string", anyStr), ("as:opt_string", anyOptStr),
    ("as:value", anyValue)]

end Reading

namespace ArgumentQuery

/-- The question that an object asks by the name of a reading and a key. -/
def ofJson? (j : Json) : Option ArgumentQuery := do
  let reading ← Reading.named.lookup (← (← j.field? "get").toStr?)
  pure ⟨((j.field? "key").bind Json.toStr?).getD "", reading⟩

def answer (q : ArgumentQuery) (args : Arguments) : Except ArgumentError Json :=
  match q.reading with
  | .str => (args.getStr q.key).map .str
  | .optStr => (args.getStr? q.key).map (Json.ofOption .str)
  | .int => (args.getInt q.key).map .int
  | .float => (args.getFloat q.key).map Json.ofFloat
  | .bool => (args.getBool q.key).map .bool
  | .json => args.getJson q.key
  | .presence => .ok (.bool (args.contains q.key))
  | .stored => .ok (Json.ofOption Argument.toJson (args.get? q.key))
  | .bytes =>
    (args.getAs q.key (Json.toListOf? (Json.toIntWithin? 0 255))).map (Json.ofList .int)
  | .strList => (args.getAs q.key (Json.toListOf? Json.toStr?)).map (Json.ofList .str)
  | .strDict => (args.getAs q.key (Json.toDictOf? Json.toStr?)).map (Json.ofDict .str)
  | .boundedInt least greatest => (args.getAs q.key (Json.toIntWithin? least greatest)).map .int
  | .anyFloat => (args.getAs q.key Json.toFloat?).map Json.ofFloat
  | .anyBool => (args.getAs q.key Json.toBool?).map .bool
  | .anyStr => (args.getAs q.key Json.toStr?).map .str
  | .anyOptStr =>
    (args.getAs q.key (Json.toOptionOf? Json.toStr?)).map (Json.ofOption .str)
  | .anyValue => args.getAs q.key some

end ArgumentQuery

end BackgroundJobs
