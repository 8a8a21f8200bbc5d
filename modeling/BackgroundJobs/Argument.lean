import BackgroundJobs.Json.Decode

/-!
# Argument — the typed values a job run is given

A run carries a bag of named arguments. Every argument has one of six kinds,
and a definition asks for the kind it expects. An argument is stored as its
kind and its value, so that a `null`, an opaque `null` and an absent argument
stay apart.
-/

namespace BackgroundJobs

/-- A typed value. `json` is an opaque structured payload. -/
inductive Argument where
  | null
  | bool (b : Bool)
  | int (i : Int)
  | float (x : Float)
  | str (s : String)
  | json (j : Json)
  deriving Inhabited

namespace Argument

/-- The kind of an argument, as messages name it. -/
def kindName : Argument → String
  | .null => "null"
  | .bool _ => "bool"
  | .int _ => "int"
  | .float _ => "float"
  | .str _ => "string"
  | .json _ => "json"

/-- The bare value of an argument, its kind forgotten. -/
def value : Argument → Json
  | .null => .null
  | .bool b => .bool b
  | .int i => .int i
  | .float x => Json.ofFloat x
  | .str s => .str s
  | .json j => j

/-- Equality as data: equal kinds with equal values. -/
def same : Argument → Argument → Bool
  | .null, .null => true
  | .bool a, .bool b => a == b
  | .int a, .int b => a == b
  | .float a, .float b => a == b
  | .str a, .str b => a == b
  | .json a, .json b => a.same b
  | _, _ => false

instance : BEq Argument := ⟨same⟩

/-- The name of a kind in stored form. -/
def tag : Argument → String
  | .str _ => "str"
  | a => a.kindName

/-- The stored form: the kind, and for all but `null` the value. -/
def toJson (a : Argument) : Json :=
  match a with
  | .null => .record [("type", .str a.tag)]
  | _ => .record [("type", .str a.tag), ("value", a.value)]

/-- The argument of a stored kind and value; only `null` may come without one. -/
def ofTagged? (tag : String) (content : Option Json) : Option Argument :=
  match tag, content with
  | "null", none => some .null
  | "null", some .null => some .null
  | "bool", some j => j.toBool?.map .bool
  | "int", some j => j.toInt64?.map .int
  | "float", some j => j.toFloat?.map .float
  | "str", some j => j.toStr?.map .str
  | "json", some j => some (.json j)
  | _, _ => none

/-- Reads the stored form, also when it is written as the pair of kind and value. -/
def ofJson? : Json → Option Argument
  | .obj fields => do
    let tag ← (← fields.lookup "type").toCaseName?
    ofTagged? tag (fields.lookup "value")
  | .arr [tag, content] => do ofTagged? (← tag.toCaseName?) (some content)
  | _ => none

end Argument

/-- Why an argument could not be had in the wanted form. -/
inductive ArgumentError where
  | missing (key : String)
  | wrongType (key expected found : String)
  | undecodable (key : String)
  deriving DecidableEq

def ArgumentError.message : ArgumentError → String
  | .missing key => "missing required argument `" ++ key ++ "`"
  | .wrongType key expected found =>
    "argument `" ++ key ++ "` has type " ++ found ++ ", expected " ++ expected
  | .undecodable key => "argument `" ++ key ++ "` could not be decoded"

abbrev Arguments := Dict Argument

/-- Free-form text attached to a run, by name. -/
abbrev Metadata := Dict String

/-- The metadata entry that names the entity owning a run. -/
def ownerKey : String := "owner"

/-- The metadata entry that holds the least severe level a run may log at. -/
def logLevelKey : String := "log_level"

namespace Arguments

def same (a b : Arguments) : Bool :=
  a.sameBy Argument.same b

def require (args : Arguments) (key : String) : Except ArgumentError Argument :=
  match args.get? key with
  | some a => .ok a
  | none => .error (.missing key)

def getStr (args : Arguments) (key : String) : Except ArgumentError String := do
  match ← args.require key with
  | .str s => pure s
  | other => throw (.wrongType key "string" other.kindName)

/-- A text that may be absent, which `null` counts as. -/
def getStr? (args : Arguments) (key : String) : Except ArgumentError (Option String) :=
  match args.get? key with
  | none => .ok none
  | some .null => .ok none
  | some (.str s) => .ok (some s)
  | some other => .error (.wrongType key "string" other.kindName)

def getInt (args : Arguments) (key : String) : Except ArgumentError Int := do
  match ← args.require key with
  | .int i => pure i
  | other => throw (.wrongType key "int" other.kindName)

/-- A binary fraction; a whole number is widened. -/
def getFloat (args : Arguments) (key : String) : Except ArgumentError Float := do
  match ← args.require key with
  | .float x => pure x
  | .int i => pure (Float.ofInt i)
  | other => throw (.wrongType key "float" other.kindName)

def getBool (args : Arguments) (key : String) : Except ArgumentError Bool := do
  match ← args.require key with
  | .bool b => pure b
  | other => throw (.wrongType key "bool" other.kindName)

def getJson (args : Arguments) (key : String) : Except ArgumentError Json := do
  match ← args.require key with
  | .json j => pure j
  | other => throw (.wrongType key "json" other.kindName)

/-- Any argument whose bare value `decode` reads. -/
def getAs {α : Type} (args : Arguments) (key : String) (decode : Json → Option α) :
    Except ArgumentError α := do
  match decode (← args.require key).value with
  | some a => pure a
  | none => throw (.undecodable key)

def toJson (args : Arguments) : Json :=
  Json.ofDict Argument.toJson args

def ofJson? (j : Json) : Option Arguments :=
  j.toDictOf? Argument.ofJson?

end Arguments

namespace Metadata

def toJson (m : Metadata) : Json :=
  Json.ofDict .str m

def ofJson? (j : Json) : Option Metadata :=
  j.toDictOf? Json.toStr?

end Metadata

end BackgroundJobs
