import BackgroundJobs.Dict

/-!
# Json — structured values

The values that job results, opaque arguments and stored records are made of.
Whole numbers and binary fractions are different values: `1` and `1.0` are
never the same, while `0.0` and `-0.0` are. Values are written with the fields of
an object in key order, and records with their fields as they are declared.
-/

namespace BackgroundJobs

/-- A structured value. The fields of an object built by `Json.object` are in key order. -/
inductive Json where
  | null
  | bool (b : Bool)
  | int (i : Int)
  | float (x : Float)
  | str (s : String)
  | arr (items : List Json)
  | obj (fields : List (String × Json))
  deriving Inhabited

namespace Json

/-- The object of a list of fields; of two fields with one name the later one counts. -/
def object (fields : List (String × Json)) : Json :=
  .obj (Dict.ofList fields).entries

/-- The object of a record: its fields, with different names, in the order of their declaration. -/
def record (fields : List (String × Json)) : Json :=
  .obj fields

/-- The value of a field, if this is an object that has it. -/
def field? (j : Json) (name : String) : Option Json :=
  match j with
  | .obj fields => fields.lookup name
  | _ => none

/-- `null` for an absent value. -/
def ofOption {α : Type} (encode : α → Json) : Option α → Json
  | none => .null
  | some a => encode a

def ofList {α : Type} (encode : α → Json) (l : List α) : Json :=
  .arr (l.map encode)

def ofDict {β : Type} (encode : β → Json) (d : Dict β) : Json :=
  .obj (d.mapValues encode).entries

/-- A number that may be too special for a document: those are written `null`. -/
def ofFloat (x : Float) : Json :=
  if x.isFinite then .float x else .null

mutual

/-- Equality as data: numbers compare within their kind, and floats by value. -/
def same : Json → Json → Bool
  | .null, .null => true
  | .bool a, .bool b => a == b
  | .int a, .int b => a == b
  | .float a, .float b => a == b
  | .str a, .str b => a == b
  | .arr a, .arr b => sameItems a b
  | .obj a, .obj b => sameFields a b
  | _, _ => false

def sameItems : List Json → List Json → Bool
  | [], [] => true
  | a :: as, b :: bs => same a b && sameItems as bs
  | _, _ => false

def sameFields : List (String × Json) → List (String × Json) → Bool
  | [], [] => true
  | (k, a) :: as, (l, b) :: bs => k == l && same a b && sameFields as bs
  | _, _ => false

end

instance : BEq Json := ⟨same⟩

end Json

end BackgroundJobs
