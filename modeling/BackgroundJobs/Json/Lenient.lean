import BackgroundJobs.Json.Decode

/-!
# Json — reading leniently

Documents written by hand leave out what is empty. These readers never fail:
what is missing, or of another kind, reads as the empty value of its kind.
-/

namespace BackgroundJobs.Json

/-- The value of a field, or `null`. -/
def field (j : Json) (name : String) : Json :=
  (j.field? name).getD .null

def text (j : Json) : String :=
  j.toStr?.getD ""

/-- The whole number, or 0. -/
def integer : Json → Int
  | .int i => i
  | _ => 0

/-- The whole number if it is positive, or 0. -/
def natural (j : Json) : Nat :=
  j.integer.toNat

def fraction (j : Json) : Float :=
  j.toFloat?.getD 0.0

/-- Is this the value `true`? -/
def isTrue (j : Json) : Bool :=
  j.toBool?.getD false

def items : Json → List Json
  | .arr items => items
  | _ => []

def fields : Json → List (String × Json)
  | .obj fields => fields
  | _ => []

/-- An element of the list, or `null`. -/
def item (j : Json) (i : Nat) : Json :=
  j.items[i]?.getD .null

def textAt (j : Json) (name : String) : String := (j.field name).text

def naturalAt (j : Json) (name : String) : Nat := (j.field name).natural

def itemsAt (j : Json) (name : String) : List Json := (j.field name).items

def textsAt (j : Json) (name : String) : List String := (j.itemsAt name).map text

end BackgroundJobs.Json
