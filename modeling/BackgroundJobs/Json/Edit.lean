import BackgroundJobs.Json.Basic

/-!
# Json — editing values

Changing the texts inside of a value, and the fields of given names, wherever
they stand.
-/

namespace BackgroundJobs.Json

mutual

/-- The value with every text in it passed through `f`. The names of fields stay. -/
def mapTexts (f : String → String) : Json → Json
  | .str s => .str (f s)
  | .arr items => .arr (mapTextsItems f items)
  | .obj fields => .obj (mapTextsFields f fields)
  | j => j

/-- `mapTexts` on the elements of a list. -/
def mapTextsItems (f : String → String) : List Json → List Json
  | [] => []
  | j :: rest => mapTexts f j :: mapTextsItems f rest

/-- `mapTexts` on the fields of an object. -/
def mapTextsFields (f : String → String) : List (String × Json) → List (String × Json)
  | [] => []
  | (k, j) :: rest => (k, mapTexts f j) :: mapTextsFields f rest

end

mutual

/-- The value with the field values of the selected names passed through `f`, the outermost ones
where they stand inside of each other. -/
def mapFields (select : String → Bool) (f : Json → Json) : Json → Json
  | .arr items => .arr (mapFieldsItems select f items)
  | .obj fields => .obj (mapFieldsFields select f fields)
  | j => j

/-- `mapFields` on the elements of a list. -/
def mapFieldsItems (select : String → Bool) (f : Json → Json) : List Json → List Json
  | [] => []
  | j :: rest => mapFields select f j :: mapFieldsItems select f rest

/-- `mapFields` on the fields of an object. -/
def mapFieldsFields (select : String → Bool) (f : Json → Json) :
    List (String × Json) → List (String × Json)
  | [] => []
  | (k, j) :: rest =>
    (k, if select k then f j else mapFields select f j) :: mapFieldsFields select f rest

end

/-- The value with another text for all the field values of the given names that are there. -/
def mask (names : List String) (text : String) : Json → Json :=
  mapFields names.contains fun
    | .null => .null
    | _ => .str text

end BackgroundJobs.Json
