import BackgroundJobs.Json.Decode
import BackgroundJobs.Toml.Value

/-!
# Toml — documents

A document is a tree of tables, put together line by line: a header opens a
table or one more element of a list of tables, and a key with its value goes
into the table that was opened last. No table is opened twice, and a table
made by dotted keys is never opened by a header nor the other way round.
-/

namespace BackgroundJobs.Toml

/-- How a table came about: opened by its own header, implied by the header of a table inside it,
or implied by dotted keys. -/
inductive TableOrigin where
  | header
  | path
  | dotted
  deriving DecidableEq, Repr

/-- A part of a document: a value, a table, or a list of tables, the last one first. -/
inductive Node where
  | value (v : Value)
  | table (origin : TableOrigin) (fields : List (String × Node))
  | tables (elements : List (List (String × Node)))
  deriving Inhabited

abbrev Fields := List (String × Node)

/-- The fields with one of them bound anew, or added. -/
def Fields.bind (fields : Fields) (name : String) (node : Node) : Fields :=
  if (fields.lookup name).isSome then
    fields.map fun f => if f.1 == name then (name, node) else f
  else fields ++ [(name, node)]

/-- Changes the table that a path of names leads to from the given fields. Missing tables on the
way are implied by the path, and a list of tables is entered at its last element. -/
def Fields.inside (change : Fields → Option Fields) : List String → Fields → Option Fields
  | [], fields => change fields
  | name :: path, fields =>
    match fields.lookup name with
    | none => do
      let inner ← inside change path []
      pure (fields.bind name (.table .path inner))
    | some (.table origin inner) => do
      let inner ← inside change path inner
      pure (fields.bind name (.table origin inner))
    | some (.tables (last :: earlier)) => do
      let last ← inside change path last
      pure (fields.bind name (.tables (last :: earlier)))
    | some (.tables []) => none
    | some (.value _) => none

def Fields.addKey (v : Value) : List String → Fields → Option Fields
  | [], _ => none
  | [name], fields =>
    if (fields.lookup name).isSome then none else some (fields.bind name (.value v))
  | name :: path, fields =>
    match fields.lookup name with
    | none => do
      let inner ← addKey v path []
      pure (fields.bind name (.table .dotted inner))
    | some (.table .dotted inner) => do
      let inner ← addKey v path inner
      pure (fields.bind name (.table .dotted inner))
    | some (.table .path inner) => do
      -- Only a longer key may pass through what a header implied.
      guard (path.length ≠ 1)
      let inner ← addKey v path inner
      pure (fields.bind name (.table .path inner))
    | some (.tables (last :: earlier)) => do
      guard (path.length ≠ 1)
      let last ← addKey v path last
      pure (fields.bind name (.tables (last :: earlier)))
    | some _ => none

def Fields.openTable (name : String) (fields : Fields) : Option Fields :=
  match fields.lookup name with
  | none => some (fields.bind name (.table .header []))
  | some (.table .path inner) => some (fields.bind name (.table .header inner))
  | some _ => none

/-- Opens one more element of a list of tables. -/
def Fields.openElement (name : String) (fields : Fields) : Option Fields :=
  match fields.lookup name with
  | none => some (fields.bind name (.tables [[]]))
  | some (.tables elements) => some (fields.bind name (.tables ([] :: elements)))
  | some _ => none

/-- One line of a document that says something. -/
inductive Line where
  | field (key : List String) (v : Value)
  | table (header : List String)
  | element (header : List String)
  deriving Inhabited

/-- A document in the making: its fields, and the path of the table opened last. -/
structure Document where
  fields : Fields := []
  current : List String := []

namespace Document

def add (d : Document) : Line → Option Document
  | .field key v => do
    let fields ← d.fields.inside (Fields.addKey v key) d.current
    pure { d with fields }
  | .table header => do
    let fields ← d.fields.inside (Fields.openTable (header.getLastD "")) header.dropLast
    pure ⟨fields, header⟩
  | .element header => do
    let fields ← d.fields.inside (Fields.openElement (header.getLastD "")) header.dropLast
    pure ⟨fields, header⟩

def ofLines (lines : List Line) : Option Document :=
  lines.foldlM add {}

end Document

mutual

/-- A part of a document in structured form. -/
def Node.toJson : Node → Json
  | .value v => v.toJson
  | .table _ fields => .object (nodesToJson fields)
  | .tables elements => .arr (elementsToJson elements [])

/-- The fields of a table in structured form. -/
def nodesToJson : List (String × Node) → List (String × Json)
  | [] => []
  | (k, n) :: rest => (k, n.toJson) :: nodesToJson rest

/-- The elements of a list of tables in structured form, in front of the given later ones. -/
def elementsToJson : List (List (String × Node)) → List Json → List Json
  | [], later => later
  | fields :: earlier, later => elementsToJson earlier (.object (nodesToJson fields) :: later)

end

def Document.toJson (d : Document) : Json :=
  .object (nodesToJson d.fields)

/-- How documents are read. They know no `null`, so that an empty list or table is nothing, and
what a list holds beyond the fields of a record is skipped. -/
def dialect : Json.Dialect where
  isNothing
    | .arr [] | .obj [] => true
    | _ => false
  allowsMore := true

end BackgroundJobs.Toml
