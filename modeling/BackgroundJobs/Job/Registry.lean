import BackgroundJobs.Job.Context

/-!
# Job — the registry of definitions

A closed set of job definitions, found by their keys. What a definition is made
of is left open.
-/

namespace BackgroundJobs

/-- The known definitions by key. -/
structure Registry (δ : Type) where
  definitions : Dict δ

namespace Registry

variable {δ : Type}

def empty : Registry δ := ⟨Dict.empty⟩

instance : Inhabited (Registry δ) := ⟨empty⟩

def register (r : Registry δ) (key : String) (definition : δ) : Except JobError (Registry δ) :=
  if r.definitions.contains key then .error (.duplicateKey key)
  else .ok ⟨r.definitions.insert key definition⟩

def lookup (r : Registry δ) (key : String) : Except JobError δ :=
  match r.definitions.get? key with
  | some definition => .ok definition
  | none => .error (.unknownJob key)

def contains (r : Registry δ) (key : String) : Bool :=
  r.definitions.contains key

/-- The keys, in order. -/
def keys (r : Registry δ) : List String :=
  r.definitions.keys

def size (r : Registry δ) : Nat :=
  r.definitions.size

end Registry

end BackgroundJobs
