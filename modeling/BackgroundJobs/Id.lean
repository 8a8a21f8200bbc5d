import BackgroundJobs.Json.Decode
import BackgroundJobs.Uuid

/-!
# Id — names of job runs and of recurring triggers

Two kinds of identifier that must not be mixed up. Both are written as their
UUID text.
-/

namespace BackgroundJobs

/-- Names one job run, that is, one status record. -/
structure JobId where
  uuid : Uuid
  deriving DecidableEq, Inhabited

/-- Names a recurring trigger registered with a realm. -/
structure TriggerId where
  uuid : Uuid
  deriving DecidableEq, Inhabited

/-- A text that names nothing of the wanted kind. -/
inductive IdError where
  | invalidJobId (text : String)
  | invalidTriggerId (text : String)
  deriving DecidableEq

namespace JobId

def parse (s : String) : Except IdError JobId :=
  match Uuid.parse? s with
  | some u => .ok ⟨u⟩
  | none => .error (.invalidJobId s)

def text (id : JobId) : String := id.uuid.text

instance : ToString JobId := ⟨text⟩

instance : LT JobId := ⟨fun a b => a.uuid < b.uuid⟩

instance : LE JobId := ⟨fun a b => a.uuid ≤ b.uuid⟩

instance (a b : JobId) : Decidable (a < b) := inferInstanceAs (Decidable (a.uuid < b.uuid))

instance (a b : JobId) : Decidable (a ≤ b) := inferInstanceAs (Decidable (a.uuid ≤ b.uuid))

def toJson (id : JobId) : Json := .str id.text

def ofJson? (j : Json) : Option JobId :=
  j.toStr?.bind Uuid.parse? |>.map JobId.mk

end JobId

namespace TriggerId

def parse (s : String) : Except IdError TriggerId :=
  match Uuid.parse? s with
  | some u => .ok ⟨u⟩
  | none => .error (.invalidTriggerId s)

def text (id : TriggerId) : String := id.uuid.text

instance : ToString TriggerId := ⟨text⟩

instance : LT TriggerId := ⟨fun a b => a.uuid < b.uuid⟩

instance : LE TriggerId := ⟨fun a b => a.uuid ≤ b.uuid⟩

instance (a b : TriggerId) : Decidable (a < b) := inferInstanceAs (Decidable (a.uuid < b.uuid))

instance (a b : TriggerId) : Decidable (a ≤ b) := inferInstanceAs (Decidable (a.uuid ≤ b.uuid))

def toJson (id : TriggerId) : Json := .str id.text

def ofJson? (j : Json) : Option TriggerId :=
  j.toStr?.bind Uuid.parse? |>.map TriggerId.mk

end TriggerId

end BackgroundJobs
