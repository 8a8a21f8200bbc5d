import BackgroundJobs.Job.Record

/-!
# Store — selecting records

A filter lists what a record must have. An empty list of keys, groups or states
asks for nothing, and an empty filter selects every record.
-/

namespace BackgroundJobs

/-- A selection of records. -/
structure Filter where
  jobKeys : List String := []
  groups : List String := []
  states : List JobState := []
  owner : Option String := none
  triggerId : Option TriggerId := none
  arguments : List (String × Argument) := []
  /-- How many records are listed at most. -/
  limit : Option Nat := none

namespace Filter

def all : Filter := {}

def active : Filter := { states := JobState.active }

instance : Inhabited Filter := ⟨all⟩

/-- Does a list that restricts only if it is not empty admit the value? -/
def admits {α : Type} [BEq α] (wanted : List α) (value : α) : Bool :=
  wanted.isEmpty || wanted.contains value

/-- Is the record selected? The limit has no part in it. -/
def selects (f : Filter) (r : JobRecord) : Bool :=
  admits f.jobKeys r.jobKey && admits f.groups r.group && admits f.states r.state &&
    (f.owner.isNone || r.owner == f.owner) &&
    (f.triggerId.isNone || r.triggerId == f.triggerId) &&
    f.arguments.all fun (name, value) => (r.arguments.get? name).any (·.same value)

/-- At most as many records as the limit allows. -/
def cut (f : Filter) (records : List JobRecord) : List JobRecord :=
  match f.limit with
  | some n => records.take n
  | none => records

end Filter

end BackgroundJobs
