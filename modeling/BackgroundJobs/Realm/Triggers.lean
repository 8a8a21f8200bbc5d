import BackgroundJobs.Job.Request

/-!
# Realm — the table of recurring triggers

Every recurring request is kept with the time at which it fires next and what
came of its firings so far. The table is kept in the order of the ids.
-/

namespace BackgroundJobs

/-- A recurring request. -/
structure TriggerEntry where
  /-- The request that every firing makes a run of. -/
  template : JobRequest
  schedule : Schedule
  nextFire : Option Instant
  /-- The number of firings that made a run. -/
  spawned : Nat := 0
  /-- The number of firings that did not. -/
  skipped : Nat := 0
  /-- The run that the last successful firing made. -/
  lastJob : Option JobId := none

namespace TriggerEntry

/-- A trigger that fires on the given schedule from now on. -/
def make (template : JobRequest) (schedule : Schedule) (now : Instant) : TriggerEntry :=
  { template, schedule, nextFire := schedule.next? now }

/-- Has the time of the next firing come? -/
def isDue (e : TriggerEntry) (now : Instant) : Bool :=
  e.nextFire.any (· ≤ now)

/-- Moves the next firing to the first time of the schedule after now. Firings that were missed
count as one. -/
def advance (e : TriggerEntry) (now : Instant) : TriggerEntry :=
  { e with nextFire := e.schedule.next? now }

/-- Puts the trigger on another schedule from now on. -/
def reschedule (e : TriggerEntry) (schedule : Schedule) (now : Instant) : TriggerEntry :=
  { e with schedule, nextFire := schedule.next? now }

def noteSpawned (e : TriggerEntry) (id : JobId) : TriggerEntry :=
  { e with spawned := e.spawned + 1, lastJob := some id }

/-- Notes a firing that made no run. -/
def noteSkipped (e : TriggerEntry) : TriggerEntry :=
  { e with skipped := e.skipped + 1 }

end TriggerEntry

/-- What is shown of a trigger. -/
structure TriggerInfo where
  id : TriggerId
  jobKey : String
  name : String
  schedule : Schedule
  nextFire : Option Instant
  spawned : Nat
  skipped : Nat
  lastJob : Option JobId
  deriving DecidableEq

namespace TriggerInfo

def ofEntry (id : TriggerId) (e : TriggerEntry) : TriggerInfo :=
  ⟨id, e.template.jobKey, e.template.name, e.schedule, e.nextFire, e.spawned, e.skipped, e.lastJob⟩

def toJson (t : TriggerInfo) : Json :=
  .record [("id", t.id.toJson), ("job_key", .str t.jobKey), ("name", .str t.name),
    ("schedule", t.schedule.toJson), ("next_fire", Json.ofOption Instant.toJson t.nextFire),
    ("spawned", .int t.spawned), ("skipped", .int t.skipped),
    ("last_job", Json.ofOption JobId.toJson t.lastJob)]

end TriggerInfo

/-- The triggers of a realm, in the order of their ids. -/
abbrev Triggers := List (TriggerId × TriggerEntry)

namespace Triggers

def find? (t : Triggers) (id : TriggerId) : Option TriggerEntry :=
  t.lookup id

/-- Puts an entry in its place; an equal id is bound anew. -/
def insert (id : TriggerId) (entry : TriggerEntry) : Triggers → Triggers
  | [] => [(id, entry)]
  | (i, e) :: rest =>
    if id < i then (id, entry) :: (i, e) :: rest
    else if id = i then (id, entry) :: rest
    else (i, e) :: insert id entry rest

def modify (t : Triggers) (id : TriggerId) (change : TriggerEntry → TriggerEntry) : Triggers :=
  t.map fun (i, e) => if i = id then (i, change e) else (i, e)

/-- The triggers without the one of that id. -/
def erase (t : Triggers) (id : TriggerId) : Triggers :=
  t.filter (·.1 != id)

def infos (t : Triggers) : List TriggerInfo :=
  t.map fun (id, e) => TriggerInfo.ofEntry id e

/-- The earliest time at which a trigger fires. -/
def nextFire? (t : Triggers) : Option Instant :=
  (t.filterMap (·.2.nextFire)).foldl
    (fun best time => some (best.elim time fun b => if time < b then time else b)) none

end Triggers

end BackgroundJobs
