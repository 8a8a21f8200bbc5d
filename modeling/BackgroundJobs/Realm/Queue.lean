import BackgroundJobs.Id
import BackgroundJobs.Time.Instant

/-!
# Realm — the dispatch queue

The queue holds the ids of the runs that wait for a worker, in the order in
which they were added. A run that waits for another attempt is passed over
until its time has come. A paused queue hands nothing out, and a closed one
takes nothing in either.
-/

namespace BackgroundJobs

/-- A waiting run. -/
structure QueueEntry where
  jobId : JobId
  /-- The run is not handed out before this time. -/
  notBefore : Option Instant
  deriving DecidableEq

namespace QueueEntry

/-- May the run be handed out at the given time? -/
def isDue (e : QueueEntry) (now : Instant) : Bool :=
  match e.notBefore with
  | none => true
  | some time => time ≤ now

end QueueEntry

/-- The runs that wait for a worker, the earliest added first. -/
structure Queue where
  entries : List QueueEntry := []
  paused : Bool := false
  closed : Bool := false
  deriving DecidableEq

namespace Queue

def empty : Queue := {}

instance : Inhabited Queue := ⟨empty⟩

def ids (q : Queue) : List JobId :=
  q.entries.map (·.jobId)

def size (q : Queue) : Nat :=
  q.entries.length

def contains (q : Queue) (id : JobId) : Bool :=
  q.entries.any (·.jobId == id)

/-- Adds a run at the end, unless the queue is closed. -/
def push (q : Queue) (id : JobId) (notBefore : Option Instant) : Queue :=
  if q.closed then q else { q with entries := q.entries ++ [⟨id, notBefore⟩] }

def remove (q : Queue) (id : JobId) : Queue :=
  { q with entries := q.entries.filter (·.jobId != id) }

def pause (q : Queue) : Queue := { q with paused := true }

def unpause (q : Queue) : Queue := { q with paused := false }

def close (q : Queue) : Queue := { q with closed := true }

/-- Hands out the earliest added run that is due, if the queue is neither closed nor paused. -/
def take? (q : Queue) (now : Instant) : Option (JobId × Queue) :=
  if q.closed || q.paused then none
  else
    match q.entries.find? (·.isDue now) with
    | some e => some (e.jobId, { q with entries := q.entries.eraseP (·.isDue now) })
    | none => none

/-- The earliest time at which a waiting run that is not due yet may be handed out. -/
def wakeTime? (q : Queue) : Option Instant :=
  (q.entries.filterMap (·.notBefore)).foldl
    (fun best t => some (best.elim t fun b => if t < b then t else b)) none

@[simp] theorem ids_push_of_open {q : Queue} (h : q.closed = false) (id : JobId)
    (notBefore : Option Instant) : (q.push id notBefore).ids = q.ids ++ [id] := by
  simp [push, h, ids]

end Queue

end BackgroundJobs
