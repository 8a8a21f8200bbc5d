import BackgroundJobs.Store.Basic

/-!
# Realm — counters

What a realm counts while it runs, and the statistics made of it.
-/

namespace BackgroundJobs

/-- The counters of a realm. -/
structure Counters where
  admitted : Nat := 0
  rejected : Nat := 0
  finished : Nat := 0
  failed : Nat := 0
  canceled : Nat := 0
  interrupted : Nat := 0
  retried : Nat := 0
  triggersFired : Nat := 0
  triggersSkipped : Nat := 0
  deriving DecidableEq, Repr, Inhabited

namespace Counters

/-- Counts a run that is over, by its final state. -/
def addFinal (c : Counters) : JobState → Counters
  | .finished => { c with finished := c.finished + 1 }
  | .failed => { c with failed := c.failed + 1 }
  | .canceled => { c with canceled := c.canceled + 1 }
  | .interrupted => { c with interrupted := c.interrupted + 1 }
  | .queued | .running => c

/-- The number of runs that ended in the given state. -/
def final (c : Counters) : JobState → Nat
  | .finished => c.finished
  | .failed => c.failed
  | .canceled => c.canceled
  | .interrupted => c.interrupted
  | .queued | .running => 0

end Counters

/-- The statistics of a realm. -/
structure RealmStats where
  counters : Counters
  running : Nat
  queueDepth : Nat
  paused : Bool
  /-- The number of stored records in each state. -/
  statuses : StateCounts
  deriving DecidableEq, Repr, Inhabited

def RealmStats.toJson (s : RealmStats) : Json :=
  .record [("admitted", .int s.counters.admitted), ("rejected", .int s.counters.rejected),
    ("finished", .int s.counters.finished), ("failed", .int s.counters.failed),
    ("canceled", .int s.counters.canceled), ("interrupted", .int s.counters.interrupted),
    ("retried", .int s.counters.retried), ("triggers_fired", .int s.counters.triggersFired),
    ("triggers_skipped", .int s.counters.triggersSkipped), ("running", .int s.running),
    ("queue_depth", .int s.queueDepth), ("paused", .bool s.paused),
    ("statuses", s.statuses.toJson)]

end BackgroundJobs
