import BackgroundJobs.Job.Record

/-!
# Job — events of finished runs

When a run is over, an event with its final state is offered to whoever wants
to know: again if it is refused, but not more than three times in all.
-/

namespace BackgroundJobs

/-- The news that a run is over. -/
structure JobEvent where
  jobId : JobId
  jobKey : String
  finalState : JobState
  ownerMetadata : Metadata
  occurredAt : Instant
  deriving DecidableEq

namespace JobEvent

def ofRecord (r : JobRecord) : JobEvent :=
  ⟨r.id, r.jobKey, r.state, r.metadata, r.finishedAt.getD r.updatedAt⟩

def toJson (e : JobEvent) : Json :=
  .record [("job_id", e.jobId.toJson), ("job_key", .str e.jobKey),
    ("final_state", e.finalState.toJson), ("owner_metadata", e.ownerMetadata.toJson),
    ("occurred_at", e.occurredAt.toJson)]

end JobEvent

/-- An event that was offered, and the answer. -/
structure Offer where
  event : JobEvent
  accepted : Bool
  deriving DecidableEq

namespace Offer

/-- How often an event is offered at most. -/
def limit : Nat := 3

/-- Offers an event until it is accepted, at most so many times; `answers` are the answers in
turn, and where they end the event is refused. -/
def makeUpTo (event : JobEvent) : Nat → List Bool → List Offer
  | 0, _ => []
  | _ + 1, true :: _ => [⟨event, true⟩]
  | n + 1, answers => ⟨event, false⟩ :: makeUpTo event n answers.tail

def make (event : JobEvent) (answers : List Bool) : List Offer :=
  makeUpTo event limit answers

end Offer

end BackgroundJobs
