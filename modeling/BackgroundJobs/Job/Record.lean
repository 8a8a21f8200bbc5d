import BackgroundJobs.Argument
import BackgroundJobs.Id
import BackgroundJobs.Job.Failure
import BackgroundJobs.Job.Retry
import BackgroundJobs.Job.State
import BackgroundJobs.Time.Stamp

/-!
# Job — the record of a run

One record follows a run from its submission to its end, through all of its
attempts. It is what the store keeps and what callers are shown.
-/

namespace BackgroundJobs

/-- One finished attempt of a run. -/
structure Attempt where
  /-- The number of the attempt, from 1. -/
  number : Nat
  startedAt : Instant
  finishedAt : Instant
  success : Bool
  /-- The state that the attempt led to. -/
  outcome : JobState
  error : Option String
  durationMillis : Nat
  deriving DecidableEq

namespace Attempt

def toJson (a : Attempt) : Json :=
  .record [("attempt", .int a.number), ("started_at", a.startedAt.toJson),
    ("finished_at", a.finishedAt.toJson), ("success", .bool a.success),
    ("outcome", a.outcome.toJson), ("error", Json.ofOption .str a.error),
    ("duration_ms", .int a.durationMillis)]

def ofJson? (j : Json) : Option Attempt :=
  j.toRecord? do
    pure {
      number := ← Json.FieldReader.required "attempt" (Json.toNatBits? 32)
      startedAt := ← Json.FieldReader.required "started_at" Instant.ofJson?
      finishedAt := ← Json.FieldReader.required "finished_at" Instant.ofJson?
      success := ← Json.FieldReader.required "success" Json.toBool?
      outcome := ← Json.FieldReader.required "outcome" JobState.ofJson?
      error := ← Json.FieldReader.optional "error" Json.toStr?
      durationMillis := ← Json.FieldReader.required "duration_ms" (Json.toNatBits? 64) }

end Attempt

/-- The record of one run. -/
structure JobRecord where
  id : JobId
  /-- The key of the definition that the run executes. -/
  jobKey : String
  /-- A label for people. -/
  name : String
  /-- The group of the realm that the run belongs to. -/
  group : String
  arguments : Arguments
  metadata : Metadata
  state : JobState
  /-- The number of attempts started so far. -/
  attempts : Nat
  retryPolicy : RetryPolicy
  createdAt : Instant
  updatedAt : Instant
  /-- The start of the current or last attempt. -/
  startedAt : Option Instant
  /-- The end of the run. -/
  finishedAt : Option Instant
  /-- What a finished run returned. -/
  result : Option Json
  /-- Why a failed run failed. -/
  error : Option Failure
  history : List Attempt
  /-- The recurring trigger that spawned the run. -/
  triggerId : Option TriggerId
  cancelRequested : Bool

namespace JobRecord

/-- The entity that owns the run, if its metadata names one. -/
def owner (r : JobRecord) : Option String :=
  r.metadata.get? ownerKey

def isTerminal (r : JobRecord) : Bool :=
  r.state.isTerminal

/-- Is the run still to be worked on? -/
def isActive (r : JobRecord) : Bool :=
  r.state.isActive

/-- The order that records are listed in: by creation time, then by id. -/
def precedes (a b : JobRecord) : Bool :=
  a.createdAt < b.createdAt || (a.createdAt = b.createdAt && a.id ≤ b.id)

def toJson (r : JobRecord) : Json :=
  .record [("id", r.id.toJson), ("job_key", .str r.jobKey), ("name", .str r.name),
    ("group", .str r.group), ("arguments", r.arguments.toJson), ("metadata", r.metadata.toJson),
    ("state", r.state.toJson), ("attempts", .int r.attempts),
    ("retry_policy", r.retryPolicy.toJson), ("created_at", r.createdAt.toJson),
    ("updated_at", r.updatedAt.toJson), ("started_at", Json.ofOption Instant.toJson r.startedAt),
    ("finished_at", Json.ofOption Instant.toJson r.finishedAt),
    ("result", r.result.getD .null), ("error", Json.ofOption Failure.toJson r.error),
    ("history", Json.ofList Attempt.toJson r.history),
    ("trigger_id", Json.ofOption TriggerId.toJson r.triggerId),
    ("cancel_requested", .bool r.cancelRequested)]

def ofJson? (j : Json) : Option JobRecord :=
  j.toRecord? do
    pure {
      id := ← Json.FieldReader.required "id" JobId.ofJson?
      jobKey := ← Json.FieldReader.required "job_key" Json.toStr?
      name := ← Json.FieldReader.required "name" Json.toStr?
      group := ← Json.FieldReader.required "group" Json.toStr?
      arguments := ← Json.FieldReader.required "arguments" Arguments.ofJson?
      metadata := ← Json.FieldReader.required "metadata" Metadata.ofJson?
      state := ← Json.FieldReader.required "state" JobState.ofJson?
      attempts := ← Json.FieldReader.required "attempts" (Json.toNatBits? 32)
      retryPolicy := ← Json.FieldReader.required "retry_policy" RetryPolicy.ofJson?
      createdAt := ← Json.FieldReader.required "created_at" Instant.ofJson?
      updatedAt := ← Json.FieldReader.required "updated_at" Instant.ofJson?
      startedAt := ← Json.FieldReader.optional "started_at" Instant.ofJson?
      finishedAt := ← Json.FieldReader.optional "finished_at" Instant.ofJson?
      result := ← Json.FieldReader.optional "result" some
      error := ← Json.FieldReader.optional "error" Failure.ofJson?
      history := ← Json.FieldReader.required "history" (Json.toListOf? Attempt.ofJson?)
      triggerId := ← Json.FieldReader.optional "trigger_id" TriggerId.ofJson?
      cancelRequested := ← Json.FieldReader.required "cancel_requested" Json.toBool? }

end JobRecord

end BackgroundJobs
