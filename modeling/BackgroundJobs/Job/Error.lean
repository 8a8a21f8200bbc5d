import BackgroundJobs.Job.Constraint
import BackgroundJobs.Schedule.Basic

/-!
# Job — what can go wrong with a request

Errors of the caller, such as an unknown job, are never worth retrying. A
rejected request left nothing behind and may be made again later. What goes
wrong while a run executes is no error of this kind: it is recorded on the run.
-/

namespace BackgroundJobs

/-- Failures of the status store. -/
inductive StoreError where
  | notFound (id : JobId)
  | alreadyExists (id : JobId)
  /-- The record was not in the state that the change starts from. -/
  | stateConflict (id : JobId) (expected actual : JobState)
  /-- The change is not an edge of the state graph. -/
  | illegalTransition (source target : JobState)
  | storage (text : String)
  deriving DecidableEq

def StoreError.message : StoreError → String
  | .notFound id => s!"job status not found: {id}"
  | .alreadyExists id => s!"job status already exists: {id}"
  | .stateConflict id expected actual => s!"job {id} expected in state {expected}, found {actual}"
  | .illegalTransition source target => s!"illegal transition {source} -> {target}"
  | .storage text => "storage error: " ++ text

/-- A request whose trigger does not fit the way it was made. -/
inductive TriggerError where
  /-- A recurring request cannot be submitted. -/
  | recurring (jobKey : String)
  /-- A request that runs once cannot be scheduled. -/
  | notRecurring (jobKey : String)
  deriving DecidableEq, Repr

def TriggerError.message : TriggerError → String
  | .recurring jobKey => jobKey ++ " has a recurring trigger; register it with schedule()"
  | .notRecurring jobKey => jobKey ++ " has no recurring trigger; use submit()"

/-- Why an operation on jobs did not happen. -/
inductive JobError where
  | duplicateKey (key : String)
  | unknownJob (key : String)
  | duplicateArgument (key : String)
  | invalidArgument (key text : String)
  | unknownGroup (realm group : String)
  | invalidTrigger (cause : TriggerError)
  | invalidSchedule (cause : ScheduleError)
  | rejected (violation : Violation)
  | notFound (id : JobId)
  | triggerNotFound (id : TriggerId)
  | shutDown (realm : String)
  | store (cause : StoreError)
  deriving DecidableEq

def JobError.message : JobError → String
  | .duplicateKey key => "job definition already registered: " ++ key
  | .unknownJob key => "unknown job definition: " ++ key
  | .duplicateArgument key => "argument specified more than once: " ++ key
  | .invalidArgument key text => "argument " ++ key ++ " could not be encoded: " ++ text
  | .unknownGroup realm group => "realm " ++ realm ++ " does not serve group " ++ group
  | .invalidTrigger cause => "invalid trigger: " ++ cause.message
  | .invalidSchedule cause => "invalid schedule: " ++ cause.message
  | .rejected violation => "job rejected: " ++ violation.message
  | .notFound id => s!"job status not found: {id}"
  | .triggerNotFound id => s!"trigger not found: {id}"
  | .shutDown realm => "realm " ++ realm ++ " has been shut down"
  | .store cause => cause.message

end BackgroundJobs
