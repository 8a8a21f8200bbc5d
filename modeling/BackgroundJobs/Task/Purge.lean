import BackgroundJobs.Job.Context
import BackgroundJobs.Store.Basic

/-!
# Task — purging old records

A purge deletes the records of runs that ended longer ago than a retention
time. A retention that reaches back beyond all time deletes nothing.
-/

namespace BackgroundJobs

namespace Purge

def jobKey : String := "purge_job_statuses"

/-- The name of the argument that overrides the configured retention. -/
def retentionArg : String := "retention_hours"

/-- The draft of a recurring purge, of which at most one is active at a time. -/
def draft (schedule : Schedule) : Draft :=
  Draft.setAll { jobKey }
    [.name "purge job statuses", .constraint (.maxActivePerKey 1), .trigger (.recurring schedule)]

/-- The time before which records are old, if there is such a time. -/
def cutoff? (retention : Duration) (now : Instant) : Option Instant :=
  now.before? retention

/-- The retention of a run with the given arguments. -/
def retentionFor (configured : Duration) (args : Arguments) : Except ExecutionError Duration :=
  if args.contains retentionArg then
    match args.getInt retentionArg with
    | .error e => .error (.ofArgument e)
    | .ok hours =>
      if hours < 0 then .error (.fatal (retentionArg ++ " must not be negative"))
      else .ok (.ofSeconds (min (hours.toNat * 3600) 0xffffffffffffffff))
  else .ok configured

/-- What a purge that had a cutoff returns. -/
def report (removed : Nat) (cutoff : Instant) : Json :=
  .object [("removed", .int removed), ("cutoff", cutoff.toJson)]

def idleReport : Json := .object [("removed", .int 0)]

/-- The outcome of a purge run with the given arguments. `delete` deletes the records that
finished before a time and says how many there were. -/
def run {σ : Type} (configured : Duration) (args : Arguments) (now : Instant)
    (delete : Instant → σ → Except StoreError (Nat × σ)) (s : σ) : Outcome × σ :=
  match retentionFor configured args with
  | .error e => (.error e, s)
  | .ok retention =>
    match cutoff? retention now with
    | none => (.ok (some idleReport), s)
    | some cutoff =>
      match delete cutoff s with
      | .error e => (.error (.transient e.message), s)
      | .ok (removed, s) => (.ok (some (report removed cutoff)), s)

end Purge

end BackgroundJobs
