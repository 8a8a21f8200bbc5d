import BackgroundJobs.Job.Record

/-!
# Job — state changes

A transition moves a record to another state and says what is recorded on the
way: the result of a finished run, the error of a failed one, or a note for the
history. An attempt enters the history when its run leaves `RUNNING`.
-/

namespace BackgroundJobs

/-- A change of state. -/
structure Transition where
  target : JobState
  result : Option Json := none
  error : Option Failure := none
  /-- What the history says of an attempt that ended without an error. -/
  note : Option String := none

namespace Transition

def start : Transition := ⟨.running, none, none, none⟩

def finish (result : Option Json) : Transition := ⟨.finished, result, none, none⟩

def fail (failure : Failure) : Transition := ⟨.failed, none, some failure, none⟩

/-- The attempt failed and the run waits for another one. -/
def requeue (message : String) : Transition := ⟨.queued, none, none, some message⟩

def cancel : Transition := ⟨.canceled, none, none, none⟩

/-- The realm shut down while the run was going on. -/
def interrupt : Transition := ⟨.interrupted, none, none, some "interrupted by realm shutdown"⟩

/-- The same change with a note for the history. -/
def withNote (t : Transition) (note : String) : Transition :=
  { t with note := some note }

/-- What the history says of an attempt ended by this change: the error, or else the note. -/
def remark (t : Transition) : Option String :=
  (t.error.map (·.message)).or t.note

/-- The history entry of the running attempt of a record that this change ends, if it does. -/
def closedAttempt? (t : Transition) (r : JobRecord) (now : Instant) : Option Attempt :=
  if r.state = .running ∧ t.target ≠ .running then
    r.startedAt.map fun startedAt =>
      { number := r.attempts
        startedAt
        finishedAt := now
        success := t.target = .finished
        outcome := t.target
        error := t.remark
        durationMillis := now.millisSince startedAt }
  else none

/-- The record after the change. The caller has checked that the change is allowed. -/
def apply (t : Transition) (r : JobRecord) (now : Instant) : JobRecord :=
  { r with
    history := r.history ++ (t.closedAttempt? r now).toList
    attempts := if t.target = .running then r.attempts + 1 else r.attempts
    startedAt := if t.target = .running then some now else r.startedAt
    finishedAt := if t.target.isTerminal then some now else r.finishedAt
    result := if t.target = .finished then t.result else r.result
    error := if t.target = .failed then t.error else r.error
    state := t.target
    updatedAt := now }

@[simp] theorem apply_id (t : Transition) (r : JobRecord) (now : Instant) :
    (t.apply r now).id = r.id := rfl

@[simp] theorem apply_state (t : Transition) (r : JobRecord) (now : Instant) :
    (t.apply r now).state = t.target := rfl

end Transition

end BackgroundJobs
