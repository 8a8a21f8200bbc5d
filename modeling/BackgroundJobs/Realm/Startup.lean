import BackgroundJobs.Realm.Basic

/-!
# Realm — starting

A realm that starts takes up the runs that its store still holds as active:
the queued ones are queued again, and the running ones, which no worker is
left to finish, are interrupted. Then its workers and its timer begin.
-/

namespace BackgroundJobs

/-- The points of a start. -/
inductive Startup where
  /-- Waits for the lifecycle lock. -/
  | waiting
  | listing
  | recovering (rest : List JobRecord)
  | queueing (id : JobId) (rest : List JobRecord)
  | finishing (record : JobRecord) (rest : List JobRecord)
  | opening

namespace Startup

variable {δ : Type}

/-- The records that a starting realm takes up: the active ones of its groups. -/
def backlog (settings : RealmSettings) : Filter :=
  { Filter.active with groups := settings.groups }

/-- Gives the lifecycle lock back with an error. -/
def giveUp (r : Realm δ) (e : JobError) :
    Option (Realm δ × Progress Startup (Except JobError Unit)) :=
  some ({ r with lifecycleHeld := false }, .done (.error e))

/-- One step of a start; none while it has to wait. The workers and the timer begin with the last
one. -/
def step (cue : Cue) (r : Realm δ) :
    Startup → Option (Realm δ × Progress Startup (Except JobError Unit))
  | .waiting =>
    if r.lifecycleHeld then none
    else
      match r.lifecycle with
      | .running => some (r, .done (.ok ()))
      | .shutDown => some (r, .done (.error (.shutDown r.settings.name)))
      | .created =>
        some ({ r with lifecycleHeld := true },
          .at (if r.settings.recoverOnStart then .listing else .opening))
  | .listing =>
    match r.ask cue (·.list (backlog r.settings)) with
    | .error e => giveUp r (.store e)
    | .ok records => some (r, .at (.recovering records))
  | .recovering [] => some (r, .at .opening)
  | .recovering (record :: rest) =>
    match record.state with
    | .queued =>
      some (r, .at (if r.queue.contains record.id then .recovering rest
        else .queueing record.id rest))
    | .running =>
      match r.transition cue record.id .running .interrupt with
      | (.ok updated, r) => some (r, .at (.finishing updated rest))
      | (.error (.stateConflict ..), r) => some (r, .at (.recovering rest))
      | (.error e, r) => giveUp r (.store e)
    | _ => some (r, .at (.recovering rest))
  | .queueing id rest => some ({ r with queue := r.queue.push id none }, .at (.recovering rest))
  | .finishing record rest => some (r.noteFinal record cue.answers, .at (.recovering rest))
  | .opening =>
    some ({ r with lifecycle := .running, lifecycleHeld := false }, .done (.ok ()))

end Startup

end BackgroundJobs
