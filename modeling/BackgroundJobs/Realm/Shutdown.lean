import BackgroundJobs.Realm.Basic

/-!
# Realm — shutting down

A realm that shuts down hands out no more runs, waits for the running ones as
long as its grace period lasts, and interrupts those that are left, in any order.
-/

namespace BackgroundJobs

/-- What a shutdown came to. -/
structure ShutdownReport where
  /-- Did every run end in time? -/
  completedInGrace : Bool
  /-- The runs that were interrupted. -/
  interrupted : List JobId
  deriving DecidableEq

/-- The points of a shutdown. -/
inductive Shutdown where
  /-- Waits for the lifecycle lock. -/
  | waiting
  /-- Sets the mark that the realm stops; `drain` says whether runs are waited for. -/
  | marking (drain : Bool)
  | closing (drain : Bool)
  | draining (deadline : Instant)
  | striking (stuck : List (JobId × Token)) (report : ShutdownReport)
  | interrupting (id : JobId) (stuck : List (JobId × Token)) (report : ShutdownReport)
  | finishing (record : JobRecord) (stuck : List (JobId × Token)) (report : ShutdownReport)

namespace Shutdown

variable {δ : Type}

/-- The report of a shutdown that found nothing to wait for. -/
def quiet : ShutdownReport := ⟨true, []⟩

/-- One step of a shutdown; none while it has to wait. -/
def step (cue : Cue) (r : Realm δ) : Shutdown → Option (Realm δ × Progress Shutdown ShutdownReport)
  | .waiting =>
    if r.lifecycleHeld then none
    else
      match r.lifecycle with
      | .shutDown => some (r, .done quiet)
      | .created =>
        some ({ r with lifecycle := .shutDown, lifecycleHeld := true }, .at (.marking false))
      | .running =>
        some ({ r with lifecycle := .shutDown, lifecycleHeld := true }, .at (.marking true))
  | .marking drain => some ({ r with stopping := true }, .at (.closing drain))
  | .closing drain =>
    let r := { r with queue := r.queue.close }
    if drain then some (r, .at (.draining (cue.now.shift r.settings.grace.nanos)))
    else some ({ r with lifecycleHeld := false }, .done quiet)
  | .draining deadline =>
    if r.tokens.running.isEmpty then some (r, .at (.striking [] quiet))
    else if deadline ≤ cue.now then
      some (r, .at (.striking (cue.shuffle.arrange r.tokens.running) ⟨false, []⟩))
    else none
  | .striking [] report => some ({ r with lifecycleHeld := false }, .done report)
  | .striking ((id, token) :: stuck) report =>
    some ({ r with tokens := r.tokens.raise token }, .at (.interrupting id stuck report))
  | .interrupting id stuck report =>
    match r.transition cue id .running .interrupt with
    | (.ok record, r) => some (r, .at (.finishing record stuck report))
    | (.error _, r) => some (r, .at (.striking stuck report))
  | .finishing record stuck report =>
    some (r.noteFinal record cue.answers,
      .at (.striking stuck { report with interrupted := report.interrupted ++ [record.id] }))

end Shutdown

end BackgroundJobs
