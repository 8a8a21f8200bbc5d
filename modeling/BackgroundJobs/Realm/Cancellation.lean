import BackgroundJobs.Realm.Basic

/-!
# Realm — cancellation

A queued run is canceled on the spot. A running one is marked and then
signalled: the mark is there before the signal, so that a worker which claims
the run later sees the mark, and one which claimed it earlier gets the signal.
-/

namespace BackgroundJobs

/-- The points of a cancellation. -/
inductive Cancellation where
  | looking (id : JobId)
  | revoking (id : JobId)
  | unqueueing (record : JobRecord)
  | finishing (record : JobRecord)
  | marking (id : JobId)
  | signalling (record : JobRecord)

namespace Cancellation

variable {δ : Type}

def step (cue : Cue) (r : Realm δ) :
    Cancellation → Realm δ × Progress Cancellation (Except JobError JobRecord)
  | .looking id =>
    match r.find cue id with
    | .error e => (r, .done (.error e))
    | .ok record =>
      match record.state with
      | .queued => (r, .at (.revoking id))
      | .running => (r, .at (.marking id))
      | _ => (r, .done (.ok record))
  | .revoking id =>
    match r.transition cue id .queued .cancel with
    | (.ok record, r) => (r, .at (.unqueueing record))
    | (.error (.stateConflict ..), r) => (r, .at (.looking id))
    | (.error e, r) => (r, .done (.error (.store e)))
  | .unqueueing record => ({ r with queue := r.queue.remove record.id }, .at (.finishing record))
  | .finishing record => (r.noteFinal record cue.answers, .done (.ok record))
  | .marking id =>
    match r.tell cue (·.requestCancel id cue.now) with
    | (.ok record, r) =>
      (r, .at (if record.state = .queued then .looking id else .signalling record))
    | (.error e, r) => (r, .done (.error (.store e)))
  | .signalling record => ({ r with tokens := r.tokens.signal record.id }, .done (.ok record))

end Cancellation

end BackgroundJobs
