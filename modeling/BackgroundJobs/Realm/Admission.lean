import BackgroundJobs.Realm.Basic

/-!
# Realm — admission

A request is admitted if its constraints allow it to join the active runs. The
constraints are checked and the record is created under the admission lock, so
that no other request is admitted in between; records may change state in
between all the same.
-/

namespace BackgroundJobs

/-- A request for a known job and a group that the realm serves. -/
structure Admission where
  request : JobRequest
  triggerId : Option TriggerId
  group : String
  policy : RetryPolicy

/-- The points of an admission. -/
inductive AdmissionPoint where
  /-- Waits for the admission lock. -/
  | waiting
  | checking
  | creating (record : JobRecord)
  | queueing (record : JobRecord)
  | counting (record : JobRecord)

namespace Admission

variable {δ : Type}

/-- The admission of a request, if its job is known and its group is served. -/
def make (r : Realm δ) (request : JobRequest) (triggerId : Option TriggerId) :
    Except JobError Admission := do
  let _ ← r.registry.lookup request.jobKey
  let group ← r.resolveGroup request.group
  pure ⟨request, triggerId, group, request.retryPolicy.getD r.settings.retryPolicy⟩

/-- Gives the admission lock back with an error. -/
def refuse (r : Realm δ) (e : JobError) :
    Option (Realm δ × Progress AdmissionPoint (Except JobError JobRecord)) :=
  some ({ r with admissionHeld := false }, .done (.error e))

/-- One step of an admission; none while it has to wait. -/
def step (a : Admission) (cue : Cue) (r : Realm δ) :
    AdmissionPoint → Option (Realm δ × Progress AdmissionPoint (Except JobError JobRecord))
  | .waiting =>
    if r.admissionHeld then none else some ({ r with admissionHeld := true }, .at .checking)
  | .checking =>
    match r.ask cue (·.listActive Filter.all) with
    | .error e => refuse r (.store e)
    | .ok active =>
      match a.request.check active with
      | .error violation =>
        refuse { r with counters := { r.counters with rejected := r.counters.rejected + 1 } }
          (.rejected violation)
      | .ok () =>
        let record := a.request.toRecord ⟨cue.fresh⟩ a.group a.policy a.triggerId cue.now
        some (r, .at (.creating record))
  | .creating record =>
    match r.tell cue fun s => (s.create record).map (Prod.mk ()) with
    | (.ok (), r) => some (r, .at (.queueing record))
    | (.error e, r) => refuse r (.store e)
  | .queueing record =>
    some ({ r with queue := r.queue.push record.id none }, .at (.counting record))
  | .counting record =>
    some ({ r with
        counters := { r.counters with admitted := r.counters.admitted + 1 }
        admissionHeld := false },
      .done (.ok record))

end Admission

end BackgroundJobs
