import BackgroundJobs.Realm.Basic

/-!
# Realm — registering triggers

A recurring request is registered with an open realm that knows its job and
serves its group. The jobs that the configuration declares are registered one
after the other; an error ends that, and what was registered before it stays.
-/

namespace BackgroundJobs

/-- The points of a registration. -/
inductive Registration where
  | opening (request : JobRequest)
  | inserting (id : TriggerId) (entry : TriggerEntry)

namespace Registration

variable {δ : Type}

/-- The trigger of a request, if the realm can take it. -/
def entry (r : Realm δ) (request : JobRequest) (now : Instant) : Except JobError TriggerEntry :=
  if r.stopping then .error (.shutDown r.settings.name)
  else
    match request.trigger with
    | .immediate => .error (.invalidTrigger (.notRecurring request.jobKey))
    | .recurring schedule => do
      let _ ← r.registry.lookup request.jobKey
      let _ ← r.resolveGroup request.group
      pure (.make request schedule now)

/-- One step of a registration; none while it has to wait. -/
def step (cue : Cue) (r : Realm δ) :
    Registration → Option (Realm δ × Progress Registration (Except JobError TriggerId))
  | .opening request =>
    match entry r request cue.now with
    | .error e => some (r, .done (.error e))
    | .ok entry => some (r, .at (.inserting ⟨cue.fresh⟩ entry))
  | .inserting id entry =>
    if r.triggersHeld then none
    else some ({ r with triggers := Triggers.insert id entry r.triggers }, .done (.ok id))

end Registration

namespace RecurringSettings

/-- The recurring request that the settings declare, named after its job unless they name it. -/
def toRequest (s : RecurringSettings) : Except JobError JobRequest :=
  match s.parsedSchedule with
  | .error e => .error (.invalidSchedule e)
  | .ok schedule =>
    .ok {
      jobKey := s.jobKey
      name := s.name.getD s.jobKey
      group := s.group
      arguments := Dict.empty
      metadata := Dict.empty
      constraints := []
      retryPolicy := none
      trigger := .recurring schedule }

end RecurringSettings

/-- The points of registering what the configuration declares. -/
inductive Declaration where
  | next (rest : List RecurringSettings) (made : List TriggerId)
  | registering (point : Registration) (rest : List RecurringSettings) (made : List TriggerId)

namespace Declaration

variable {δ : Type}

/-- One step of registering declared jobs; none while it has to wait. -/
def step (cue : Cue) (r : Realm δ) :
    Declaration → Option (Realm δ × Progress Declaration (Except JobError (List TriggerId)))
  | .next [] made => some (r, .done (.ok made))
  | .next (s :: rest) made =>
    match s.toRequest with
    | .error e => some (r, .done (.error e))
    | .ok request => some (r, .at (.registering (.opening request) rest made))
  | .registering point rest made =>
    (point.step cue r).map fun
      | (r, .at point) => (r, .at (.registering point rest made))
      | (r, .done (.ok id)) => (r, .at (.next rest (made ++ [id])))
      | (r, .done (.error e)) => (r, .done (.error e))

end Declaration

end BackgroundJobs
