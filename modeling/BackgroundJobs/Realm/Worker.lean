import BackgroundJobs.Realm.Basic

/-!
# Realm — workers

A worker takes a run from the queue, claims it by a change of its state, calls
the definition and records the outcome. It binds the run to its token before it
claims it. Whoever leaves a run unbinds it from whatever token it is bound to,
also from that of a worker who has come to the next attempt meanwhile; a
cancellation then finds no attempt to signal.
-/

namespace BackgroundJobs

/-- The points of a worker. -/
inductive Worker (δ : Type) where
  /-- Waits for a run. -/
  | idle
  | taken (id : JobId)
  | entering (id : JobId)
  | claiming (id : JobId) (token : Token)
  | claimed (record : JobRecord) (token : Token)
  /-- Inside the definition. -/
  | executing (record : JobRecord) (token : Token) (definition : δ)
  | judging (record : JobRecord) (token : Token) (outcome : Outcome)
  | recording (record : JobRecord) (t : Transition)
  /-- Cancels a run that was asked to stop while its attempt was being recorded. -/
  | withdrawing (record : JobRecord)
  | requeueing (record : JobRecord)
  | finishing (record : JobRecord)
  | leaving (id : JobId)
  | retired

namespace Worker

variable {δ : Type}

/-- The change of state that an outcome calls for. `canceled` says whether the attempt was told to
stop, in which case it is not repeated. -/
def verdict (record : JobRecord) (canceled : Bool) : Outcome → Transition
  | .ok output => .finish output
  | .error .canceled => .cancel
  | .error (.failed message true) =>
    if canceled || record.cancelRequested then Transition.cancel.withNote message
    else if record.retryPolicy.allowsAfter record.attempts then .requeue message
    else .fail (.declared message true)
  | .error (.failed message false) => .fail (.declared message false)
  | .error (.unexpected chain) => .fail (.defect (ExecutionError.chainText chain))

/-- The time before which the next attempt of a record does not begin. -/
def retryTime (record : JobRecord) (now : Instant) : Instant :=
  now.shift (record.retryPolicy.delayAfter record.attempts).nanos

/-- One step of a worker; none while it has to wait. -/
def step (cue : Cue) (r : Realm δ) : Worker δ → Option (Realm δ × Worker δ)
  | .idle =>
    if r.queue.closed then some (r, .retired)
    else (r.queue.take? cue.now).map fun (id, queue) => ({ r with queue }, .taken id)
  | .taken id => some (r, if r.stopping then .retired else .entering id)
  | .entering id =>
    let (token, tokens) := r.tokens.issue
    some ({ r with tokens := tokens.register id token }, .claiming id token)
  | .claiming id token =>
    match r.transition cue id .queued .start with
    | (.ok record, r) => some (r, .claimed record token)
    | (.error _, r) => some (r, .leaving id)
  | .claimed record token =>
    let r := if record.cancelRequested then { r with tokens := r.tokens.raise token } else r
    match r.registry.lookup record.jobKey with
    | .ok definition =>
      some ({ r with
          invocations := r.invocations ++ [⟨record.id, record.jobKey, record.attempts⟩] },
        .executing record token definition)
    | .error e => some (r, .recording record (.fail (.defect e.message)))
  | .executing record token _ => some (r, .judging record token cue.outcome)
  | .judging record token outcome =>
    some (r, .recording record (verdict record (r.tokens.isRaised token) outcome))
  | .recording record t =>
    match r.transition cue record.id .running t with
    | (.ok updated, r) =>
      some (r,
        if updated.state = .queued then
          if updated.cancelRequested then .withdrawing updated else .requeueing updated
        else .finishing updated)
    | (.error _, r) => some (r, .leaving record.id)
  | .withdrawing record =>
    match r.transition cue record.id .queued .cancel with
    | (.ok canceled, r) => some (r, .finishing canceled)
    | (.error _, r) => some (r, .leaving record.id)
  | .requeueing record =>
    some ({ r with
        counters := { r.counters with retried := r.counters.retried + 1 }
        queue := r.queue.push record.id (some (retryTime record cue.now)) },
      .leaving record.id)
  | .finishing record => some (r.noteFinal record cue.answers, .leaving record.id)
  | .leaving id => some ({ r with tokens := r.tokens.deregister id }, .idle)
  | .retired => none

end Worker

end BackgroundJobs
