import BackgroundJobs.Job.Event
import BackgroundJobs.Job.Registry
import BackgroundJobs.Realm.Counters
import BackgroundJobs.Realm.Queue
import BackgroundJobs.Realm.Tokens
import BackgroundJobs.Realm.Triggers
import BackgroundJobs.Settings.Realm

/-!
# Realm — the shared state

A realm admits requests, hands runs to its workers and fires its triggers. Its
threads share the state below, and take it forward in atomic steps: a step
changes at most one of the store, the queue, the tokens and the triggers, and
is told by a `Cue` what it finds outside of the realm, such as the time of day.

The records of the store say what happened to a run. The queue only orders
ids, so everything else can be made anew from the store.
-/

namespace BackgroundJobs

/-- Where a realm is in its life. -/
inductive Lifecycle where
  | created
  | running
  | shutDown
  deriving DecidableEq, Repr, Inhabited

/-- A definition that was called: for which run, and in which attempt. -/
structure Invocation where
  jobId : JobId
  jobKey : String
  attempt : Nat
  deriving DecidableEq

/-- The shared state of a realm, with the log of what it asked of others. -/
structure Realm (δ : Type) where
  settings : RealmSettings
  registry : Registry δ
  store : Store := Store.empty
  queue : Queue := {}
  tokens : Tokens := {}
  triggers : Triggers := []
  counters : Counters := {}
  /-- Has the realm begun to stop? -/
  stopping : Bool := false
  lifecycle : Lifecycle := .created
  /-- Is someone checking and creating a run? -/
  admissionHeld : Bool := false
  /-- Is someone working on the table of triggers? -/
  triggersHeld : Bool := false
  /-- Is someone starting or shutting down the realm? -/
  lifecycleHeld : Bool := false
  /-- The definitions that were called, in order. -/
  invocations : List Invocation := []
  /-- The events that were offered, in order. -/
  offers : List Offer := []

/-- What a step finds outside of the realm. -/
structure Cue where
  /-- The time of day. -/
  now : Instant
  /-- An identifier that was never used. -/
  fresh : Uuid
  /-- The store's trouble, if it fails to do what it is asked. -/
  fault : Option String := none
  /-- How the definition ends, if it does. -/
  outcome : Outcome := .ok none
  /-- The answers to the offers of an event. -/
  answers : List Bool := [true]
  /-- The order in which the runs that workers are busy with are come to. -/
  shuffle : Shuffle (JobId × Token) := .asKept

/-- Where a procedure stands after a step: at another of its points, or at its end. -/
inductive Progress (σ ρ : Type) where
  | at (point : σ)
  | done (result : ρ)

namespace Realm

variable {δ : Type}

/-- A realm that has not been started, on a store that may hold records already. -/
def make (settings : RealmSettings) (registry : Registry δ) (store : Store) : Realm δ :=
  { settings, registry, store }

/-- The group of a request: the wanted one, if the realm serves it. -/
def resolveGroup (r : Realm δ) : Option String → Except JobError String
  | none => .ok r.settings.defaultGroup
  | some group =>
    if r.settings.groups.contains group then .ok group
    else .error (.unknownGroup r.settings.name group)

/-- Notes that a run is over: counts it and offers its event. -/
def noteFinal (r : Realm δ) (record : JobRecord) (answers : List Bool) : Realm δ :=
  { r with
    counters := r.counters.addFinal record.state
    offers := r.offers ++ Offer.make (.ofRecord record) answers }

-- ---------------------------------------------------------------------------
-- The store as the realm sees it
-- ---------------------------------------------------------------------------

/-- Asks the store something, unless it is in trouble. -/
def ask {α : Type} (r : Realm δ) (cue : Cue) (question : Store → α) : Except StoreError α :=
  match cue.fault with
  | some text => .error (.storage text)
  | none => .ok (question r.store)

/-- Has the store do something, unless it is in trouble. What fails changes nothing. -/
def tell {α : Type} (r : Realm δ) (cue : Cue) (action : Store → Except StoreError (α × Store)) :
    Except StoreError α × Realm δ :=
  match cue.fault with
  | some text => (.error (.storage text), r)
  | none =>
    match action r.store with
    | .ok (a, store) => (.ok a, { r with store })
    | .error e => (.error e, r)

/-- Changes the state of a record that is in the expected one. -/
def transition (r : Realm δ) (cue : Cue) (id : JobId) (expected : JobState) (t : Transition) :
    Except StoreError JobRecord × Realm δ :=
  r.tell cue fun s => s.transition id expected t cue.now

/-- The record of that id, which must be there. -/
def find (r : Realm δ) (cue : Cue) (id : JobId) : Except JobError JobRecord :=
  match r.ask cue (·.find? id) with
  | .error e => .error (.store e)
  | .ok none => .error (.notFound id)
  | .ok (some record) => .ok record

/-- The statistics. Where the store is in trouble they show no records. -/
def stats (r : Realm δ) (cue : Cue) : RealmStats :=
  ⟨r.counters, r.tokens.running.length, r.queue.size, r.queue.paused,
    match r.ask cue (·.counts) with
    | .ok counts => counts
    | .error _ => {}⟩

end Realm

end BackgroundJobs
