import BackgroundJobs.Rehearsal.Script

/-!
# Rehearsal — scenarios

A scenario drives a realm with scripted definitions step by step. After each
step everyone goes on until they wait, and what happened since the step before
is reported.
-/

namespace BackgroundJobs

-- ---------------------------------------------------------------------------
-- Playing
-- ---------------------------------------------------------------------------

/-- A rehearsal of a realm whose definitions are scripted. -/
abbrev ScriptedRehearsal := Rehearsal (List Act) Gates

namespace Rehearsal

/-- A realm with scripted definitions that has not been started, on a store that holds some
records. The first `refusals` offers of events are refused. -/
def ofScripts (settings : RealmSettings) (registry : Registry (List Act)) (store : Store)
    (now : Instant) (refusals : Nat) : ScriptedRehearsal where
  system := .ofRealm (.make settings registry store)
  performer := Act.performer
  scene := {}
  now
  refusals

/-- Is the attempt that a thread is in told to stop? -/
def isCanceled (p : ScriptedRehearsal) (worker : Nat) : Bool :=
  match p.system.threads[worker]? with
  | some (.worker (.executing _ token _)) => p.realm.tokens.isRaised token
  | _ => false

/-- Lets every act that waits at a gate look at the signal. -/
def heed (p : ScriptedRehearsal) : ScriptedRehearsal :=
  { p with scene := { p.scene with
      waiting := p.scene.waiting.map fun (i, act) => (i, act.heed (p.isCanceled i)) } }

/-- Ends a step of the scenario: everyone goes on until they wait, looks at the signal, and goes
on again. -/
def rest (p : ScriptedRehearsal) : ScriptedRehearsal :=
  p.settle.heed.settle

def release (p : ScriptedRehearsal) (id : JobId) : ScriptedRehearsal :=
  { p with scene := p.scene.release id }

/-- Submits a request from so many callers. Returns how many were admitted. -/
def race (p : ScriptedRehearsal) (request : JobRequest) : Nat → Nat × ScriptedRehearsal
  | 0 => (0, p)
  | callers + 1 =>
    let (answer, p) := p.ask (.submit request)
    let (admitted, p) := p.race request callers
    ((if answer.isOk then admitted + 1 else admitted), p)

/-- Lets triggers fire until one of them has made and skipped so many runs. -/
def waitForTrigger (p : ScriptedRehearsal) (id : TriggerId) (spawned skipped : Nat) :
    ScriptedRehearsal :=
  p.waitFor
    (fun r => (r.triggers.find? id).any fun e => spawned ≤ e.spawned && skipped ≤ e.skipped) 1000

/-- The time that passes before runs are released during a shutdown, in nanoseconds. -/
def releaseTime : Int := 20000000

/-- The time until which a thread waits for running jobs, if it is shutting down. -/
def deadline? (p : ScriptedRehearsal) (i : Nat) : Option Instant :=
  match p.system.threads[i]? with
  | some (.caller (.stopping (.draining deadline))) => some deadline
  | _ => none

/-- The time that a shutdown waits for the timer in the end, in nanoseconds. -/
def joinTime : Int := 200000000

/-- Shuts the realm down, and releases runs a little later. Returns the answer. -/
def shutdown (p : ScriptedRehearsal) (released : List JobId) : Answer × ScriptedRehearsal :=
  let goesOn := !p.realm.stopping
  let (i, p) := p.place .shutdown
  let releaseAll (p : ScriptedRehearsal) : ScriptedRehearsal :=
    (released.foldl release { p with now := p.now.shift releaseTime }).settle
  let p :=
    match p.deadline? i with
    | none => if released.isEmpty then p else releaseAll p
    | some deadline =>
      let inTime := !released.isEmpty && p.now.shift releaseTime < deadline
      let p := if inTime then (releaseAll p).pursue i else p
      let p := if (p.deadline? i).isSome then Rehearsal.pursue { p with now := deadline } i else p
      if inTime || released.isEmpty then p else releaseAll p
  let p := if goesOn then p.awaitPass (p.now.shift joinTime) patience else p
  ((p.answer? i).getD (.ok .done), p)

end Rehearsal

-- ---------------------------------------------------------------------------
-- Steps and reports
-- ---------------------------------------------------------------------------

/-- One step of a scenario. -/
inductive ScenarioStep where
  | call (c : Call)
  /-- The same request from so many callers. -/
  | race (request : JobRequest) (callers : Nat)
  /-- Registers a request, and waits until it has made and skipped so many runs. -/
  | scheduleAndWait (request : JobRequest) (spawned skipped : Nat)
  | wait (id : TriggerId) (spawned skipped : Nat)
  | release (id : JobId)
  | shutdown (released : List JobId)
  /-- Another party changes the state of a record. -/
  | change (id : JobId) (expected : JobState) (t : Transition)
  /-- Another party stores a record. -/
  | plant (record : JobRecord)
  /-- Makes these uses of the store fail from now on, and no others. -/
  | disturb (methods : List StoreMethod)
  | intrude (i : Intrusion)

/-- What came of a step. -/
inductive ScenarioReply where
  | nothing
  | answer (a : Answer)
  | raced (admitted rejected : Nat)
  /-- The trigger was waited for; it is named if the step registered it. -/
  | reached (id : Option TriggerId)
  | changed (result : Except StoreError JobRecord)

/-- What happened in a step. -/
structure ScenarioReport where
  reply : ScenarioReply
  /-- The stored records after the step, in listing order. -/
  records : List JobRecord
  /-- The definitions that were called. -/
  invocations : List Invocation
  /-- The events that were accepted. -/
  events : List JobEvent
  /-- How often an event was offered so far. -/
  offers : Nat

/-- A scenario in the middle, and how much of the realm's log has been reported. -/
structure Scenario where
  rehearsal : ScriptedRehearsal
  /-- The triggers that were made, in order. -/
  triggers : List TriggerId := []
  invocations : Nat := 0
  offers : Nat := 0
  /-- Has a trigger been waited for? -/
  waited : Bool := false

namespace Scenario

def realm (s : Scenario) : Realm (List Act) := s.rehearsal.realm

/-- The runs that were created, in order. -/
def created (s : Scenario) : List JobId := s.rehearsal.created

def noteTriggers (s : Scenario) : Scenario :=
  let new := (s.realm.triggers.map (·.1)).filter fun id => !s.triggers.contains id
  { s with triggers := s.triggers ++ new }

/-- Lets triggers fire until one of them has made and skipped so many runs. -/
def wait (s : Scenario) (id : TriggerId) (spawned skipped : Nat) : Scenario :=
  { s with rehearsal := s.rehearsal.waitForTrigger id spawned skipped, waited := true }

def withStore (s : Scenario) (store : Store) : Scenario :=
  { s with rehearsal := (s.rehearsal.withStore store).tick }

def play (s : Scenario) : ScenarioStep → ScenarioReply × Scenario
  | .call c =>
    let (answer, p) := s.rehearsal.ask c
    (.answer answer, { s with rehearsal := p }.noteTriggers)
  | .race request callers =>
    let (admitted, p) := s.rehearsal.race request callers
    (.raced admitted (callers - admitted), { s with rehearsal := p })
  | .scheduleAndWait request spawned skipped =>
    let (answer, p) := s.rehearsal.ask (.schedule request)
    let s := { s with rehearsal := p }.noteTriggers
    match answer with
    | .ok (.trigger id) => (.reached (some id), s.wait id spawned skipped)
    | answer => (.answer answer, s)
  | .wait id spawned skipped => (.reached none, s.wait id spawned skipped)
  | .release id => (.nothing, { s with rehearsal := s.rehearsal.release id })
  | .shutdown released =>
    let (answer, p) := s.rehearsal.shutdown released
    (.answer answer, { s with rehearsal := p })
  | .change id expected t =>
    match s.realm.store.transition id expected t s.rehearsal.now with
    | .ok (r, store) => (.changed (.ok r), s.withStore store)
    | .error e => (.changed (.error e), s)
  | .plant record =>
    match s.realm.store.create record with
    | .ok store => (.nothing, s.withStore store)
    | .error _ => (.nothing, s)
  | .disturb methods => (.nothing, { s with rehearsal := { s.rehearsal with faults := methods } })
  | .intrude i =>
    (.nothing, { s with rehearsal :=
      { s.rehearsal with intrusions := s.rehearsal.intrusions ++ [i] } })

/-- The order of runs: those that were stored before, by id, and then the others as they were
created. -/
def precedes (s : Scenario) (a b : JobId) : Bool :=
  match s.created.findIdx? (· == a), s.created.findIdx? (· == b) with
  | some i, some j => i ≤ j
  | none, some _ => true
  | some _, none => false
  | none, none => a ≤ b

/-- Runs in order. -/
def inOrder (s : Scenario) (ids : List JobId) : List JobId :=
  ids.mergeSort s.precedes

/-- What happened since the last report. The log of several workers is brought into the order of
the runs and their attempts. -/
def report (s : Scenario) (reply : ScenarioReply) : ScenarioReport × Scenario :=
  let several := s.realm.settings.workers > 1
  let sorted {α : Type} (le : α → α → Bool) (l : List α) : List α :=
    if several then l.mergeSort le else l
  let accepted := (s.realm.offers.drop s.offers).filter (·.accepted)
  ({ reply
     records := s.realm.store.list Filter.all
     invocations := sorted
       (fun a b => if a.jobId = b.jobId then a.attempt ≤ b.attempt else s.precedes a.jobId b.jobId)
       (s.realm.invocations.drop s.invocations)
     events := sorted (fun a b => s.precedes a.jobId b.jobId) (accepted.map (·.event))
     offers := s.realm.offers.length },
   { s with invocations := s.realm.invocations.length, offers := s.realm.offers.length })

/-- Plays a step and lets everyone go on until they wait. -/
def step (s : Scenario) (e : ScenarioStep) : ScenarioReport × Scenario :=
  let (reply, s) := s.play e
  { s with rehearsal := s.rehearsal.rest }.report reply

end Scenario

end BackgroundJobs
