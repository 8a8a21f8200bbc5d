import BackgroundJobs.Rehearsal.Pace
import BackgroundJobs.Rehearsal.StoreUse

/-!
# Rehearsal — one run of a system

A rehearsal plays one run of a system of threads: callers are served one after
the other, and between two calls the workers go on until they all wait. Time
passes only as steps are taken, and skips ahead when all wait for a retry; the
triggers that are due until then fire at their times. What the definitions do is
left to a performer with a state of its own.
-/

namespace BackgroundJobs

/-- What a performer knows of the run that it plays. -/
structure Situation where
  /-- The thread that runs the definition. -/
  worker : Nat
  context : JobContext
  /-- Was the run told to stop? -/
  canceled : Bool
  now : Instant
  fresh : Uuid
  store : Store

/-- How a performance ends. -/
structure Ending where
  outcome : Outcome
  /-- The definition deleted the records of runs that finished before this time. -/
  sweep : Option Instant := none

/-- Plays a definition: until it ends, or has to wait. -/
abbrev Performer (δ σ : Type) := Situation → δ → σ → σ × Option Ending

/-- A system in the middle of one of its runs. -/
structure Rehearsal (δ σ : Type) where
  system : System δ
  performer : Performer δ σ
  scene : σ
  now : Instant
  /-- Makes fresh identifiers different. -/
  serial : Nat := 0
  /-- The uses of the store that fail. -/
  faults : List StoreMethod := []
  /-- The parties that will step in, in the order of their turns. -/
  intrusions : List Intrusion := []
  /-- How many more offers of events are refused. -/
  refusals : Nat := 0
  /-- The runs that were created, in order. -/
  created : List JobId := []
  /-- The timer, while its last step goes on, and the time when it can take the next one. -/
  labor? : Option (Nat × Instant) := none

namespace Rehearsal

variable {δ σ : Type}

def realm (p : Rehearsal δ σ) : Realm δ := p.system.realm

def withRealm (p : Rehearsal δ σ) (r : Realm δ) : Rehearsal δ σ :=
  { p with system := { p.system with realm := r } }

def withStore (p : Rehearsal δ σ) (store : Store) : Rehearsal δ σ :=
  p.withRealm { p.realm with store }

def fresh (p : Rehearsal δ σ) : Uuid :=
  .timeOrdered p.now.millis.toNat p.serial

def tick (p : Rehearsal δ σ) : Rehearsal δ σ :=
  { p with now := p.now.shift Thread.moment, serial := p.serial + 1 }

/-- The text of the store's trouble with a use, if it fails. -/
def fault? (p : Rehearsal δ σ) (use : Option StoreUse) : Option String :=
  use.bind fun u => if p.faults.contains u.method then some u.method.trouble else none

/-- Lets the first party that has waited for it step in before a use of the store that does not
fail. -/
def intrude (p : Rehearsal δ σ) (use : Option StoreUse) : Rehearsal δ σ :=
  match use.bind fun u => Intrusion.first? u p.intrusions with
  | some (i, id, intrusions) => { p.withStore (i.apply p.now id p.realm.store) with intrusions }
  | none => p

/-- Plays the definition that a thread is inside of. -/
def perform (p : Rehearsal δ σ) (i : Nat) : Thread δ → Rehearsal δ σ × Option Ending
  | .worker (.executing record token definition) =>
    let (scene, ending) := p.performer
      ⟨i, .ofRecord record, p.realm.tokens.isRaised token, p.now, p.fresh, p.realm.store⟩
      definition p.scene
    ({ p with scene }, ending)
  | _ => (p, some ⟨.ok none, none⟩)

/-- Takes notice of what a step did: the run it created, and the offers that were refused. -/
def notice (before after : Rehearsal δ σ) : Rehearsal δ σ :=
  let created :=
    (after.realm.store.records.drop before.realm.store.records.length).map (·.id)
  let refused := (after.realm.offers.drop before.realm.offers.length).countP (!·.accepted)
  { after with created := after.created ++ created, refusals := after.refusals - refused }

/-- Lets a thread take a step. Says whether it did. -/
def advance (p : Rehearsal δ σ) (i : Nat) : Bool × Rehearsal δ σ :=
  match p.system.threads[i]? with
  | none => (false, p)
  | some thread =>
    let use := StoreUse.ofThread? thread
    let (p, ending) := p.perform i thread
    match ending with
    | none => (false, p)
    | some ending =>
      let fault := p.fault? use
      let p := if fault.isSome then p else p.intrude use
      let cue : Cue :=
        { now := p.now, fresh := p.fresh, fault, outcome := ending.outcome,
          answers := List.replicate p.refusals false ++ [true] }
      let swept := (ending.sweep.bind fun cutoff => p.system.step (.sweep cutoff)).getD p.system
      match swept.step (.advance i cue) with
      | none => (false, p)
      | some system => (true, (notice { p with system := swept } { p with system }).tick)

def isWorker (p : Rehearsal δ σ) (i : Nat) : Bool :=
  match p.system.threads[i]? with
  | some (.worker _) => true
  | _ => false

/-- Lets the first worker that does not have to wait take a step. Says whether there was one. -/
def advanceWorker (p : Rehearsal δ σ) : Bool × Rehearsal δ σ :=
  (List.range p.system.threads.length).foldl
    (fun (moved, p) i => if !moved && p.isWorker i then p.advance i else (moved, p)) (false, p)

def hasIdleWorker (p : Rehearsal δ σ) : Bool :=
  p.system.threads.any fun
    | .worker .idle => true
    | _ => false

/-- The steps that are played without coming to rest. -/
def patience : Nat := 200000

-- ---------------------------------------------------------------------------
-- The timer
-- ---------------------------------------------------------------------------

def isRestingTimer (p : Rehearsal δ σ) (i : Nat) : Bool :=
  match p.system.threads[i]? with
  | some (.timer .resting) => true
  | _ => false

def restingTimer? (p : Rehearsal δ σ) : Option Nat :=
  (List.range p.system.threads.length).find? p.isRestingTimer

/-- Lets the clock show a time, unless it shows a later one already. -/
def setClock (p : Rehearsal δ σ) (t : Instant) : Rehearsal δ σ :=
  { p with now := if p.now < t then t else p.now }

/-- The time that the next step of a thread takes beyond a moment, if that is long. -/
def laborOf? (p : Rehearsal δ σ) (i : Nat) : Option Int :=
  p.system.threads[i]?.bind (·.labor? p.realm)

/-- Lets the timer finish its pass, or come to a long step, for at most `fuel` steps. -/
def finishPass (i : Nat) : Nat → Rehearsal δ σ → Rehearsal δ σ
  | 0, p => p
  | fuel + 1, p =>
    if p.isRestingTimer i then p
    else
      let labor := p.laborOf? i
      match labor, p.advance i with
      | some time, (true, p) => { p with labor? := some (i, p.now.shift time) }
      | none, (true, p) => finishPass i fuel p
      | _, (false, p) => p

/-- Lets the timer go through the triggers once, if there is a timer at rest. -/
def timerPass (p : Rehearsal δ σ) : Rehearsal δ σ :=
  match p.restingTimer? with
  | some i => finishPass i patience (p.advance i).2
  | none => p

/-- Lets the timer be through with a long step, and go on. -/
def resumePass (p : Rehearsal δ σ) : Rehearsal δ σ :=
  match p.labor? with
  | some (i, ready) => finishPass i patience { p.setClock ready with labor? := none }
  | none => p

/-- The time at which the timer goes on, or begins its next pass. -/
def timerTime? (p : Rehearsal δ σ) : Option Instant :=
  match p.labor? with
  | some (_, ready) => some ready
  | none => p.restingTimer?.bind fun _ => p.realm.triggers.nextFire?

/-- Lets time pass until the timer has something to do, but not beyond a time. -/
def passTime (p : Rehearsal δ σ) (t : Instant) : Rehearsal δ σ :=
  match p.timerTime?.filter (· ≤ t) with
  | some due => if p.labor?.isSome then p.resumePass else (p.setClock due).timerPass
  | none => p.setClock t

/-- Waits for a long step of the timer, and those that follow it, but not beyond a time. -/
def awaitPass (p : Rehearsal δ σ) (t : Instant) : Nat → Rehearsal δ σ
  | 0 => p
  | fuel + 1 => if p.labor?.isSome && p.now < t then (p.passTime t).awaitPass t fuel else p

-- ---------------------------------------------------------------------------
-- Workers and callers
-- ---------------------------------------------------------------------------

/-- The time to skip to while all workers wait: that of the earliest retry. -/
def wakeTime? (p : Rehearsal δ σ) : Option Instant :=
  let q := p.realm.queue
  if p.hasIdleWorker && !q.paused && !q.closed then
    q.wakeTime?.filter fun t => p.now < t
  else none

/-- Lets the workers go on until they all wait, for at most `fuel` steps. Where all wait for a
retry, time skips ahead, to the retry or to the timer if that has something to do before. -/
def settleFor : Nat → Rehearsal δ σ → Rehearsal δ σ
  | 0, p => p
  | fuel + 1, p =>
    match p.advanceWorker with
    | (true, p) => settleFor fuel p
    | (false, p) =>
      match p.wakeTime? with
      | some t => settleFor fuel (p.passTime t)
      | none => p

/-- Lets the workers go on until they all wait, skipping ahead to retries. -/
def settle (p : Rehearsal δ σ) : Rehearsal δ σ :=
  p.settleFor patience

/-- Lets the workers go on until they all wait at the present time, for at most `fuel` steps. -/
def workFor : Nat → Rehearsal δ σ → Rehearsal δ σ
  | 0, p => p
  | fuel + 1, p =>
    match p.advanceWorker with
    | (true, p) => workFor fuel p
    | (false, p) => p

/-- Does a thread wait for a lock that the timer holds during a long step? -/
def awaitsTimer (p : Rehearsal δ σ) (i : Nat) : Bool :=
  p.labor?.isSome &&
    match p.system.threads[i]? with
    | some (.caller (.stopping (.draining _))) => false
    | some (.caller _) => true
    | _ => false

/-- Lets one thread go on until it has to wait for a worker, for at most `fuel` steps. -/
def pursueFor (i : Nat) : Nat → Rehearsal δ σ → Rehearsal δ σ
  | 0, p => p
  | fuel + 1, p =>
    match p.advance i with
    | (true, p) => pursueFor i fuel p
    | (false, p) => if p.awaitsTimer i then pursueFor i fuel p.resumePass else p

/-- Lets one thread go on until it has to wait for a worker. -/
def pursue (p : Rehearsal δ σ) (i : Nat) : Rehearsal δ σ :=
  pursueFor i patience p

/-- The answer that a caller was given, if it was. -/
def answer? (p : Rehearsal δ σ) (i : Nat) : Option Answer :=
  match p.system.threads[i]? with
  | some (.answered answer) => some answer
  | _ => none

/-- Makes a call and follows it as far as it goes. Returns the caller. -/
def place (p : Rehearsal δ σ) (call : Call) : Nat × Rehearsal δ σ :=
  let i := p.system.threads.length
  let system := (p.system.step (.call call)).getD p.system
  (i, { p with system }.pursue i)

/-- Makes a call that does not have to wait for a worker, and returns the answer. -/
def ask (p : Rehearsal δ σ) (call : Call) : Answer × Rehearsal δ σ :=
  let (i, p) := p.place call
  ((p.answer? i).getD (.ok .done), p)

/-- Lets the triggers that are due at a time fire, and the workers do what they can. -/
def goOn (p : Rehearsal δ σ) (t : Instant) : Rehearsal δ σ :=
  let p := if p.labor?.isSome then p.passTime t else (p.setClock t).timerPass
  p.workFor patience

/-- Lets triggers fire, each at its time, until `done` holds, for at most `fuel` passes. -/
def waitFor (p : Rehearsal δ σ) (done : Realm δ → Bool) : Nat → Rehearsal δ σ
  | 0 => p
  | fuel + 1 =>
    if done p.realm then p
    else
      match p.timerTime? with
      | none => p
      | some t => (p.passTime t).settle.waitFor done fuel

end Rehearsal

end BackgroundJobs
