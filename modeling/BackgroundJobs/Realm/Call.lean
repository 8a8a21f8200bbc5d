import BackgroundJobs.Realm.Admission
import BackgroundJobs.Realm.Cancellation
import BackgroundJobs.Realm.Registration
import BackgroundJobs.Realm.Shutdown
import BackgroundJobs.Realm.Startup
import BackgroundJobs.Task.Purge

/-!
# Realm — calls

What a caller can ask of a realm, and the replies. Some calls are a single
step; the others go through several, with steps of other threads in between.
-/

namespace BackgroundJobs

/-- What a caller asks of a realm. -/
inductive Call where
  | submit (request : JobRequest)
  | start
  | shutdown
  | pause
  | unpause
  | cancel (id : JobId)
  | status (id : JobId)
  | list (filter : Filter)
  | listGroup (group : String)
  | schedule (request : JobRequest)
  | declare (entries : List RecurringSettings)
  | reschedule (id : TriggerId) (schedule : Schedule)
  | unschedule (id : TriggerId)
  | triggers
  | delete (ids : List JobId)
  | purge
  | stats

/-- What a realm replies. -/
inductive Reply where
  | done
  | job (id : JobId)
  | record (record : JobRecord)
  | records (records : List JobRecord)
  | trigger (id : TriggerId)
  | triggers (ids : List TriggerId)
  | info (info : TriggerInfo)
  | infos (infos : List TriggerInfo)
  | count (n : Nat)
  | stats (stats : RealmStats)
  | report (report : ShutdownReport)

abbrev Answer := Except JobError Reply

/-- The points of a call. -/
inductive CallPoint where
  /-- The call has been made and nothing has happened yet. -/
  | made (call : Call)
  | admitting (a : Admission) (point : AdmissionPoint)
  | starting (point : Startup)
  | stopping (point : Shutdown)
  | canceling (point : Cancellation)
  | scheduling (point : Registration)
  | declaring (point : Declaration)

namespace Call

variable {δ : Type}

/-- The state of a realm and how a call ended in it. -/
abbrev Ended (δ : Type) := Option (Realm δ × Progress CallPoint Answer)

def finish (r : Realm δ) (answer : Answer) : Ended δ :=
  some (r, .done answer)

/-- Goes on at a point of a call. -/
def goOn (r : Realm δ) (point : CallPoint) : Ended δ :=
  some (r, .at point)

/-- Ends a call on the triggers, which waits while the timer works on them. -/
def onTrigger (r : Realm δ) (id : TriggerId)
    (change : TriggerEntry → TriggerInfo × Triggers) : Ended δ :=
  if r.triggersHeld then none
  else
    match r.triggers.find? id with
    | none => finish r (.error (.triggerNotFound id))
    | some e =>
      let (info, table) := change e
      finish { r with triggers := table } (.ok (.info info))

/-- The reply of the store, or its error. -/
def storeAnswer {α : Type} (reply : α → Reply) : Except StoreError α → Answer
  | .ok a => .ok (reply a)
  | .error e => .error (.store e)

/-- The first step of a call; none while it has to wait. -/
def begin (cue : Cue) (r : Realm δ) : Call → Ended δ
  | .submit request =>
    if r.stopping then finish r (.error (.shutDown r.settings.name))
    else if request.trigger.isRecurring then
      finish r (.error (.invalidTrigger (.recurring request.jobKey)))
    else
      match Admission.make r request none with
      | .error e => finish r (.error e)
      | .ok a => goOn r (.admitting a .waiting)
  | .start => goOn r (.starting .waiting)
  | .shutdown => goOn r (.stopping .waiting)
  | .pause => finish { r with queue := r.queue.pause } (.ok .done)
  | .unpause => finish { r with queue := r.queue.unpause } (.ok .done)
  | .cancel id => goOn r (.canceling (.looking id))
  | .status id => finish r ((r.find cue id).map .record)
  | .list filter => finish r (storeAnswer .records (r.ask cue (·.list filter)))
  | .listGroup group =>
    finish r (do
      let group ← r.resolveGroup (some group)
      storeAnswer .records (r.ask cue (·.list { groups := [group] })))
  | .schedule request => goOn r (.scheduling (.opening request))
  | .declare entries => goOn r (.declaring (.next entries []))
  | .reschedule id times =>
    onTrigger r id fun e =>
      let e := e.reschedule times cue.now
      (.ofEntry id e, r.triggers.modify id fun _ => e)
  | .unschedule id => onTrigger r id fun e => (.ofEntry id e, r.triggers.erase id)
  | .triggers => if r.triggersHeld then none else finish r (.ok (.infos r.triggers.infos))
  | .delete ids =>
    let (result, r) := r.tell cue fun s => .ok (s.deleteTerminal ids)
    finish r (storeAnswer .count result)
  | .purge =>
    match Purge.cutoff? r.settings.retention cue.now with
    | none => finish r (.ok (.count 0))
    | some cutoff =>
      let (result, r) := r.tell cue fun s => .ok (s.deleteFinishedBefore cutoff)
      finish r (storeAnswer .count result)
  | .stats => finish r (.ok (.stats (r.stats cue)))

end Call

namespace CallPoint

variable {δ : Type}

/-- What a call makes of the progress of the procedure that it follows. -/
def lift {σ ρ : Type} (point : σ → CallPoint) (answer : ρ → Answer) :
    Realm δ × Progress σ ρ → Realm δ × Progress CallPoint Answer
  | (r, .at p) => (r, .at (point p))
  | (r, .done a) => (r, .done (answer a))

/-- One step of a call; none while it has to wait. -/
def step (cue : Cue) (r : Realm δ) : CallPoint → Option (Realm δ × Progress CallPoint Answer)
  | .made call => call.begin cue r
  | .admitting a point =>
    (a.step cue r point).map (lift (.admitting a) (·.map fun record => .job record.id))
  | .starting point => (point.step cue r).map (lift .starting (·.map fun _ => .done))
  | .stopping point => (point.step cue r).map (lift .stopping fun report => .ok (.report report))
  | .canceling point => some (lift .canceling (·.map .record) (point.step cue r))
  | .scheduling point => (point.step cue r).map (lift .scheduling (·.map .trigger))
  | .declaring point => (point.step cue r).map (lift .declaring (·.map .triggers))

end CallPoint

end BackgroundJobs
