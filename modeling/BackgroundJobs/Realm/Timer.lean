import BackgroundJobs.Realm.Admission

/-!
# Realm — the timer

The timer goes through the triggers again and again. A trigger that is due
makes a run of its request, unless the run before is still active or the
request is not admitted. Nobody else works on the table of triggers meanwhile.
-/

namespace BackgroundJobs

/-- The points of the timer. -/
inductive Timer where
  | resting
  /-- Waits for the table of triggers. -/
  | waiting (now : Instant)
  | passing (now : Instant) (rest : List TriggerId)
  | checking (now : Instant) (id : TriggerId) (last : JobId) (rest : List TriggerId)
  | firing (now : Instant) (id : TriggerId) (rest : List TriggerId) (a : Admission)
      (point : AdmissionPoint)
  | noting (now : Instant) (id : TriggerId) (rest : List TriggerId) (made : Option JobId)
  | retired

namespace Timer

variable {δ : Type}

/-- Begins to make a run of a trigger's request. -/
def fire (cue : Cue) (r : Realm δ) (now : Instant) (id : TriggerId) (rest : List TriggerId)
    (e : TriggerEntry) : Timer :=
  match Admission.make r (e.template.instanceOf cue.fresh) (some id) with
  | .ok a => .firing now id rest a .waiting
  | .error _ => .noting now id rest none

/-- One step of the timer; none while it has to wait. -/
def step (cue : Cue) (r : Realm δ) : Timer → Option (Realm δ × Timer)
  | .resting => some (r, if r.stopping then .retired else .waiting cue.now)
  | .waiting now =>
    if r.triggersHeld then none
    else some ({ r with triggersHeld := true }, .passing now (r.triggers.map (·.1)))
  | .passing _ [] => some ({ r with triggersHeld := false }, .resting)
  | .passing now (id :: rest) =>
    match r.triggers.find? id with
    | none => some (r, .passing now rest)
    | some e =>
      if e.isDue now then
        let r := { r with triggers := r.triggers.modify id (·.advance now) }
        match e.lastJob with
        | some last => some (r, .checking now id last rest)
        | none => some (r, fire cue r now id rest e)
      else some (r, .passing now rest)
  | .checking now id last rest =>
    let active :=
      match r.ask cue (·.find? last) with
      | .ok record => record.any (·.isActive)
      -- Whether the run is over cannot be told, so it is taken to go on.
      | .error _ => true
    match active, r.triggers.find? id with
    | false, some e => some (r, fire cue r now id rest e)
    | _, _ => some (r, .noting now id rest none)
  | .firing now id rest a point =>
    (a.step cue r point).map fun
      | (r, .at point) => (r, .firing now id rest a point)
      | (r, .done (.ok record)) => (r, .noting now id rest (some record.id))
      | (r, .done (.error _)) => (r, .noting now id rest none)
  | .noting now id rest (some job) =>
    some ({ r with
        triggers := r.triggers.modify id (·.noteSpawned job)
        counters := { r.counters with triggersFired := r.counters.triggersFired + 1 } },
      .passing now rest)
  | .noting now id rest none =>
    some ({ r with
        triggers := r.triggers.modify id (·.noteSkipped)
        counters := { r.counters with triggersSkipped := r.counters.triggersSkipped + 1 } },
      .passing now rest)
  | .retired => none

end Timer

end BackgroundJobs
