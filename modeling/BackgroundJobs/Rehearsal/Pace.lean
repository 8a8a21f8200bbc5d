import BackgroundJobs.Realm.System

/-!
# Rehearsal — how long the steps take

A realm has no clock for its steps: its threads go on at any speed, and every
order of their steps is a run. A rehearsal plays one of these runs, and has to
say who comes first. It takes a step to be done in a moment, as the work of a step
is small, but for one kind: a check of constraints compares the texts of a request
with those of the active runs, byte by byte and once for every name that it is
given, so requests can be made that keep a thread busy while the others get far.

The figures stand for the machine that a realm works on. They are no part of the
realm, and only tell a long step from a short one: whatever they say, what is
played is a run.
-/

namespace BackgroundJobs

/-- The bytes that are compared to tell whether two arguments are the same: those of texts of the
same length. -/
def Argument.compared : Argument → Argument → Nat
  | .str a, .str b => if a.utf8ByteSize = b.utf8ByteSize then a.utf8ByteSize else 0
  | _, _ => 0

/-- The bytes that are compared to tell whether the active runs let a request pass. -/
def Constraint.compared (jobKey : String) (arguments : Arguments) (active : List JobRecord) :
    Constraint → Nat
  | .uniqueByArguments names =>
    match wanted? names arguments with
    | none => 0
    | some wanted =>
      let rivals := active.filter (·.jobKey == jobKey)
      rivals.foldl (fun n r => wanted.foldl (fun n (name, value) =>
        n + ((r.arguments.get? name).map value.compared).getD 0) n) 0
  | _ => 0

def JobRequest.compared (request : JobRequest) (active : List JobRecord) : Nat :=
  request.constraints.foldl (fun n c => n + c.compared request.jobKey request.arguments active) 0

namespace Thread

variable {δ : Type}

/-- The time that a step takes that does little, in nanoseconds. -/
def moment : Int := 1000

/-- The bytes that a machine compares in a nanosecond, roughly: it compares whole words. -/
def compareRate : Int := 10

/-- The time that the next step of a thread takes beyond a moment, in nanoseconds, if that is more
than another moment: only the timer's steps are followed that closely. -/
def labor? (r : Realm δ) : Thread δ → Option Int
  | .timer (.firing _ _ _ a .checking) =>
    let time := a.request.compared (r.store.listActive Filter.all) / compareRate
    if moment < time then some time else none
  | _ => none

end Thread

end BackgroundJobs
