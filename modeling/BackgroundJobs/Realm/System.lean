import BackgroundJobs.Realm.Call
import BackgroundJobs.Realm.Timer
import BackgroundJobs.Realm.Worker

/-!
# Realm — threads and runs

A realm and the threads that act on it. Callers come at any time; a start that
succeeds brings the workers and the timer. At every moment any thread that does
not have to wait may take its next step, so the runs of a system are all the
interleavings of its threads.
-/

namespace BackgroundJobs

/-- A thread and the point it has reached. -/
inductive Thread (δ : Type) where
  | caller (point : CallPoint)
  | worker (w : Worker δ)
  | timer (t : Timer)
  /-- A caller that was answered. -/
  | answered (answer : Answer)

/-- A realm and its threads. A thread is named by its place in the list. -/
structure System (δ : Type) where
  realm : Realm δ
  threads : List (Thread δ) := []

/-- What happens next in a system. -/
inductive Event where
  /-- A caller comes. -/
  | call (call : Call)
  /-- A thread takes a step. -/
  | advance (thread : Nat) (cue : Cue)
  /-- A definition deletes the records of runs that finished before the given time. -/
  | sweep (cutoff : Instant)

namespace Thread

variable {δ : Type}

/-- One step of a thread, with the threads that it brings; none while it has to wait. -/
def step (cue : Cue) (r : Realm δ) : Thread δ → Option (Realm δ × Thread δ × List (Thread δ))
  | caller point =>
    (point.step cue r).map fun
      | (r', .at point) => (r', caller point, [])
      | (r', .done answer) =>
        let crew :=
          match point with
          | .starting .opening =>
            List.replicate (max r.settings.workers 1) (worker .idle) ++ [timer .resting]
          | _ => []
        (r', answered answer, crew)
  | worker w => (w.step cue r).map fun (r, w) => (r, worker w, [])
  | timer t => (t.step cue r).map fun (r, t) => (r, timer t, [])
  | answered _ => none

end Thread

namespace System

variable {δ : Type}

/-- A realm that nobody acts on. -/
def ofRealm (r : Realm δ) : System δ := ⟨r, []⟩

/-- What an event makes of a system; none if the thread that it names has to wait. -/
def step (s : System δ) : Event → Option (System δ)
  | .call call => some { s with threads := s.threads ++ [.caller (.made call)] }
  | .advance i cue => do
    let thread ← s.threads[i]?
    let (realm, thread, crew) ← thread.step cue s.realm
    pure ⟨realm, s.threads.set i thread ++ crew⟩
  | .sweep cutoff =>
    some { s with realm := { s.realm with store := (s.realm.store.deleteFinishedBefore cutoff).2 } }

/-- What a list of events makes of a system. -/
def run (s : System δ) : List Event → Option (System δ)
  | [] => some s
  | e :: rest => (s.step e).bind fun t => t.run rest

end System

end BackgroundJobs
