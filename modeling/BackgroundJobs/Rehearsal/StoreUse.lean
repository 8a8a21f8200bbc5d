import BackgroundJobs.Realm.System

/-!
# Rehearsal — what a thread is about to ask of the store

In a rehearsal the store can be made to fail, and another party can be made to
step in just before the store is used. Both look at the use that the next step
of a thread makes of the store.
-/

namespace BackgroundJobs

/-- The kinds of use of the store. -/
inductive StoreMethod where
  | create
  | transition
  | requestCancel
  | find
  | listActive
  | list
  | deleteTerminal
  | deleteBefore
  | count
  deriving DecidableEq, Repr

namespace StoreMethod

/-- The name of a kind of use, as messages give it. -/
def text : StoreMethod → String
  | create => "create"
  | transition => "cas"
  | requestCancel => "request_cancel"
  | find => "find_by_id"
  | listActive => "find_active"
  | list => "list"
  | deleteTerminal => "delete_terminal"
  | deleteBefore => "delete_before"
  | count => "stats"

def all : List StoreMethod :=
  [create, transition, requestCancel, find, listActive, list, deleteTerminal, deleteBefore, count]

def ofText? (s : String) : Option StoreMethod :=
  all.find? fun m => m.text == s

/-- What the store says of a use that fails. -/
def trouble (m : StoreMethod) : String :=
  m.text ++ " unavailable"

end StoreMethod

/-- A use of the store: for a change of state or a mark, also which record it is about. -/
inductive StoreUse where
  | transition (id : JobId) (target : JobState)
  | requestCancel (id : JobId)
  | other (method : StoreMethod)
  deriving DecidableEq

namespace StoreUse

def method : StoreUse → StoreMethod
  | transition .. => .transition
  | requestCancel _ => .requestCancel
  | other m => m

/-- The record that a change of state or a mark is about. -/
def record? : StoreUse → Option JobId
  | transition id _ => some id
  | requestCancel id => some id
  | other _ => none

/-- The use that the next step of an admission makes. -/
def ofAdmission? : AdmissionPoint → Option StoreUse
  | .checking => some (.other .listActive)
  | .creating _ => some (.other .create)
  | _ => none

/-- The use that the first step of a call makes. -/
def ofCall? : Call → Option StoreUse
  | .status _ => some (.other .find)
  | .list _ | .listGroup _ => some (.other .list)
  | .delete _ => some (.other .deleteTerminal)
  | .purge => some (.other .deleteBefore)
  | .stats => some (.other .count)
  | _ => none

/-- The use that the next step of a call makes. -/
def ofPoint? : CallPoint → Option StoreUse
  | .made call => ofCall? call
  | .admitting _ point => ofAdmission? point
  | .starting .listing => some (.other .list)
  | .starting (.recovering (record :: _)) =>
    if record.state = .running then some (.transition record.id .interrupted) else none
  | .stopping (.interrupting id ..) => some (.transition id .interrupted)
  | .canceling (.looking _) => some (.other .find)
  | .canceling (.revoking id) => some (.transition id .canceled)
  | .canceling (.marking id) => some (.requestCancel id)
  | _ => none

/-- The use that the next step of the timer makes. -/
def ofTimer? : Timer → Option StoreUse
  | .checking .. => some (.other .find)
  | .firing _ _ _ _ point => ofAdmission? point
  | _ => none

/-- The use that the next step of a worker makes. -/
def ofWorker? {δ : Type} : Worker δ → Option StoreUse
  | .claiming id _ => some (.transition id .running)
  | .recording record t => some (.transition record.id t.target)
  | .withdrawing record => some (.transition record.id .canceled)
  | _ => none

/-- The use that the next step of a thread makes. -/
def ofThread? {δ : Type} : Thread δ → Option StoreUse
  | .caller point => ofPoint? point
  | .worker w => ofWorker? w
  | .timer t => ofTimer? t
  | .answered _ => none

end StoreUse

/-- What another party does to a record. -/
inductive Meddling where
  /-- Changes the state, whatever it is. -/
  | transition (t : Transition)
  | requestCancel
  /-- Deletes the record if it is terminal. -/
  | delete

namespace Meddling

/-- The store after another party's doing; what fails changes nothing. -/
def apply (now : Instant) (id : JobId) (s : Store) : Meddling → Store
  | transition t =>
    match s.find? id with
    | none => s
    | some r =>
      match s.transition id r.state t now with
      | .ok (_, s) => s
      | .error _ => s
  | requestCancel =>
    match s.requestCancel id now with
    | .ok (_, s) => s
    | .error _ => s
  | delete => (s.deleteTerminal [id]).2

end Meddling

/-- Another party that steps in once, just before the store is used in a certain way. -/
structure Intrusion where
  method : StoreMethod
  /-- For a change of state: only if it leads to this state. -/
  target : Option JobState
  doings : List Meddling

namespace Intrusion

/-- Does the party step in before this use? If so, it meddles with the record of that id. -/
def victim? (i : Intrusion) (use : StoreUse) : Option JobId :=
  if i.method ≠ use.method then none
  else
    match use, i.target with
    | .transition id target, some wanted => if target = wanted then some id else none
    | use, _ => use.record?

/-- The first of several parties to step in before this use, with the record that it meddles with
and the parties that are left. -/
def first? (use : StoreUse) : List Intrusion → Option (Intrusion × JobId × List Intrusion)
  | [] => none
  | i :: rest =>
    match i.victim? use with
    | some id => some (i, id, rest)
    | none => (first? use rest).map fun (j, id, rest) => (j, id, i :: rest)

def apply (i : Intrusion) (now : Instant) (id : JobId) (s : Store) : Store :=
  i.doings.foldl (fun s m => m.apply now id s) s

end Intrusion

end BackgroundJobs
