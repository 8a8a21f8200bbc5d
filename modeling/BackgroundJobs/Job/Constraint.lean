import BackgroundJobs.Job.Record

/-!
# Job — admission constraints

A constraint decides whether a request may join the active runs: the queued and
running ones, at the moment of its admission. Two kinds are built in; besides
them a caller may attach any check of its own.
-/

namespace BackgroundJobs

/-- Why a request was turned away. -/
structure Violation where
  constraint : String
  reason : String
  deriving DecidableEq, Repr

def Violation.message (v : Violation) : String :=
  v.constraint ++ ": " ++ v.reason

/-- A condition on joining the active runs. -/
inductive Constraint where
  /-- No active run of the same job has the same values for all the named arguments. -/
  | uniqueByArguments (names : List String)
  /-- Fewer active runs of the same job than the limit. -/
  | maxActivePerKey (limit : Nat)
  /-- A condition of the caller's: its name, and its verdict on a job, the arguments for it and the
  active runs. Whatever else it goes by, the caller knows when it is attached. -/
  | custom (name : String)
      (check : String → Arguments → List JobRecord → Except Violation Unit)

namespace Constraint

/-- The condition that is never met: the job is closed, for the reason given. -/
def closed (name reason : String) : Constraint :=
  .custom name fun _ _ _ => .error ⟨name, reason⟩

/-- Is the constraint one of those that need no check of the caller's? -/
def BuiltIn : Constraint → Prop
  | uniqueByArguments _ | maxActivePerKey _ => True
  | custom _ _ => False

/-- A built-in constraint can be told from every other one. -/
def decidableEqOfBuiltIn : (c d : Constraint) → c.BuiltIn → Decidable (c = d)
  | uniqueByArguments names, uniqueByArguments names', _ =>
    decidable_of_iff (names = names') ⟨congrArg _, uniqueByArguments.inj⟩
  | maxActivePerKey limit, maxActivePerKey limit', _ =>
    decidable_of_iff (limit = limit') ⟨congrArg _, maxActivePerKey.inj⟩
  | uniqueByArguments _, maxActivePerKey _, _ | uniqueByArguments _, custom _ _, _ => isFalse nofun
  | maxActivePerKey _, uniqueByArguments _, _ | maxActivePerKey _, custom _ _, _ => isFalse nofun
  | custom _ _, _, hBuiltIn => hBuiltIn.elim

def decidableMemOfBuiltIn (c : Constraint) (hBuiltIn : c.BuiltIn) (constraints : List Constraint) :
    Decidable (c ∈ constraints) :=
  haveI := fun d => decidableEqOfBuiltIn c d hBuiltIn
  decidable_of_iff (∃ d ∈ constraints, c = d) exists_eq_right'

instance (names : List String) (constraints : List Constraint) :
    Decidable (uniqueByArguments names ∈ constraints) :=
  decidableMemOfBuiltIn (uniqueByArguments names) trivial constraints

instance (limit : Nat) (constraints : List Constraint) :
    Decidable (maxActivePerKey limit ∈ constraints) :=
  decidableMemOfBuiltIn (maxActivePerKey limit) trivial constraints

/-- The names of a uniqueness constraint as messages list them. -/
def nameList (names : List String) : String :=
  ", ".intercalate names

def name : Constraint → String
  | uniqueByArguments names => "unique_by_arguments(" ++ nameList names ++ ")"
  | maxActivePerKey _ => "max_active_per_key"
  | custom name _ => name

/-- The values that a request has for the named arguments, if it has them all. -/
def wanted? (names : List String) (arguments : Arguments) : Option (List (String × Argument)) :=
  names.mapM fun name => (arguments.get? name).map (Prod.mk name)

/-- Does a record carry all the given values? -/
def carries (wanted : List (String × Argument)) (r : JobRecord) : Bool :=
  wanted.all fun (name, value) => (r.arguments.get? name).any (·.same value)

/-- The verdict on a request for a job with the given arguments. -/
def test (c : Constraint) (jobKey : String) (arguments : Arguments) (active : List JobRecord) :
    Except Violation Unit :=
  match c with
  | uniqueByArguments names =>
    match wanted? names arguments with
    -- Without a value there is nothing to be unique on.
    | none => .ok ()
    | some wanted =>
      match active.find? fun r => r.jobKey == jobKey && carries wanted r with
      | none => .ok ()
      | some r =>
        .error ⟨c.name, s!"job {r.id} ({r.jobKey}) is already {r.state} for the same " ++
          nameList names⟩
  | maxActivePerKey limit =>
    let count := (active.filter (·.jobKey == jobKey)).length
    if count < limit then .ok ()
    else .error ⟨c.name, s!"{count} active {jobKey} jobs (limit {limit})"⟩
  | custom _ check => check jobKey arguments active

end Constraint

end BackgroundJobs
