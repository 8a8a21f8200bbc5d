import BackgroundJobs.Job.Context

/-!
# Task — refreshing an owner's compliance

A refresh recomputes the compliance of each of an owner's consumers and counts
the verdicts. It can be stopped between two consumers.
-/

namespace BackgroundJobs

/-- The verdict on a consumer. -/
inductive Compliance where
  | valid
  | partly
  | invalid
  deriving DecidableEq, Repr, Inhabited

namespace Compliance

def text : Compliance → String
  | valid => "valid"
  | partly => "partial"
  | invalid => "invalid"

def toJson (c : Compliance) : Json := .str c.text

def ofJson? (j : Json) : Option Compliance := do
  let name ← j.toCaseName?
  [valid, partly, invalid].find? fun c => c.text == name

end Compliance

/-- Why compliance could not be had. -/
inductive ComplianceError where
  | ownerNotFound (owner : String)
  | unavailable (text : String)
  deriving DecidableEq, Repr

namespace ComplianceError

def message : ComplianceError → String
  | ownerNotFound owner => "owner " ++ owner ++ " does not exist"
  | unavailable text => "compliance source unavailable: " ++ text

/-- The error as the end of an attempt: only an unavailable source is worth another one. -/
def toExecutionError : ComplianceError → ExecutionError
  | e@(ownerNotFound _) => .fatal e.message
  | e@(unavailable _) => .transient e.message

end ComplianceError

/-- Where consumers and their compliance come from. -/
structure ComplianceSource where
  /-- The consumers of an owner. -/
  consumers : String → Except ComplianceError (List String)
  /-- The compliance of a consumer. -/
  recompute : String → Except ComplianceError Compliance

-- ---------------------------------------------------------------------------
-- A source held in memory
-- ---------------------------------------------------------------------------

/-- The consumers of one owner with their verdicts. -/
structure ComplianceEntry where
  owner : String
  consumers : List (String × Compliance)
  deriving DecidableEq

/-- Compliance data by owner. -/
structure ComplianceBook where
  entries : List ComplianceEntry := []
  deriving DecidableEq

namespace ComplianceBook

/-- Sets a verdict in a list of consumers, in the consumer's place if it has one. -/
def setVerdict (consumer : String) (verdict : Compliance) :
    List (String × Compliance) → List (String × Compliance)
  | [] => [(consumer, verdict)]
  | (c, v) :: rest =>
    if c = consumer then (c, verdict) :: rest else (c, v) :: setVerdict consumer verdict rest

def setEntry (owner consumer : String) (verdict : Compliance) :
    List ComplianceEntry → List ComplianceEntry
  | [] => [⟨owner, [(consumer, verdict)]⟩]
  | e :: rest =>
    if e.owner = owner then { e with consumers := setVerdict consumer verdict e.consumers } :: rest
    else e :: setEntry owner consumer verdict rest

/-- Sets the verdict on a consumer of an owner. -/
def set (b : ComplianceBook) (owner consumer : String) (verdict : Compliance) : ComplianceBook :=
  ⟨setEntry owner consumer verdict b.entries⟩

/-- The consumers of an owner that has any. -/
def consumers (b : ComplianceBook) (owner : String) : Except ComplianceError (List String) :=
  match b.entries.find? (·.owner == owner) with
  | some e => .ok (e.consumers.map (·.1))
  | none => .error (.ownerNotFound owner)

/-- The verdict on a consumer: the first one of that name, whoever owns it. -/
def recompute (b : ComplianceBook) (consumer : String) : Except ComplianceError Compliance :=
  match (b.entries.flatMap (·.consumers)).lookup consumer with
  | some verdict => .ok verdict
  | none => .error (.unavailable ("no data for " ++ consumer))

def source (b : ComplianceBook) : ComplianceSource := ⟨b.consumers, b.recompute⟩

end ComplianceBook

-- ---------------------------------------------------------------------------
-- The refresh
-- ---------------------------------------------------------------------------

/-- The verdicts on an owner's consumers, counted. -/
structure ComplianceSummary where
  owner : String
  consumers : Nat := 0
  valid : Nat := 0
  partly : Nat := 0
  invalid : Nat := 0
  deriving DecidableEq, Repr

namespace ComplianceSummary

def add (s : ComplianceSummary) (verdict : Compliance) : ComplianceSummary :=
  let s := { s with consumers := s.consumers + 1 }
  match verdict with
  | .valid => { s with valid := s.valid + 1 }
  | .partly => { s with partly := s.partly + 1 }
  | .invalid => { s with invalid := s.invalid + 1 }

def toJson (s : ComplianceSummary) : Json :=
  .object [("owner_key", .str s.owner), ("consumers", .int s.consumers), ("valid", .int s.valid),
    ("partial", .int s.partly), ("invalid", .int s.invalid)]

end ComplianceSummary

/-- Recomputes consumers one after the other. `canceled` says whether the run has been told to
stop by the time that the given consumers have been recomputed. -/
def tally (source : ComplianceSource) (canceled : List String → Bool) (before : List String)
    (summary : ComplianceSummary) : List String → Except ExecutionError ComplianceSummary
  | [] => .ok summary
  | consumer :: rest => do
    JobContext.checkpoint (canceled before)
    match source.recompute consumer with
    | .error e => throw e.toExecutionError
    | .ok verdict => tally source canceled (before ++ [consumer]) (summary.add verdict) rest

namespace ComplianceSummary

def jobKey : String := "refresh_compliance"

def ownerArg : String := "owner_key"

/-- The draft of a run that refreshes an owner's compliance. At most one refresh of an owner is
active at a time. -/
def draft (owner : String) : Draft :=
  Draft.setAll { jobKey }
    [.argument ownerArg (.str owner), .owner owner, .constraint (.uniqueByArguments [ownerArg])]

end ComplianceSummary

/-- The outcome of a refresh run with the given arguments. -/
def refreshOutcome (source : ComplianceSource) (canceled : List String → Bool) (args : Arguments) :
    Outcome := do
  let owner ← (args.getStr ComplianceSummary.ownerArg).mapError ExecutionError.ofArgument
  let consumers ← (source.consumers owner).mapError ComplianceError.toExecutionError
  let summary ← tally source canceled [] { owner } consumers
  pure (some summary.toJson)

end BackgroundJobs
