import BackgroundJobs.Job.Error

/-!
# Job — requests and how they are put together

A request says what to run, with which arguments, under which constraints and
when. It is drafted setting by setting. A setting that cannot be made is
remembered, later ones are made all the same, and the finished draft reports
the first that went wrong.
-/

namespace BackgroundJobs

/-- A fully assembled request. -/
structure JobRequest where
  jobKey : String
  name : String
  /-- The wanted group; none means the default group of the realm. -/
  group : Option String
  arguments : Arguments
  metadata : Metadata
  constraints : List Constraint
  retryPolicy : Option RetryPolicy
  trigger : Trigger

namespace JobRequest

/-- The generated name of a run: the job's key and a fresh identifier. -/
def defaultName (jobKey : String) (fresh : Uuid) : String :=
  jobKey ++ "-" ++ fresh.text

/-- The request that a firing of this recurring one makes: to run once, under a fresh name. -/
def instanceOf (template : JobRequest) (fresh : Uuid) : JobRequest :=
  { template with name := defaultName template.jobKey fresh, trigger := .immediate }

/-- The verdict of the first constraint, in order, that turns the request away. -/
def check (request : JobRequest) (active : List JobRecord) : Except Violation Unit :=
  request.constraints.forM fun c => c.test request.jobKey request.arguments active

/-- The record that an admitted request begins with. -/
def toRecord (request : JobRequest) (id : JobId) (group : String) (policy : RetryPolicy)
    (triggerId : Option TriggerId) (now : Instant) : JobRecord where
  id
  jobKey := request.jobKey
  name := request.name
  group
  arguments := request.arguments
  metadata := request.metadata
  state := .queued
  attempts := 0
  retryPolicy := policy
  createdAt := now
  updatedAt := now
  startedAt := none
  finishedAt := none
  result := none
  error := none
  history := []
  triggerId
  cancelRequested := false

end JobRequest

-- ---------------------------------------------------------------------------
-- Drafts
-- ---------------------------------------------------------------------------

/-- One setting of a draft. -/
inductive Setting where
  | name (name : String)
  | group (group : String)
  /-- An argument. A second one for the same key is an error. -/
  | argument (key : String) (value : Argument)
  /-- A structured argument, or the reason why it could not be encoded. -/
  | jsonArgument (key : String) (value : Except String Json)
  | metadata (key value : String)
  | constraint (c : Constraint)
  | retryPolicy (p : RetryPolicy)
  | trigger (t : Trigger)

namespace Setting

def owner (name : String) : Setting := .metadata ownerKey name

/-- Sets the least severe level that the run logs at. -/
def logLevel (level : String) : Setting := .metadata logLevelKey level

end Setting

/-- A request in the making. -/
structure Draft where
  jobKey : String
  name : Option String := none
  group : Option String := none
  arguments : Arguments := Dict.empty
  metadata : Metadata := Dict.empty
  constraints : List Constraint := []
  retryPolicy : Option RetryPolicy := none
  trigger : Trigger := .immediate
  /-- The first setting that could not be made. -/
  error : Option JobError := none

namespace Draft

/-- Remembers an error unless there has been one. -/
def report (d : Draft) (e : JobError) : Draft :=
  { d with error := d.error.or (some e) }

def addArgument (d : Draft) (key : String) (value : Argument) : Draft :=
  if d.arguments.contains key then d.report (.duplicateArgument key)
  else { d with arguments := d.arguments.insert key value }

def set (d : Draft) : Setting → Draft
  | .name name => { d with name := some name }
  | .group group => { d with group := some group }
  | .argument key value => d.addArgument key value
  | .jsonArgument key (.ok value) => d.addArgument key (.json value)
  | .jsonArgument key (.error text) => d.report (.invalidArgument key text)
  | .metadata key value => { d with metadata := d.metadata.insert key value }
  | .constraint c => { d with constraints := d.constraints ++ [c] }
  | .retryPolicy p => { d with retryPolicy := some p }
  | .trigger t => { d with trigger := t }

def setAll (d : Draft) (settings : List Setting) : Draft :=
  settings.foldl set d

/-- The drafted request, under a fresh name if it has none. -/
def build (d : Draft) (fresh : Uuid) : Except JobError JobRequest :=
  match d.error with
  | some e => .error e
  | none =>
    .ok {
      jobKey := d.jobKey
      name := d.name.getD (JobRequest.defaultName d.jobKey fresh)
      group := d.group
      arguments := d.arguments
      metadata := d.metadata
      constraints := d.constraints
      retryPolicy := d.retryPolicy
      trigger := d.trigger }

end Draft

end BackgroundJobs
