import BackgroundJobs.Json.Lenient
import BackgroundJobs.Rehearsal.StoreUse
import BackgroundJobs.Settings.Retry
import BackgroundJobs.Task.Export

/-!
# Rehearsal — what scenario documents say

A scenario document writes requests as lists of settings and records by a few
of their fields, and has short forms for retry policies, changes of state and
filters. What it leaves out is empty.
-/

namespace BackgroundJobs

/-- Why a scenario document cannot be followed. -/
inductive DocumentError where
  | badArguments
  | badPolicy
  | badState
  | badRecord
  /-- No step has this name. -/
  | badStep
  | schedule (e : ScheduleError)

namespace DocumentError

def orElse {α : Type} (e : DocumentError) (a : Option α) : Except DocumentError α :=
  match a with
  | some a => .ok a
  | none => .error e

def ofSchedule {α : Type} (r : Except ScheduleError α) : Except DocumentError α :=
  r.mapError schedule

end DocumentError

/-- The argument that a document writes in stored form. -/
def Argument.ofDocument (j : Json) : Except DocumentError Argument :=
  DocumentError.badArguments.orElse (Argument.ofJson? j)

/-- The arguments that a document writes in stored form, if it writes any. -/
def Arguments.ofDocument : Json → Except DocumentError Arguments
  | .null => .ok Dict.empty
  | j => DocumentError.badArguments.orElse (Arguments.ofJson? j)

def JobState.ofDocument (j : Json) : Except DocumentError JobState :=
  DocumentError.badState.orElse (JobState.ofJson? j)

/-- The retry policy that a document writes: by name, by its numbers, as settings or in stored
form. -/
def RetryPolicy.ofDocument : Json → Except DocumentError RetryPolicy
  | .str name => .ok (if name == "no_retry" then .noRetry else .standard)
  | j =>
    let millis (l : Json) (i : Nat) : Duration := .ofMillis (l.item i).natural
    match j.field? "fixed", j.field? "exponential", j.field? "settings" with
    | some l, _, _ => .ok (.constant (l.item 0).natural (millis l 1))
    | none, some l, _ => .ok (.doubling (l.item 0).natural (millis l 1) (millis l 2))
    | none, none, some settings =>
      DocumentError.badPolicy.orElse ((RetrySettings.ofJson? .strict settings).map (·.toPolicy))
    | none, none, none => DocumentError.badPolicy.orElse (RetryPolicy.ofJson? (j.field "policy"))

/-- The setting that a list names, with its values. -/
def Setting.ofDocument (j : Json) : Except DocumentError Setting :=
  let text (i : Nat) : String := (j.item i).text
  let argument (a : Argument) : Except DocumentError Setting := .ok (.argument (text 1) a)
  match text 0 with
  | "name" => .ok (.name (text 1))
  | "group" => .ok (.group (text 1))
  | "arg" => (Argument.ofDocument (j.item 2)).bind argument
  | "str" => argument (.str (text 2))
  | "opt" => argument (ExportRequest.optionalText (j.item 2).toStr?)
  | "int" => argument (.int ((j.item 2).toInt64?.getD 0))
  | "float" => argument (.float (j.item 2).fraction)
  | "bool" => argument (.bool (j.item 2).isTrue)
  | "value" => argument (.json (j.item 2))
  | "json_arg" => .ok (.jsonArgument (text 1) (.ok (j.item 2)))
  | "bad_json_arg" => .ok (.jsonArgument (text 1) (.error "cannot encode"))
  | "meta" => .ok (.metadata (text 1) (text 2))
  | "owner" => .ok (.owner (text 1))
  | "log_level" => .ok (.logLevel (text 1))
  | "unique_one" => .ok (.constraint (.uniqueByArguments [text 1]))
  | "unique" => .ok (.constraint (.uniqueByArguments ((j.item 1).items.map Json.text)))
  | "max_active" => .ok (.constraint (.maxActivePerKey (j.item 1).natural))
  | "deny" => .ok (.constraint (.closed (text 1) (text 2)))
  | "retry" => (RetryPolicy.ofDocument (j.item 1)).map .retryPolicy
  | "trigger" => (DocumentError.ofSchedule (Schedule.parse (text 1))).map (.trigger ∘ .recurring)
  | "trigger_cron" => (DocumentError.ofSchedule (Trigger.ofCron (text 1))).map .trigger
  | "trigger_every_ms" =>
    (DocumentError.ofSchedule (Trigger.ofInterval (.ofMillis (j.item 1).natural))).map .trigger
  | _ => .error .badStep

/-- The draft of a request that a document writes. -/
def Draft.ofDocument (j : Json) : Except DocumentError Draft := do
  let settings ← (j.itemsAt "steps").mapM Setting.ofDocument
  pure (Draft.setAll { jobKey := j.textAt "job" } settings)

/-- The change of state that a document names. -/
def Transition.ofDocument (j : Json) : Except DocumentError Transition := do
  let message := j.textAt "message"
  let t ← match j.textAt "t" with
    | "start" => .ok Transition.start
    | "finish" => .ok (.finish (j.field? "result"))
    | "fail" =>
      .ok (.fail (if j.textAt "kind" == "unexpected" then .defect message
        else .declared message (j.field "retryable").isTrue))
    | "requeue" => .ok (.requeue message)
    | "cancel" => .ok .cancel
    | "interrupt" => .ok .interrupt
    | _ => .error .badStep
  match j.field "note" with
  | .str note => pure (t.withNote note)
  | _ => pure t

/-- The record of a run that a document writes by some of its fields. The others are those of a
queued run of `export` that was created as 2024 began. -/
def JobRecord.ofDocument (j : Json) : Except DocumentError JobRecord :=
  let created := (j.field? "created_at").getD (.str "2024-01-01T00:00:00Z")
  let defaults : List (String × Json) :=
    [("job_key", .str "export"), ("name", .str "n"), ("group", .str "default"),
      ("arguments", .obj []), ("metadata", .obj []), ("state", .str "QUEUED"), ("attempts", .int 0),
      ("retry_policy", RetryPolicy.standard.toJson), ("created_at", created),
      ("updated_at", created), ("history", .arr []), ("cancel_requested", .bool false)]
  DocumentError.badRecord.orElse (JobRecord.ofJson? (.object (defaults ++ j.fields)))

def Meddling.ofDocument (j : Json) : Except DocumentError Meddling :=
  match j.textAt "t" with
  | "request_cancel" => .ok .requestCancel
  | "delete" => .ok .delete
  | _ => (Transition.ofDocument j).map .transition

/-- The intrusion of another party that a document describes. -/
def Intrusion.ofDocument (j : Json) : Except DocumentError Intrusion := do
  let doings ← (j.itemsAt "then").mapM Meddling.ofDocument
  pure {
    method := (StoreMethod.ofText? (j.textAt "on")).getD .transition
    target := JobState.ofJson? (j.field "to")
    doings }

/-- The filter that a document writes. An identifier that is none restricts nothing. -/
def Filter.ofDocument (j : Json) : Except DocumentError Filter := do
  let base := if (j.field "active").isTrue then Filter.active else Filter.all
  let states ← (j.itemsAt "states").mapM JobState.ofDocument
  let arguments ← (j.field "arguments").fields.mapM fun (name, a) =>
    (Argument.ofDocument a).map (Prod.mk name)
  pure { base with
    jobKeys := j.textsAt "job_keys"
    groups := j.textsAt "groups"
    states := base.states ++ states
    owner := (j.field "owner").toStr?
    triggerId := (j.field "trigger_id").toStr?.bind fun s => (TriggerId.parse s).toOption
    arguments
    limit := match j.field "limit" with
      | .int i => some i.toNat
      | _ => none }

end BackgroundJobs
