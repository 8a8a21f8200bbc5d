import BackgroundJobs.Rehearsal.Basic
import BackgroundJobs.Task.Compliance
import BackgroundJobs.Task.Export

/-!
# Task — the bundled definitions

The jobs that a worker comes with: exporting a manifest, refreshing an owner's
compliance, and purging old records.
-/

namespace BackgroundJobs

/-- A bundled definition. -/
inductive Task where
  | exportManifest
  | refreshCompliance
  | purgeRecords
  deriving DecidableEq, Repr, Inhabited

/-- What the bundled definitions work with. -/
structure Workshop where
  /-- The directory that manifests go to. -/
  root : String
  rootExists : Bool := true
  /-- What the system says of a file action that it refuses. -/
  refusal : FileAction → Option String := FileAction.refusal
  compliance : ComplianceBook := {}
  /-- How long the records of finished runs are kept. -/
  retention : Duration
  /-- The file actions of the runs so far. -/
  actions : List FileAction := []
  /-- The manifests written so far. -/
  manifests : List Manifest := []

namespace Task

def key : Task → String
  | exportManifest => ExportRequest.jobKey
  | refreshCompliance => ComplianceSummary.jobKey
  | purgeRecords => Purge.jobKey

def all : List Task := [exportManifest, refreshCompliance, purgeRecords]

def registry : Except JobError (Registry Task) :=
  all.foldlM (fun r task => r.register task.key task) Registry.empty

def performer : Performer Task Workshop := fun s task w =>
  match task with
  | exportManifest =>
    match ExportRequest.ofArguments s.context.arguments with
    | .error e => (w, some { outcome := .error (.ofArgument e) })
    | .ok request =>
      let made := request.generate w.root w.rootExists w.refusal s.now s.fresh
      let outcome := made.outcome.map fun result => some result.toJson
      ({ w with
          actions := w.actions ++ made.actions
          manifests := w.manifests ++ made.written.toList },
        some { outcome := outcome.mapError ExportError.toExecutionError })
  | refreshCompliance =>
    (w, some { outcome :=
      refreshOutcome w.compliance.source (fun _ => s.canceled) s.context.arguments })
  | purgeRecords =>
    let (outcome, sweep) := Purge.run w.retention s.context.arguments s.now
      (fun cutoff _ => .ok ((s.store.deleteFinishedBefore cutoff).1, some cutoff)) none
    (w, some { outcome, sweep })

end Task

end BackgroundJobs
