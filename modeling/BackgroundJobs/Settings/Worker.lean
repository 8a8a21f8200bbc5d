import BackgroundJobs.Settings.Document

/-!
# Settings — the worker

The configuration of the worker program: what it logs, its realm, and where
exports are written.
-/

namespace BackgroundJobs

/-- How log lines are written. -/
inductive LogFormat where
  | json
  | pretty
  | compact
  deriving DecidableEq, Repr, Inhabited

namespace LogFormat

def text : LogFormat → String
  | json => "json"
  | pretty => "pretty"
  | compact => "compact"

def toJson (f : LogFormat) : Json := .str f.text

def ofJson? (d : Json.Dialect) (j : Json) : Option LogFormat := do
  let name ← d.caseName? j
  [json, pretty, compact].find? fun f => f.text == name

end LogFormat

/-- What is logged. -/
structure LogSettings where
  /-- The directive that selects lines, such as a level. -/
  level : String := "info"
  format : LogFormat := .json
  /-- Do lines say where in the program they come from? -/
  withTarget : Bool := false
  deriving DecidableEq, Repr, Inhabited

namespace LogSettings

def toJson (s : LogSettings) : Json :=
  .record [("level", .str s.level), ("format", s.format.toJson),
    ("with_target", .bool s.withTarget)]

def ofJson? (d : Json.Dialect) (j : Json) : Option LogSettings :=
  let standard : LogSettings := {}
  d.record? j do
    pure {
      level := ← Json.FieldReader.withDefault "level" standard.level Json.toStr?
      format := ← Json.FieldReader.withDefault "format" standard.format (LogFormat.ofJson? d)
      withTarget := ← Json.FieldReader.withDefault "with_target" standard.withTarget Json.toBool? }

end LogSettings

/-- The configuration of the worker program. -/
structure WorkerSettings where
  logging : LogSettings := {}
  realm : RealmSettings := {}
  /-- The directory that exports are written to. -/
  exportDir : String := "exports"
  deriving DecidableEq

namespace WorkerSettings

instance : Inhabited WorkerSettings := ⟨{}⟩

def toJson (s : WorkerSettings) : Json :=
  .record [("logging", s.logging.toJson), ("realm", s.realm.toJson),
    ("export_dir", .str s.exportDir)]

def ofJson? (d : Json.Dialect) (j : Json) : Option WorkerSettings :=
  let standard : WorkerSettings := {}
  d.record? j do
    pure {
      logging := ← Json.FieldReader.withDefault "logging" standard.logging (LogSettings.ofJson? d)
      realm := ← Json.FieldReader.withDefault "realm" standard.realm (RealmSettings.ofJson? d)
      exportDir := ← Json.FieldReader.withDefault "export_dir" standard.exportDir Json.toStr? }

/-- The settings of the worker as a document. -/
def form : SettingsForm WorkerSettings where
  decode := ofJson? Toml.dialect
  check := fun s => s.realm.check
  malformed := "failed to parse worker config"
  unreadable := "failed to read "
  invalid := "invalid config "

end WorkerSettings

end BackgroundJobs
