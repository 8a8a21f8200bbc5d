import BackgroundJobs.Settings.Realm
import BackgroundJobs.Toml.Reader

/-!
# Settings — documents

Settings are written in TOML. Reading them can fail because the file cannot be
read, because its text is no document of the wanted form, or because of a fault
in what it says.
-/

namespace BackgroundJobs

/-- Why settings could not be had. -/
inductive SettingsCause where
  | unreadable
  | malformed
  | faulty (fault : SettingsFault)
  deriving DecidableEq, Repr

/-- A failure with what was being done when it happened, the outermost first. -/
structure SettingsError where
  context : List String
  cause : SettingsCause
  deriving DecidableEq, Repr

namespace SettingsError

/-- The messages of the failure, the outermost first. -/
def chain (e : SettingsError) : List String :=
  e.context ++ match e.cause with
    | .faulty fault => fault.chain
    | _ => []

def outermost (e : SettingsError) : String :=
  e.chain.headD ""

def message (e : SettingsError) : String :=
  ": ".intercalate e.chain

/-- Adds what was being done around the failure. -/
def within (what : String) (e : SettingsError) : SettingsError :=
  { e with context := what :: e.context }

end SettingsError

/-- What is read from a document: how, what of it is checked, and what the failures are called. -/
structure SettingsForm (α : Type) where
  decode : Json → Option α
  check : α → Except SettingsFault Unit
  malformed : String
  unreadable : String
  invalid : String

namespace SettingsForm

variable {α : Type}

def ofText (form : SettingsForm α) (text : String) : Except SettingsError α :=
  match (Toml.Document.parse? text).bind fun d => form.decode d.toJson with
  | none => .error ⟨[form.malformed], .malformed⟩
  | some settings =>
    match form.check settings with
    | .ok () => .ok settings
    | .error fault => .error ⟨[], .faulty fault⟩

/-- The checked settings of a file, whose text is missing if it could not be read. -/
def ofFile (form : SettingsForm α) (path : String) (text : Option String) :
    Except SettingsError α :=
  match text with
  | none => .error ⟨[form.unreadable ++ path], .unreadable⟩
  | some text => (form.ofText text).mapError (·.within (form.invalid ++ path))

end SettingsForm

namespace RealmSettings

/-- The settings of a realm as a document of their own. -/
def form : SettingsForm RealmSettings where
  decode := ofJson? Toml.dialect
  check := check
  malformed := "failed to parse realm configuration"
  unreadable := "failed to read realm config "
  invalid := "invalid realm config "

end RealmSettings

end BackgroundJobs
