import BackgroundJobs.Job.Context
import BackgroundJobs.Json.Printer

/-!
# Task — exporting a consumer's manifest

An export writes one manifest, a document named by a fresh identifier, into the
folder of its consumer below a root directory. The consumer must be a plain
name: whatever could leave the root, or hide in it, is taken for a consumer
that does not exist.
-/

namespace BackgroundJobs

-- ---------------------------------------------------------------------------
-- Requests
-- ---------------------------------------------------------------------------

/-- What a manifest is made of. -/
structure ExportRequest where
  consumer : String
  cdnLabel : Option String := none
  webappPrefix : Option String := none
  apiUrl : Option String := none
  extensionData : Dict String := Dict.empty
  deriving DecidableEq

namespace ExportRequest

def jobKey : String := "export_job"

def consumerArg : String := "consumer_uuid"

def cdnLabelArg : String := "cdn_label"

def webappPrefixArg : String := "webapp_prefix"

def apiUrlArg : String := "api_url"

def extensionDataArg : String := "extension_data"

def toJson (r : ExportRequest) : Json :=
  .record [(consumerArg, .str r.consumer), (cdnLabelArg, Json.ofOption .str r.cdnLabel),
    (webappPrefixArg, Json.ofOption .str r.webappPrefix), (apiUrlArg, Json.ofOption .str r.apiUrl),
    (extensionDataArg, Json.ofDict .str r.extensionData)]

def ofJson? (j : Json) : Option ExportRequest :=
  j.toRecord? do
    pure {
      consumer := ← Json.FieldReader.required consumerArg Json.toStr?
      cdnLabel := ← Json.FieldReader.optional cdnLabelArg Json.toStr?
      webappPrefix := ← Json.FieldReader.optional webappPrefixArg Json.toStr?
      apiUrl := ← Json.FieldReader.optional apiUrlArg Json.toStr?
      extensionData :=
        ← Json.FieldReader.withDefault extensionDataArg Dict.empty (Json.toDictOf? Json.toStr?) }

/-- A text that may be absent, as an argument. -/
def optionalText : Option String → Argument
  | some s => .str s
  | none => .null

/-- The draft of a run that makes this export for an owner. It asks that no other active export has
the very same text for its consumer; the blanks around the text, which a folder is not named by,
tell two exports apart. -/
def draft (r : ExportRequest) (owner : String) (logLevel : Option String) (fresh : Uuid) : Draft :=
  Draft.setAll { jobKey } <|
    [.name ("export-" ++ fresh.text),
      .argument consumerArg (.str r.consumer),
      .argument cdnLabelArg (optionalText r.cdnLabel),
      .argument webappPrefixArg (optionalText r.webappPrefix),
      .argument apiUrlArg (optionalText r.apiUrl),
      .jsonArgument extensionDataArg (.ok (Json.ofDict .str r.extensionData)),
      .owner owner,
      .constraint (.uniqueByArguments [consumerArg])] ++
    (logLevel.map Setting.logLevel).toList

/-- The request that the arguments of a run describe. -/
def ofArguments (args : Arguments) : Except ArgumentError ExportRequest := do
  let extensionData ←
    if args.contains extensionDataArg then
      args.getAs extensionDataArg (Json.toDictOf? Json.toStr?)
    else pure Dict.empty
  pure {
    consumer := ← args.getStr consumerArg
    cdnLabel := ← args.getStr? cdnLabelArg
    webappPrefix := ← args.getStr? webappPrefixArg
    apiUrl := ← args.getStr? apiUrlArg
    extensionData }

end ExportRequest

-- ---------------------------------------------------------------------------
-- Errors
-- ---------------------------------------------------------------------------

/-- Why an export failed. -/
inductive ExportError where
  | consumerNotFound (consumer : String)
  /-- The storage cannot be reached at the moment. -/
  | unavailable (text : String)
  | unwritable (text : String)
  | unencodable (text : String)
  deriving DecidableEq, Repr

namespace ExportError

def message : ExportError → String
  | consumerNotFound consumer => "consumer " ++ consumer ++ " does not exist"
  | unavailable text => "manifest storage unavailable: " ++ text
  | unwritable text => "failed to write manifest: " ++ text
  | unencodable text => "failed to encode manifest: " ++ text

def isTransient : ExportError → Bool
  | unavailable _ => true
  | _ => false

/-- The error as the end of an attempt. -/
def toExecutionError (e : ExportError) : ExecutionError :=
  .failed e.message e.isTransient

end ExportError

-- ---------------------------------------------------------------------------
-- Manifests
-- ---------------------------------------------------------------------------

/-- What an export returns. -/
structure ExportResult where
  consumer : String
  exportId : String
  /-- The path of the manifest. -/
  href : String
  exportedAt : Instant

def ExportResult.toJson (r : ExportResult) : Json :=
  .object [("consumer_uuid", .str r.consumer), ("export_id", .str r.exportId),
    ("href", .str r.href), ("exported_at", r.exportedAt.toJson)]

/-- A change of the file system. -/
inductive FileAction where
  /-- Makes a directory unless it is there. -/
  | makeDirectory (path : String)
  | write (path text : String)
  deriving DecidableEq, Repr

def FileAction.path : FileAction → String
  | makeDirectory path => path
  | write path _ => path

/-- What a file system says of an action that it refuses, because its path holds the null
character or a name in it has more than 255 bytes. -/
def FileAction.refusal (a : FileAction) : Option String :=
  if a.path.toList.contains '\x00' then some "file name contained an unexpected NUL byte"
  else if (a.path.splitOn "/").any fun name => 255 < name.utf8ByteSize then
    some "File name too long (os error 36)"
  else none

/-- The path of an entry of a directory. -/
def joinPath (directory entry : String) : String :=
  if directory.toList.isEmpty || directory.toList.getLast? = some '/' then directory ++ entry
  else directory ++ "/" ++ entry

/-- A manifest that is ready to be written. -/
structure Manifest where
  /-- The consumer's folder. -/
  folder : String
  path : String
  document : Json
  result : ExportResult

namespace Manifest

/-- The folder of a consumer below the root: its name without blanks around it, unless that is
empty, contains a separator or starts with a dot. -/
def folderName? (consumer : String) : Option String :=
  let name := Text.trim consumer.toList
  if name.isEmpty || name.any (fun c => c = '/' || c = '\\') || name.head? = some '.' then none
  else some (String.ofList name)

/-- The manifest of a request, named by a fresh identifier. -/
def make (root : String) (rootExists : Bool) (now : Instant) (fresh : Uuid)
    (request : ExportRequest) : Except ExportError Manifest :=
  match folderName? request.consumer with
  | none => .error (.consumerNotFound request.consumer)
  | some consumer =>
    if !rootExists then .error (.unavailable (root ++ " is not a directory"))
    else
      let folder := joinPath root consumer
      let path := joinPath folder (fresh.text ++ ".json")
      .ok {
        folder
        path
        document := .record [("export_id", .str fresh.text), ("exported_at", now.toJson),
          ("request", request.toJson)]
        result := ⟨consumer, fresh.text, path, now⟩ }

def actions (m : Manifest) : List FileAction :=
  [.makeDirectory m.folder, .write m.path m.document.pretty]

end Manifest

/-- What came of an export. -/
structure Exported where
  /-- The actions that were carried out. -/
  actions : List FileAction
  /-- The manifest, if all of it was written. -/
  written : Option Manifest
  outcome : Except ExportError ExportResult

/-- Carries out actions up to the first that is refused. `refusal` is what the system says of an
action that it refuses. -/
def performAll (refusal : FileAction → Option String) :
    List FileAction → List FileAction × Option String
  | [] => ([], none)
  | a :: rest =>
    match refusal a with
    | some text => ([], some text)
    | none =>
      let (done, failed) := performAll refusal rest
      (a :: done, failed)

/-- Makes the manifest of a request and writes it. -/
def ExportRequest.generate (request : ExportRequest) (root : String) (rootExists : Bool)
    (refusal : FileAction → Option String) (now : Instant) (fresh : Uuid) : Exported :=
  match Manifest.make root rootExists now fresh request with
  | .error e => ⟨[], none, .error e⟩
  | .ok m =>
    match performAll refusal m.actions with
    | (done, none) => ⟨done, some m, .ok m.result⟩
    | (done, some text) => ⟨done, none, .error (.unwritable text)⟩

/-- The outcome of an export run with the given arguments. `generate` makes and writes the
manifest. -/
def exportOutcome (generate : ExportRequest → Except ExportError ExportResult)
    (args : Arguments) : Outcome :=
  match ExportRequest.ofArguments args with
  | .error e => .error (.ofArgument e)
  | .ok request =>
    match generate request with
    | .error e => .error e.toExecutionError
    | .ok result => .ok (some result.toJson)

end BackgroundJobs
