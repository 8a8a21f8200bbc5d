import BackgroundJobs.Job.Request

/-!
# Job — what a running definition is given

A definition sees its run's arguments and metadata, the number of the attempt
and a cancellation signal, and may log. Its messages pass only if they are as
severe as the run's metadata asks for.
-/

namespace BackgroundJobs

-- ---------------------------------------------------------------------------
-- Log levels
-- ---------------------------------------------------------------------------

/-- How severe a message is. -/
inductive LogLevel where
  | error
  | warn
  | info
  | debug
  | trace
  deriving DecidableEq, Repr, Inhabited

namespace LogLevel

/-- Every level, the most severe first. -/
def all : List LogLevel :=
  [error, warn, info, debug, trace]

/-- The place of a level in the order of severity, from 1 to 5. -/
def rank : LogLevel → Nat
  | error => 1
  | warn => 2
  | info => 3
  | debug => 4
  | trace => 5

def text : LogLevel → String
  | error => "ERROR"
  | warn => "WARN"
  | info => "INFO"
  | debug => "DEBUG"
  | trace => "TRACE"

/-- A rank written in decimal, possibly with leading zeros or a plus sign. -/
def rankOf? (s : List Char) : Option Nat :=
  match s with
  | '+' :: rest => Number.read? rest
  | _ => Number.read? s

/-- The level that a text names, by its name in letters of any case or by its rank. -/
def ofText? (s : String) : Option LogLevel :=
  (rankOf? s.toList).bind (fun n => all.find? fun level => level.rank = n)
  <|> all.find? fun level => level.text == s.map Char.toUpper

end LogLevel

/-- A message that was logged. -/
structure LogLine where
  level : LogLevel
  message : String
  jobId : JobId
  jobKey : String
  deriving DecidableEq

-- ---------------------------------------------------------------------------
-- Context and outcome
-- ---------------------------------------------------------------------------

/-- What a definition knows of the run it executes. -/
structure JobContext where
  jobId : JobId
  jobKey : String
  /-- The number of the attempt, from 1. -/
  attempt : Nat
  arguments : Arguments
  metadata : Metadata

/-- How an attempt went wrong. -/
inductive ExecutionError where
  /-- A declared failure. -/
  | failed (message : String) (retryable : Bool)
  /-- The run saw its cancellation signal and stopped. -/
  | canceled
  /-- An error that the definition did not declare: its message and those of its causes. -/
  | unexpected (chain : List String)
  deriving DecidableEq, Repr

/-- How an attempt ended: with a result that may be absent, or with an error. -/
abbrev Outcome := Except ExecutionError (Option Json)

namespace ExecutionError

/-- The messages of a chain of causes in one line. -/
def chainText (chain : List String) : String :=
  ": ".intercalate chain

def message : ExecutionError → String
  | failed message _ => message
  | canceled => "job canceled"
  | unexpected chain => chainText chain

/-- A failure that trying again cannot mend. -/
def fatal (message : String) : ExecutionError := .failed message false

/-- A failure that may pass. -/
def transient (message : String) : ExecutionError := .failed message true

/-- A definition that panicked; `payload` is the text it panicked with, if it was a text. -/
def panicked (payload : Option String) : ExecutionError :=
  .unexpected ["job panicked: " ++ payload.getD "non-string panic payload"]

/-- A missing or unfit argument is a fatal failure. -/
def ofArgument (e : ArgumentError) : ExecutionError := .fatal e.message

end ExecutionError

namespace JobContext

/-- The context of an attempt that has just been claimed. -/
def ofRecord (r : JobRecord) : JobContext :=
  ⟨r.id, r.jobKey, r.attempts, r.arguments, r.metadata⟩

def detached (jobId : JobId) (jobKey : String) (arguments : Arguments) : JobContext :=
  ⟨jobId, jobKey, 1, arguments, Dict.empty⟩

/-- The least severe level that passes; everything does if the metadata names no level. -/
def minLevel (ctx : JobContext) : LogLevel :=
  ((ctx.metadata.get? logLevelKey).bind LogLevel.ofText?).getD .trace

def enabled (ctx : JobContext) (level : LogLevel) : Bool :=
  level.rank ≤ ctx.minLevel.rank

/-- What goes out when the definition logs a message. -/
def log (ctx : JobContext) (level : LogLevel) (message : String) : List LogLine :=
  if ctx.enabled level then [⟨level, message, ctx.jobId, ctx.jobKey⟩] else []

/-- Stops a run that has been asked to; called between units of work. -/
def checkpoint (canceled : Bool) : Except ExecutionError Unit :=
  if canceled then .error .canceled else .ok ()

end JobContext

end BackgroundJobs
