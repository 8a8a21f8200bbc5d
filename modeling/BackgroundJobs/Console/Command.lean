import BackgroundJobs.Id
import BackgroundJobs.Text.Blank

/-!
# Console — commands

An operator's command is a line of words: the name of the command and its
arguments.
-/

namespace BackgroundJobs

/-- What an operator asks for. -/
inductive Command where
  | pause
  | unpause
  | status (id : JobId)
  | cancel (id : JobId)
  | triggers
  | stats
  | exportFor (consumer owner : String)
  | refresh (owner : String)
  | help
  | quit
  deriving DecidableEq

/-- Why a line is no command. -/
inductive CommandError where
  | unknown (line : String)
  | usage (form : String)
  | invalidId (text : String)
  deriving DecidableEq

def CommandError.message : CommandError → String
  | .unknown line => "unknown command `" ++ line ++ "` (try `help`)"
  | .usage form => "usage: " ++ form
  | .invalidId text => "invalid job id `" ++ text ++ "`"

namespace Command

/-- The list of commands that an operator is shown. -/
def helpText : String :=
  "commands: pause | unpause | status <job-id> | cancel <job-id> | triggers | stats " ++
    "| export <consumer-uuid> <owner-key> | refresh <owner-key> | help | quit"

def parseId (word : String) : Except CommandError JobId :=
  (JobId.parse word).mapError fun _ => .invalidId word

/-- The command of a name and its arguments; `line` is what an unknown one is shown as. -/
def ofWords (line name : String) (args : List String) : Except CommandError Command :=
  match name, args with
  | "pause", [] => .ok .pause
  | "unpause", [] => .ok .unpause
  | "resume", [] => .ok .unpause
  | "status", [id] => (parseId id).map .status
  | "status", _ => .error (.usage "status <job-id>")
  | "cancel", [id] => (parseId id).map .cancel
  | "cancel", _ => .error (.usage "cancel <job-id>")
  | "triggers", [] => .ok .triggers
  | "stats", [] => .ok .stats
  | "export", [consumer, owner] => .ok (.exportFor consumer owner)
  | "export", _ => .error (.usage "export <consumer-uuid> <owner-key>")
  | "refresh", [owner] => .ok (.refresh owner)
  | "refresh", _ => .error (.usage "refresh <owner-key>")
  | "help", _ => .ok .help
  | "quit", [] => .ok .quit
  | "exit", [] => .ok .quit
  | _, _ => .error (.unknown line)

/-- The command of a line; a blank line has none. -/
def parse (line : String) : Except CommandError (Option Command) :=
  match (Text.words line.toList).map String.ofList with
  | [] => .ok none
  | name :: args => (ofWords (Text.trimmed line) name args).map some

end Command

end BackgroundJobs
