import BackgroundJobs.Console.Command
import BackgroundJobs.Json.Printer
import BackgroundJobs.Task.Bundle

/-!
# Console — sessions

An operator's commands and the replies of a realm that runs the bundled
definitions. A reply is a line of text or a printed document.
-/

namespace BackgroundJobs

/-- What an operator is shown. -/
inductive ConsoleReply where
  | line (text : String)
  | document (j : Json)

/-- The text of a reply, without the end of its last line. -/
def ConsoleReply.text : ConsoleReply → String
  | .line text => text
  | .document j => j.pretty

/-- A realm with the bundled definitions in the middle of one of its runs. -/
abbrev Session := Rehearsal Task Workshop

namespace Session

/-- A session on a realm that has not been started, with no records. -/
def make (settings : RealmSettings) (workshop : Workshop) (now : Instant) :
    Except JobError Session := do
  let registry ← Task.registry
  pure {
    system := .ofRealm (.make settings registry Store.empty)
    performer := Task.performer
    scene := workshop
    now }

/-- The reply to an answer: `view` says what is shown of a good one. -/
def replyWith (view : Reply → ConsoleReply) : Answer → ConsoleReply
  | .ok reply => view reply
  | .error e => .line ("error: " ++ e.message)

/-- What is shown of a run that was asked to stop. -/
def cancelLine (r : JobRecord) : String :=
  let note := if r.cancelRequested && r.isActive then " (cancel requested)" else ""
  s!"{r.id}: {r.state}" ++ note

/-- What is shown of a reply: a document, but a line for the runs that were queued or asked to
stop. -/
def present (queued : String) : Reply → ConsoleReply
  | .record r => .document r.toJson
  | .infos infos => .document (Json.ofList TriggerInfo.toJson infos)
  | .stats stats => .document stats.toJson
  | .job id => .line s!"queued {queued} {id}"
  | _ => .line ""

/-- Submits a draft and shows what came of it. -/
def submit (p : Session) (what : String) (draft : Draft) : ConsoleReply × Session :=
  match draft.build p.fresh with
  | .error e => (replyWith (present what) (.error e), p)
  | .ok request =>
    let (answer, p) := Rehearsal.ask p.tick (.submit request)
    (replyWith (present what) answer, p)

def ask (p : Session) (call : Call) (view : Reply → ConsoleReply) : ConsoleReply × Session :=
  let (answer, p) := Rehearsal.ask p call
  (replyWith view answer, p)

def execute (p : Session) : Command → ConsoleReply × Session
  | .pause => ask p .pause fun _ => .line "paused"
  | .unpause => ask p .unpause fun _ => .line "resumed"
  | .status id => ask p (.status id) (present "")
  | .cancel id =>
    ask p (.cancel id) fun
      | .record r => .line (cancelLine r)
      | reply => present "" reply
  | .triggers => ask p .triggers (present "")
  | .stats => ask p .stats (present "")
  | .exportFor consumer owner =>
    let request : ExportRequest := { consumer }
    submit p.tick "export" (request.draft owner none p.fresh)
  | .refresh owner => submit p "compliance refresh" (ComplianceSummary.draft owner)
  | .help => (.line Command.helpText, p)
  | .quit => (.line "bye", p)

/-- Takes lines from the operator until there are no more or one of them says to quit. Returns
the replies, and whether the session goes on. -/
def take (p : Session) : List String → List ConsoleReply × Bool × Session
  | [] => ([], true, p)
  | line :: rest =>
    match Command.parse line with
    | .error e =>
      let (replies, goesOn, p) := take p rest
      (.line e.message :: replies, goesOn, p)
    | .ok none => take p rest
    | .ok (some .quit) =>
      let (reply, p) := execute p .quit
      ([reply], false, p)
    | .ok (some command) =>
      let (reply, p) := execute p command
      let (replies, goesOn, p) := take p rest
      (reply :: replies, goesOn, p)

/-- The file actions since they were taken the last time. -/
def takeActions (p : Session) : List FileAction × Session :=
  (p.scene.actions, { p with scene := { p.scene with actions := [] } })

end Session

end BackgroundJobs
