import BackgroundJobs.Console.Session
import BackgroundJobs.Settings.Worker
import Std.Time.DateTime

/-!
# Main — the worker program

The program takes the path of a configuration file, or no argument. It runs a
realm with the bundled definitions and answers an operator's commands, one per
line, until it is told to quit or there are no more.
-/

namespace BackgroundJobs.Program

def clock : IO Instant := do
  let t ← Std.Time.Timestamp.now
  pure (.ofNanos t.toNanosecondsSinceUnixEpoch.toInt)

/-- A random number, so that identifiers differ from those of other runs of the program. -/
def seed : IO Nat := do
  let bytes ← IO.getRandomBytes 7
  pure (bytes.foldl (fun n b => n * 256 + b.toNat) 0)

def carryOut : FileAction → IO Unit
  | .makeDirectory path => IO.FS.createDirAll path
  | .write path text => IO.FS.writeFile path text

/-- Lets a realm go on up to the present time. -/
def goOn (p : Session) : IO Session := do
  let (actions, p) := Session.takeActions (Rehearsal.goOn p (← clock))
  actions.forM carryOut
  pure p

/-- How long a waiting program sleeps, in milliseconds. -/
def nap : UInt32 := 10

/-- Waits for the next line of the operator, which is empty at the end. The realm goes on
meanwhile. -/
def nextLine (stdin : IO.FS.Stream) (session : Session) : IO (String × Session) := do
  let line ← IO.asTask stdin.getLine .dedicated
  let mut p := session
  while !(← IO.hasFinished line) do
    p ← goOn p
    IO.sleep nap
  pure (line.get.toOption.getD "", p)

/-- Answers commands until the session ends. -/
partial def serve (stdin stdout : IO.FS.Stream) (p : Session) : IO Session := do
  let (line, p) ← nextLine stdin p
  let (replies, goesOn, p) := Session.take (Rehearsal.setClock p (← clock)) (Text.lines line)
  for reply in replies do
    stdout.putStrLn reply.text
  stdout.flush
  let p ← goOn p
  if goesOn && !line.isEmpty then serve stdin stdout p else pure p

/-- The settings in the file of that path, or else the standard ones. -/
def load : Option String → IO (Except SettingsError WorkerSettings)
  | none => pure (.ok {})
  | some path => do
    let text ← (IO.FS.readFile path).toBaseIO
    pure (WorkerSettings.form.ofFile path text.toOption)

def fail (message : String) : IO UInt32 := do
  IO.eprintln ("Error: " ++ message)
  pure 1

def run (settings : WorkerSettings) : IO UInt32 := do
  IO.FS.createDirAll settings.exportDir
  let workshop : Workshop :=
    { root := settings.exportDir, retention := settings.realm.retention }
  match Session.make settings.realm workshop (← clock) with
  | .error e => fail e.message
  | .ok p =>
    match Rehearsal.ask { p with serial := ← seed } (.declare settings.realm.recurring) with
    | (.error e, _) => fail e.message
    | (.ok _, p) =>
      let (_, p) := Rehearsal.ask p .start
      let p ← serve (← IO.getStdin) (← IO.getStdout) p
      let (_, p) := Rehearsal.ask p .shutdown
      let _ ← goOn p
      pure 0

end BackgroundJobs.Program

def main (args : List String) : IO UInt32 := do
  match ← BackgroundJobs.Program.load args.head? with
  | .error e => BackgroundJobs.Program.fail e.message
  | .ok settings => BackgroundJobs.Program.run settings
