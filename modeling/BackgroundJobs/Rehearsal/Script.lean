import BackgroundJobs.Argument.Query
import BackgroundJobs.Rehearsal.Basic

/-!
# Rehearsal — scripted definitions

A scripted definition does one act per attempt, and its last act again and
again. Acts can wait at a gate: until their run is released, or until they see
that it was told to stop. A waiting act looks at the signal when it arrives at
the gate, and later when it is made to.
-/

namespace BackgroundJobs

/-- What a scripted definition does in one attempt. -/
inductive Act where
  | ends (outcome : Outcome)
  /-- Panics, with a text or with something else. -/
  | panics (payload : Option String)
  /-- Returns one of its arguments. -/
  | needs (query : ArgumentQuery)
  /-- Stops if it was told to, and goes on otherwise. -/
  | checkpoint (next : Act)
  /-- Returns what it was given. -/
  | echo
  /-- Waits until it is released. -/
  | gate (onRelease : Act)
  /-- Waits until it is released or sees that it was told to stop. -/
  | heedfulGate (onRelease onCancel : Act)
  deriving Inhabited

/-- The gates of a rehearsal. -/
structure Gates where
  /-- The runs that were released and have not used it yet. -/
  released : List JobId := []
  /-- The threads that wait at a gate, each with the act it is in. -/
  waiting : List (Nat × Act) := []

namespace Gates

def pass (g : Gates) (worker : Nat) : Gates :=
  { g with waiting := g.waiting.filter (·.1 != worker) }

def wait (g : Gates) (worker : Nat) (act : Act) : Gates :=
  { g.pass worker with waiting := g.waiting.filter (·.1 != worker) ++ [(worker, act)] }

/-- Releases a run, now or when it arrives at a gate. -/
def release (g : Gates) (id : JobId) : Gates :=
  { g with released := if g.released.contains id then g.released else g.released ++ [id] }

def use (g : Gates) (id : JobId) : Gates :=
  { g with released := g.released.filter (· != id) }

end Gates

namespace Act

/-- What an act that returns what it was given returns. -/
def echoed (s : Situation) : Json :=
  .object [("id", s.context.jobId.toJson), ("key", .str s.context.jobKey),
    ("attempt", .int s.context.attempt), ("args", s.context.arguments.toJson),
    ("metadata", Metadata.toJson s.context.metadata), ("canceled", .bool s.canceled),
    ("min_level", .str s.context.minLevel.text)]

/-- Plays an act. `heeds` says whether it looks at the signal if it is at a gate now. -/
def play (s : Situation) (g : Gates) (heeds : Bool) : Act → Gates × Option Ending
  | ends outcome => (g, some ⟨outcome, none⟩)
  | panics payload => (g, some ⟨.error (.panicked payload), none⟩)
  | needs query =>
    (g, some ⟨((query.answer s.context.arguments).map some).mapError .ofArgument, none⟩)
  | checkpoint next =>
    if s.canceled then (g, some ⟨.error .canceled, none⟩) else play s g true next
  | echo => (g, some ⟨.ok (some (echoed s)), none⟩)
  | gate onRelease =>
    if g.released.contains s.context.jobId then play s (g.use s.context.jobId) true onRelease
    else (g.wait s.worker (gate onRelease), none)
  | heedfulGate onRelease onCancel =>
    if g.released.contains s.context.jobId then play s (g.use s.context.jobId) true onRelease
    else if heeds && s.canceled then play s g true onCancel
    else (g.wait s.worker (heedfulGate onRelease onCancel), none)

/-- The act of an attempt: the one of its number, or else the last. -/
def ofAttempt (script : List Act) (attempt : Nat) : Act :=
  (script[min attempt script.length - 1]?).getD (.ends (.ok none))

def performer : Performer (List Act) Gates := fun s script g =>
  match g.waiting.lookup s.worker with
  | some act =>
    let (g, ending) := act.play s (g.pass s.worker) false
    (g, ending)
  | none => (ofAttempt script s.context.attempt).play s g true

/-- The act of a thread that waits at a gate and looks at the signal now. -/
def heed (canceled : Bool) : Act → Act
  | heedfulGate onRelease onCancel => if canceled then onCancel else heedfulGate onRelease onCancel
  | act => act

/-- The act that the fields of an object describe. Where several are described, the first in this
order counts; an object that describes none is an act that returns nothing. `depth` bounds how
deep acts stand inside of each other. -/
def ofFields : Nat → List (String × Json) → Act
  | 0, _ => ends (.ok none)
  | depth + 1, fields =>
    let text (name : String) : String := ((fields.lookup name).bind Json.toStr?).getD ""
    let inner : Json → Act
      | .obj fields => ofFields depth fields
      | _ => ends (.ok none)
    let act? (name : String) (act : Json → Act) : Option Act := (fields.lookup name).map act
    let gates (g : Json) : Act :=
      let onRelease := inner ((g.field? "on_release").getD .null)
      match g.field? "on_cancel" with
      | some onCancel => heedfulGate onRelease (inner onCancel)
      | none => gate onRelease
    let retryable := ((fields.lookup "retryable").bind Json.toBool?).getD false
    (act? "ok" fun j => ends (.ok (some j)))
    <|> (act? "fail" fun _ => ends (.error (.failed (text "fail") retryable)))
    <|> (act? "canceled" fun _ => ends (.error .canceled))
    <|> (act? "unexpected" fun j =>
      ends (.error (.unexpected ((j.toListOf? Json.toStr?).getD []))))
    <|> (act? "panic" fun _ =>
      match text "panic" with
      | "static" => panics (some "definition bug")
      | "other" => panics none
      | m => panics (some (m ++ "!")))
    <|> (act? "need" fun j => ((ArgumentQuery.ofJson? j).map needs).getD (ends (.ok none)))
    <|> (act? "checkpoint" fun _ =>
      checkpoint (ofFields depth (fields.filter (·.1 != "checkpoint"))))
    <|> (act? "echo" fun _ => echo)
    <|> (act? "gate" gates)
    |>.getD (ends (.ok none))

def ofJson : Json → Act
  | .obj fields => ofFields 64 fields
  | _ => ends (.ok none)

end Act

end BackgroundJobs
