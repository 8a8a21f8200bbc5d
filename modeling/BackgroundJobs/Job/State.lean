import BackgroundJobs.Json.Decode

/-!
# Job — the states of a run

```text
QUEUED ──► RUNNING ──► FINISHED | FAILED | CANCELED | INTERRUPTED
  │  ▲         │
  │  └─────────┘ (retry, same record)
  └──► CANCELED
```

A run is active while it is queued or running, and terminal from then on.
-/

namespace BackgroundJobs

/-- Where a run stands. -/
inductive JobState where
  | queued
  | running
  | finished
  | failed
  | canceled
  | interrupted
  deriving DecidableEq, Repr, Inhabited

namespace JobState

/-- Every state, in the order of the graph. -/
def all : List JobState :=
  [queued, running, finished, failed, canceled, interrupted]

/-- The states of a run that is not over. -/
def active : List JobState :=
  [queued, running]

/-- Is the run still to be worked on? -/
def isActive : JobState → Bool
  | queued | running => true
  | _ => false

def isTerminal (s : JobState) : Bool :=
  !s.isActive

/-- Is there an edge from one state to the other? -/
def canBecome : JobState → JobState → Bool
  | queued, running => true
  | queued, canceled => true
  | running, queued => true
  | running, finished => true
  | running, failed => true
  | running, canceled => true
  | running, interrupted => true
  | _, _ => false

def text : JobState → String
  | queued => "QUEUED"
  | running => "RUNNING"
  | finished => "FINISHED"
  | failed => "FAILED"
  | canceled => "CANCELED"
  | interrupted => "INTERRUPTED"

instance : ToString JobState := ⟨text⟩

def ofText? (s : String) : Option JobState :=
  all.find? fun state => state.text == s

def toJson (s : JobState) : Json := .str s.text

def ofJson? (j : Json) : Option JobState :=
  j.toCaseName?.bind ofText?

theorem ofText?_text (s : JobState) : ofText? s.text = some s := by
  cases s <;> decide

end JobState

end BackgroundJobs
