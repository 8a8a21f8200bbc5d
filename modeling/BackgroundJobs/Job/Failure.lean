import BackgroundJobs.Json.Decode

/-!
# Job — why a run failed

A failed run records a message, whether trying again could have helped, and
whether the definition declared the failure or broke down.
-/

namespace BackgroundJobs

/-- Where a failure comes from. -/
inductive FailureKind where
  /-- Declared by the definition. -/
  | execution
  /-- An undeclared error or a panic inside the definition. -/
  | unexpected
  deriving DecidableEq, Repr, Inhabited

namespace FailureKind

def text : FailureKind → String
  | execution => "execution"
  | unexpected => "unexpected"

def toJson (k : FailureKind) : Json := .str k.text

def ofJson? (j : Json) : Option FailureKind := do
  let name ← j.toCaseName?
  [execution, unexpected].find? fun k => k.text == name

end FailureKind

/-- The error recorded for a run that failed. -/
structure Failure where
  message : String
  retryable : Bool
  kind : FailureKind
  deriving DecidableEq, Repr, Inhabited

namespace Failure

def declared (message : String) (retryable : Bool) : Failure :=
  ⟨message, retryable, .execution⟩

/-- A defect; trying again is no help. -/
def defect (message : String) : Failure :=
  ⟨message, false, .unexpected⟩

def toJson (f : Failure) : Json :=
  .record [("message", .str f.message), ("retryable", .bool f.retryable), ("kind", f.kind.toJson)]

def ofJson? (j : Json) : Option Failure :=
  j.toRecord? do
    pure {
      message := ← Json.FieldReader.required "message" Json.toStr?
      retryable := ← Json.FieldReader.required "retryable" Json.toBool?
      kind := ← Json.FieldReader.required "kind" FailureKind.ofJson? }

end Failure

end BackgroundJobs
