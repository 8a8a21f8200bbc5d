import BackgroundJobs.Json.Decode

/-!
# Time — durations

A duration is a whole number of nanoseconds. It is stored as seconds and
nanoseconds; a second's worth of nanoseconds or more carries over.
-/

namespace BackgroundJobs

/-- A length of time, in nanoseconds. -/
structure Duration where
  nanos : Nat
  deriving DecidableEq, Inhabited

namespace Duration

def zero : Duration := ⟨0⟩

def ofMillis (n : Nat) : Duration := ⟨1000000 * n⟩

def ofSeconds (n : Nat) : Duration := ⟨1000000000 * n⟩

/-- The duration in whole milliseconds, rounded down. -/
def millis (d : Duration) : Nat := d.nanos / 1000000

/-- The duration in whole seconds, rounded down. -/
def seconds (d : Duration) : Nat := d.nanos / 1000000000

/-- The longest duration that can be added to or taken from an instant. -/
def longestStep : Duration := ofMillis 0x7fffffffffffffff

/-- The duration as a step between instants, if it is not too long for one. -/
def step? (d : Duration) : Option Int :=
  if d.nanos ≤ longestStep.nanos then some d.nanos else none

def toJson (d : Duration) : Json :=
  .record [("secs", .int d.seconds), ("nanos", .int (d.nanos % 1000000000 : Nat))]

/-- Reads seconds and nanoseconds, both required and nothing beside them. -/
def ofJson? (j : Json) : Option Duration := do
  let known : Bool := match j with
    | .obj fields => fields.all fun f => f.1 == "secs" || f.1 == "nanos"
    | _ => true
  guard (known = true)
  let (secs, nanos) ← j.toRecord? do
    pure (← Json.FieldReader.required "secs" (Json.toNatBits? 64),
      ← Json.FieldReader.required "nanos" (Json.toNatBits? 32))
  let d : Duration := ⟨secs * 1000000000 + nanos⟩
  if d.seconds < 0x10000000000000000 then some d else none

@[simp] theorem millis_ofMillis (n : Nat) : (ofMillis n).millis = n := by
  simp [ofMillis, millis]

end Duration

end BackgroundJobs
