import BackgroundJobs.Time.Duration

/-!
# Job — retrying after a failure

A retry policy bounds the number of attempts and says how long to wait after
each. The waiting time is one formula over any arithmetic: it runs on binary
fractions, and is reasoned about on exact numbers.
-/

namespace BackgroundJobs

/-- How waiting times grow. -/
inductive Backoff where
  /-- Always the base delay. -/
  | fixed
  /-- Twice as long after every further attempt. -/
  | exponential
  /-- The base delay times the number of attempts. -/
  | linear
  deriving DecidableEq, Repr

instance : Inhabited Backoff := ⟨.exponential⟩

namespace Backoff

def text : Backoff → String
  | fixed => "fixed"
  | exponential => "exponential"
  | linear => "linear"

def toJson (b : Backoff) : Json := .str b.text

def ofJson? (d : Json.Dialect) (j : Json) : Option Backoff := do
  let name ← d.caseName? j
  [fixed, exponential, linear].find? fun b => b.text == name

section Formula

variable {α : Type} [NatCast α] [Add α] [Sub α] [Mul α] [Div α] [LT α] [DecidableLT α]

def lesser (a b : α) : α :=
  if a < b then a else b

/-- The nearest number between zero and one. -/
def unitClamp (x : α) : α :=
  if x < (0 : Nat) then (0 : Nat) else if ((1 : Nat) : α) < x then (1 : Nat) else x

/-- The waiting time before any jitter. -/
def plainDelay (strategy : Backoff) (base cap : α) (attempt : Nat) : α :=
  match strategy with
  | fixed => base
  | exponential => lesser (base * (Nat.pow 2 (min (attempt - 1) 62) : Nat)) cap
  | linear => lesser (base * attempt) cap

/-- The shift of a waiting time by jitter: a share of at most `jitter` of it, up or down, that
depends on the number of the attempt alone. -/
def jitterShift (jitter plain : α) (attempt : Nat) : α :=
  let range := plain * unitClamp jitter
  if ((0 : Nat) : α) < range then
    let phase : α := ((attempt * 17 % 100 : Nat) : α) / (100 : Nat)
    range * (phase - ((1 : Nat) : α) / (2 : Nat)) * (2 : Nat)
  else (0 : Nat)

/-- The waiting time after the given attempt, counted from 1, in the unit of `base` and `cap`. -/
def delay (strategy : Backoff) (base cap jitter : α) (attempt : Nat) : α :=
  let plain := strategy.plainDelay base cap attempt
  let shifted := plain + jitterShift jitter plain attempt
  if shifted < (0 : Nat) then (0 : Nat) else shifted

end Formula

/-- A whole number as the nearest binary fraction. -/
instance : NatCast Float := ⟨Float.ofNat⟩

end Backoff

/-- When, and how often, a run is tried again. -/
structure RetryPolicy where
  /-- The number of attempts allowed, the first one included. -/
  maxAttempts : Nat
  baseDelay : Duration
  maxDelay : Duration
  strategy : Backoff
  /-- The share of a delay, from 0 to 1, that it may be shifted by. -/
  jitter : Float
  deriving DecidableEq

namespace RetryPolicy

/-- Three attempts, half a second doubling up to a minute. -/
def standard : RetryPolicy :=
  ⟨3, .ofMillis 500, .ofSeconds 60, .exponential, 0.1⟩

instance : Inhabited RetryPolicy := ⟨standard⟩

def noRetry : RetryPolicy :=
  { standard with maxAttempts := 1 }

def constant (maxAttempts : Nat) (delay : Duration) : RetryPolicy :=
  ⟨maxAttempts, delay, delay, .fixed, 0.0⟩

/-- Delays that double up to a bound. -/
def doubling (maxAttempts : Nat) (base bound : Duration) : RetryPolicy :=
  ⟨maxAttempts, base, bound, .exponential, 0.1⟩

/-- The waiting time after the given attempt failed, in whole milliseconds of 64 bits. There is
none before the first attempt. -/
def delayMillis (p : RetryPolicy) (attempt : Nat) : Nat :=
  if attempt = 0 then 0
  else
    (p.strategy.delay (Float.ofNat p.baseDelay.millis) (Float.ofNat p.maxDelay.millis) p.jitter
      attempt).toUInt64.toNat

/-- The waiting time after the given attempt failed. -/
def delayAfter (p : RetryPolicy) (attempt : Nat) : Duration :=
  .ofMillis (p.delayMillis attempt)

/-- May the run be tried again after so many attempts? -/
def allowsAfter (p : RetryPolicy) (attempts : Nat) : Bool :=
  attempts < p.maxAttempts

def toJson (p : RetryPolicy) : Json :=
  .record [("max_attempts", .int p.maxAttempts), ("base_delay", p.baseDelay.toJson),
    ("max_delay", p.maxDelay.toJson), ("strategy", p.strategy.toJson),
    ("jitter", Json.ofFloat p.jitter)]

def ofJson? (j : Json) : Option RetryPolicy :=
  j.toRecord? do
    pure {
      maxAttempts := ← Json.FieldReader.required "max_attempts" (Json.toNatBits? 32)
      baseDelay := ← Json.FieldReader.required "base_delay" Duration.ofJson?
      maxDelay := ← Json.FieldReader.required "max_delay" Duration.ofJson?
      strategy := ← Json.FieldReader.required "strategy" (Backoff.ofJson? .strict)
      jitter := ← Json.FieldReader.required "jitter" Json.toFloat? }

end RetryPolicy

end BackgroundJobs
