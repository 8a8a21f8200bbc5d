import BackgroundJobs.Job.Retry

/-!
# Settings — retrying

The retry policy of requests that do not bring their own, as it is configured:
delays in milliseconds, and a default for everything.
-/

namespace BackgroundJobs

/-- A configured retry policy. -/
structure RetrySettings where
  maxAttempts : Nat := 3
  baseDelayMillis : Nat := 500
  maxDelayMillis : Nat := 60000
  strategy : Backoff := .exponential
  jitter : Float := 0.1
  deriving DecidableEq

namespace RetrySettings

instance : Inhabited RetrySettings := ⟨{}⟩

def toPolicy (s : RetrySettings) : RetryPolicy :=
  ⟨s.maxAttempts, .ofMillis s.baseDelayMillis, .ofMillis s.maxDelayMillis, s.strategy, s.jitter⟩

def toJson (s : RetrySettings) : Json :=
  .record [("max_attempts", .int s.maxAttempts), ("base_delay_ms", .int s.baseDelayMillis),
    ("max_delay_ms", .int s.maxDelayMillis), ("strategy", s.strategy.toJson),
    ("jitter", Json.ofFloat s.jitter)]

def ofJson? (d : Json.Dialect) (j : Json) : Option RetrySettings :=
  let standard : RetrySettings := {}
  d.record? j do
    pure {
      maxAttempts :=
        ← Json.FieldReader.withDefault "max_attempts" standard.maxAttempts (Json.toNatBits? 32)
      baseDelayMillis :=
        ← Json.FieldReader.withDefault "base_delay_ms" standard.baseDelayMillis (Json.toNatBits? 64)
      maxDelayMillis :=
        ← Json.FieldReader.withDefault "max_delay_ms" standard.maxDelayMillis (Json.toNatBits? 64)
      strategy := ← Json.FieldReader.withDefault "strategy" standard.strategy (Backoff.ofJson? d)
      jitter := ← Json.FieldReader.withDefault "jitter" standard.jitter Json.toFloat? }

end RetrySettings

end BackgroundJobs
