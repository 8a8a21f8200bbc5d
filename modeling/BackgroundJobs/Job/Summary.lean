import BackgroundJobs.Job.Request

/-!
# Job — summaries

What is shown of a retry policy, a request and a record where their documents
say too much: delays in milliseconds, constraints by name, and of times only
whether they are set.
-/

namespace BackgroundJobs

/-- A retry policy with its delays in milliseconds of 64 bits. -/
def RetryPolicy.summary (p : RetryPolicy) : Json :=
  .record [("max_attempts", .int p.maxAttempts),
    ("base_delay_ms", .int (p.baseDelay.millis % 0x10000000000000000 : Nat)),
    ("max_delay_ms", .int (p.maxDelay.millis % 0x10000000000000000 : Nat)),
    ("strategy", p.strategy.toJson), ("jitter", .float p.jitter)]

/-- When a request runs: a word, or the text of its schedule. -/
def Trigger.summary : Trigger → Json
  | .immediate => .str "immediate"
  | .recurring s => .record [("recurring", .str s.text)]

/-- A request with the names of its constraints. -/
def JobRequest.summary (r : JobRequest) : Json :=
  .record [("job_key", .str r.jobKey), ("name", .str r.name),
    ("group", Json.ofOption .str r.group), ("arguments", r.arguments.toJson),
    ("metadata", Metadata.toJson r.metadata),
    ("constraints", Json.ofList (fun c : Constraint => .str c.name) r.constraints),
    ("retry_policy", Json.ofOption RetryPolicy.summary r.retryPolicy),
    ("trigger", r.trigger.summary), ("is_recurring", .bool r.trigger.isRecurring)]

def Attempt.summary (a : Attempt) : Json :=
  .record [("attempt", .int a.number), ("success", .bool a.success),
    ("outcome", a.outcome.toJson), ("error", Json.ofOption .str a.error)]

def JobRecord.summary (r : JobRecord) : Json :=
  .record [("id", r.id.toJson), ("job_key", .str r.jobKey), ("name", .str r.name),
    ("group", .str r.group), ("arguments", r.arguments.toJson),
    ("metadata", Metadata.toJson r.metadata), ("state", r.state.toJson),
    ("attempts", .int r.attempts), ("retry_policy", r.retryPolicy.summary),
    ("started", .bool r.startedAt.isSome), ("finished", .bool r.finishedAt.isSome),
    ("result", r.result.getD .null), ("error", Json.ofOption Failure.toJson r.error),
    ("history", Json.ofList Attempt.summary r.history),
    ("trigger_id", Json.ofOption TriggerId.toJson r.triggerId),
    ("cancel_requested", .bool r.cancelRequested), ("owner", Json.ofOption .str r.owner),
    ("terminal", .bool r.isTerminal)]

end BackgroundJobs
