import BackgroundJobs.Schedule.Basic
import BackgroundJobs.Settings.Retry

/-!
# Settings — the realm

How a realm is configured. Everything has a default, so that no configuration
at all makes a working realm. Settings that were read are checked before a
realm is made of them; the first fault found is the one reported.
-/

namespace BackgroundJobs

-- ---------------------------------------------------------------------------
-- Settings
-- ---------------------------------------------------------------------------

/-- A recurring job that the configuration declares. -/
structure RecurringSettings where
  jobKey : String
  /-- A cron expression or an interval. -/
  schedule : String
  group : Option String := none
  name : Option String := none
  deriving DecidableEq, Repr, Inhabited

namespace RecurringSettings

def toJson (s : RecurringSettings) : Json :=
  .record [("job_key", .str s.jobKey), ("schedule", .str s.schedule),
    ("group", Json.ofOption .str s.group), ("name", Json.ofOption .str s.name)]

def ofJson? (d : Json.Dialect) (j : Json) : Option RecurringSettings :=
  d.record? j do
    pure {
      jobKey := ← Json.FieldReader.required "job_key" Json.toStr?
      schedule := ← Json.FieldReader.required "schedule" Json.toStr?
      group := ← Json.FieldReader.withDefault "group" none (Json.toOptionOf? Json.toStr?)
      name := ← Json.FieldReader.withDefault "name" none (Json.toOptionOf? Json.toStr?) }

def parsedSchedule (s : RecurringSettings) : Except ScheduleError Schedule :=
  Schedule.parse s.schedule

end RecurringSettings

/-- The configuration of a realm. -/
structure RealmSettings where
  name : String := "async"
  /-- The groups that the realm serves. The first one is for requests that name none. -/
  groups : List String := ["default"]
  workers : Nat := 4
  /-- How long a shutdown waits for running jobs, in milliseconds. -/
  graceMillis : Nat := 30000
  /-- The time between two looks at the recurring triggers, in milliseconds. -/
  tickMillis : Nat := 1000
  /-- The longest sleep of an idle worker, in milliseconds. -/
  pollMillis : Nat := 500
  /-- How long the records of finished runs are kept, in hours. -/
  retentionHours : Nat := 168
  /-- Are stored runs taken up again when the realm starts? -/
  recoverOnStart : Bool := true
  retry : RetrySettings := {}
  recurring : List RecurringSettings := []
  deriving DecidableEq

namespace RealmSettings

instance : Inhabited RealmSettings := ⟨{}⟩

def toJson (s : RealmSettings) : Json :=
  .record [("name", .str s.name), ("groups", Json.ofList .str s.groups),
    ("worker_threads", .int s.workers), ("shutdown_grace_period_ms", .int s.graceMillis),
    ("trigger_tick_ms", .int s.tickMillis), ("idle_poll_ms", .int s.pollMillis),
    ("status_retention_hours", .int s.retentionHours), ("recover_on_start", .bool s.recoverOnStart),
    ("retry", s.retry.toJson), ("scheduled", Json.ofList RecurringSettings.toJson s.recurring)]

def ofJson? (d : Json.Dialect) (j : Json) : Option RealmSettings :=
  let standard : RealmSettings := {}
  d.record? j do
    pure {
      name := ← Json.FieldReader.withDefault "name" standard.name Json.toStr?
      groups := ← Json.FieldReader.withDefault "groups" standard.groups (Json.toListOf? Json.toStr?)
      workers :=
        ← Json.FieldReader.withDefault "worker_threads" standard.workers (Json.toNatBits? 64)
      graceMillis :=
        ← Json.FieldReader.withDefault "shutdown_grace_period_ms" standard.graceMillis
          (Json.toNatBits? 64)
      tickMillis :=
        ← Json.FieldReader.withDefault "trigger_tick_ms" standard.tickMillis (Json.toNatBits? 64)
      pollMillis :=
        ← Json.FieldReader.withDefault "idle_poll_ms" standard.pollMillis (Json.toNatBits? 64)
      retentionHours :=
        ← Json.FieldReader.withDefault "status_retention_hours" standard.retentionHours
          (Json.toNatBits? 64)
      recoverOnStart :=
        ← Json.FieldReader.withDefault "recover_on_start" standard.recoverOnStart Json.toBool?
      retry := ← Json.FieldReader.withDefault "retry" standard.retry (RetrySettings.ofJson? d)
      recurring :=
        ← Json.FieldReader.withDefault "scheduled" standard.recurring
          (Json.toListOf? (RecurringSettings.ofJson? d)) }

-- ---------------------------------------------------------------------------
-- What the settings mean
-- ---------------------------------------------------------------------------

/-- The group of a request that names none. -/
def defaultGroup (s : RealmSettings) : String :=
  s.groups.headD "default"

/-- The retry policy of a request that brings none. -/
def retryPolicy (s : RealmSettings) : RetryPolicy := s.retry.toPolicy

def grace (s : RealmSettings) : Duration := .ofMillis s.graceMillis

def tick (s : RealmSettings) : Duration := .ofMillis s.tickMillis

def poll (s : RealmSettings) : Duration := .ofMillis s.pollMillis

/-- How long the records of finished runs are kept; the seconds stay within 64 bits. -/
def retention (s : RealmSettings) : Duration :=
  .ofSeconds (min (3600 * s.retentionHours) 0xffffffffffffffff)

-- ---------------------------------------------------------------------------
-- Adjusting
-- ---------------------------------------------------------------------------

/-- The milliseconds of a duration in 64 bits. -/
def wrapMillis (millis : Nat) : Nat := millis % 0x10000000000000000

/-- Sets the grace period, in whole milliseconds. -/
def setGrace (s : RealmSettings) (d : Duration) : RealmSettings :=
  { s with graceMillis := wrapMillis d.millis }

/-- Sets the time between two looks at the triggers, of at least a millisecond. -/
def setTick (s : RealmSettings) (d : Duration) : RealmSettings :=
  { s with tickMillis := wrapMillis (max d.millis 1) }

/-- Sets the longest sleep of an idle worker, of at least a millisecond. -/
def setPoll (s : RealmSettings) (d : Duration) : RealmSettings :=
  { s with pollMillis := wrapMillis (max d.millis 1) }

end RealmSettings

-- ---------------------------------------------------------------------------
-- Faults
-- ---------------------------------------------------------------------------

/-- What can be wrong with settings that were read. -/
inductive SettingsFault where
  | blankName
  | noWorkers
  | noGroups (realm : String)
  | noAttempts
  | jitterOutOfRange
  | zeroPause
  | badSchedule (jobKey : String) (cause : ScheduleError)
  | unknownGroup (jobKey group : String)
  deriving DecidableEq, Repr

/-- The message of a fault and that of its cause, if it has one. -/
def SettingsFault.chain : SettingsFault → List String
  | .blankName => ["realm name must not be empty"]
  | .noWorkers => ["worker_threads must be at least 1"]
  | .noGroups realm => ["realm " ++ realm ++ " must serve at least one group"]
  | .noAttempts => ["retry.max_attempts must be at least 1"]
  | .jitterOutOfRange => ["retry.jitter must be within 0.0..=1.0"]
  | .zeroPause => ["trigger_tick_ms and idle_poll_ms must be positive"]
  | .badSchedule jobKey cause =>
    ["scheduled job " ++ jobKey, "invalid schedule: " ++ cause.message]
  | .unknownGroup jobKey group => ["scheduled job " ++ jobKey ++ " names unknown group " ++ group]

namespace RealmSettings

/-- Reports a fault if there is one. -/
def faultIf (wrong : Bool) (fault : SettingsFault) : Except SettingsFault Unit :=
  if wrong then .error fault else .ok ()

def checkRecurring (s : RealmSettings) (entry : RecurringSettings) : Except SettingsFault Unit := do
  match entry.parsedSchedule with
  | .error cause => throw (.badSchedule entry.jobKey cause)
  | .ok _ => pure ()
  match entry.group with
  | some group => faultIf (!s.groups.contains group) (.unknownGroup entry.jobKey group)
  | none => pure ()

/-- Checks the settings and reports the first fault. -/
def check (s : RealmSettings) : Except SettingsFault Unit := do
  faultIf (Text.trim s.name.toList).isEmpty .blankName
  faultIf (s.workers == 0) .noWorkers
  faultIf s.groups.isEmpty (.noGroups s.name)
  faultIf (s.retry.maxAttempts == 0) .noAttempts
  faultIf (!(0.0 ≤ s.retry.jitter && s.retry.jitter ≤ 1.0)) .jitterOutOfRange
  faultIf (s.tickMillis == 0 || s.pollMillis == 0) .zeroPause
  s.recurring.forM s.checkRecurring

end RealmSettings

end BackgroundJobs
