import BackgroundJobs.Proofs.Time.Stamp
import BackgroundJobs.Proofs.Time.Step
import BackgroundJobs.Realm.Worker
import BackgroundJobs.Realm.Call
import BackgroundJobs.Task.Bundle

/-!
# Proofs — purges

A realm purges its store when it is asked to, and a job does so with the
retention of the configuration or one of its own. Both count back from the time
of the purge, and delete the records of runs that ended before. A retention that
reaches back too far to be counted keeps everything.

Main results:

* `cutoff?_hours`  — how far a retention in hours reaches back.
* `mem_purged_iff` — which records a purge keeps.
* `exact_purge`    — all purges with one retention do the same to a store.
-/

namespace BackgroundJobs

namespace Purge

variable {hours more : Nat} {now cutoff : Instant} {s : Store} {x : JobRecord}

-- ---------------------------------------------------------------------------
-- Counting back
-- ---------------------------------------------------------------------------

/-- The longest retention that can be counted in milliseconds of 63 bits. -/
def longest : Nat := 0x7fffffffffffffff

/-- The time so many hours before another, if the hours can be counted and there is such a time. -/
def hoursBefore? (hours : Nat) (now : Instant) : Option Instant :=
  if 3600000 * hours ≤ longest then now.shift? (-(3600 * hours : Nat) * nanosPerSecond) else none

/-- A number of seconds can be counted if its milliseconds can. -/
theorem step?_ofSeconds (n : Nat) : (Duration.ofSeconds n).step? =
    if 1000 * n ≤ longest then some ((n * nanosPerSecond : Nat) : Int) else none := by
  have hNanos : (Duration.ofSeconds n).nanos = 1000000000 * n := rfl
  have hLongest : Duration.longestStep.nanos = 1000000 * 0x7fffffffffffffff := rfl
  unfold Duration.step? longest nanosPerSecond
  split <;> split
  · rw [hNanos]
    congr 1
    omega
  · omega
  · omega
  · rfl

/-- How far a retention in hours reaches back, whose seconds stay within 64 bits. -/
theorem cutoff?_hours (hours : Nat) (now : Instant) :
    cutoff? (.ofSeconds (min (3600 * hours) 0xffffffffffffffff)) now = hoursBefore? hours now := by
  rw [cutoff?, Instant.before?, step?_ofSeconds, hoursBefore?]
  by_cases hFits : 3600000 * hours ≤ longest
  · have hSeconds : min (3600 * hours) 0xffffffffffffffff = 3600 * hours := by
      unfold longest at hFits
      omega
    have hMillis : 1000 * (3600 * hours) ≤ longest := by omega
    rw [if_pos hFits, hSeconds, if_pos hMillis, Option.bind_some, Int.neg_mul, Int.natCast_mul]
  · have hMillis : ¬1000 * min (3600 * hours) 0xffffffffffffffff ≤ longest := by
      unfold longest at *
      omega
    rw [if_neg hFits, if_neg hMillis, Option.bind_none]

/-- Outside of leap seconds the hours are taken from the seconds. -/
theorem hoursBefore?_eq (h : now.isLeap = false) :
    hoursBefore? hours now =
      if 3600000 * hours ≤ longest then
        Instant.inRange? ⟨now.seconds - 3600 * hours, now.nanos⟩ else none := by
  have hSeconds : now.seconds + -((3600 * hours : Nat) : Int) = now.seconds - 3600 * hours := by
    omega
  rw [hoursBefore?, Instant.shift?, Instant.shift_seconds h, hSeconds]

/-- Hours beyond 64 bits of seconds reach back to no time at all. -/
example : hoursBefore? 1 ⟨7200, 5⟩ = some ⟨3600, 5⟩ ∧
    hoursBefore? 0xffffffffffffffff ⟨7200, 5⟩ = none := by
  decide

/-- What is more hours back is no later. -/
theorem hoursBefore?_mono (hNow : now.IsRegular) (hLe : hours ≤ more)
    (h : hoursBefore? more now = some cutoff) :
    ∃ later, hoursBefore? hours now = some later ∧ cutoff ≤ later := by
  unfold hoursBefore? at *
  split at h
  · next hFits =>
    have hFits' : 3600000 * hours ≤ longest := by omega
    have hNanos : now.nanos < 2 * nanosPerSecond := by
      have hRegular := hNow.nanos
      omega
    obtain ⟨a, ha⟩ : ∃ a, a = -((3600 * hours : Nat) : Int) * nanosPerSecond := ⟨_, rfl⟩
    obtain ⟨b, hb⟩ : ∃ b, b = -((3600 * more : Nat) : Int) * nanosPerSecond := ⟨_, rfl⟩
    have hOrder : b ≤ a ∧ a ≤ 0 := by
      simp only [nanosPerSecond] at ha hb
      omega
    have hUp := Instant.shift_mono now hOrder.1
    have hDown := Instant.seconds_le (Instant.shift_le hNanos hOrder.2)
    rw [← hb, Instant.shift?, Instant.inRange?] at h
    split at h
    · next hRange =>
      cases h
      have hSeconds := Instant.seconds_le hUp
      have hNowRange := hNow.inRange
      refine ⟨now.shift a, ?_, hUp⟩
      rw [if_pos hFits', ← ha, Instant.shift?, Instant.inRange?, if_pos (by omega)]
    · cases h
  · cases h

-- ---------------------------------------------------------------------------
-- Deleting
-- ---------------------------------------------------------------------------

/-- Did the run end more than so many hours before the time? -/
def Outdated (hours : Nat) (now : Instant) (x : JobRecord) : Prop :=
  x.isTerminal = true ∧ ∃ finished cutoff, x.finishedAt = some finished ∧
    hoursBefore? hours now = some cutoff ∧ finished < cutoff

theorem outdated_iff (h : hoursBefore? hours now = some cutoff) :
    Outdated hours now x ↔ Store.expired cutoff x = true := by
  simp [Outdated, Store.expired, h, Option.any_eq_true]

theorem not_outdated (h : hoursBefore? hours now = none) : ¬Outdated hours now x := by
  rintro ⟨-, -, cutoff, -, hSome, -⟩
  rw [h] at hSome
  cases hSome

instance : Decidable (Outdated hours now x) :=
  match h : hoursBefore? hours now with
  | some cutoff => decidable_of_iff (Store.expired cutoff x = true) (outdated_iff h).symm
  | none => .isFalse (not_outdated h)

/-- The number of records that a purge deletes, and the store that it leaves. -/
def purged (hours : Nat) (now : Instant) (s : Store) : Nat × Store :=
  match hoursBefore? hours now with
  | some cutoff => s.deleteFinishedBefore cutoff
  | none => (0, s)

theorem purged_records :
    (purged hours now s).2.records = s.records.filter (¬Outdated hours now ·) := by
  unfold purged
  split
  · next cutoff hCutoff =>
    refine List.filter_congr fun x _ => ?_
    simp [outdated_iff hCutoff]
  · next hNone =>
    refine (List.filter_eq_self.mpr fun x _ => ?_).symm
    simp [not_outdated hNone]

theorem purged_count : (purged hours now s).1 = s.records.countP (Outdated hours now ·) := by
  have hSplit := List.length_eq_countP_add_countP (Outdated hours now ·) (l := s.records)
  have hKept : (purged hours now s).2.records.length =
      s.records.countP (¬Outdated hours now ·) := by
    rw [purged_records, List.countP_eq_length_filter]
  have hCount : (purged hours now s).1 =
      s.records.length - (purged hours now s).2.records.length := by
    unfold purged
    split
    · rfl
    · exact (Nat.sub_self _).symm
  simp only [decide_eq_true_eq] at hSplit
  omega

theorem mem_purged_iff :
    x ∈ (purged hours now s).2.records ↔ x ∈ s.records ∧ ¬Outdated hours now x := by
  rw [purged_records, List.mem_filter, decide_eq_true_eq]

theorem ext_of_records {s s' : Store} (h : s.records = s'.records) : s = s' := by
  cases s
  cases h
  rfl

/-- A store that was purged has nothing more to purge. -/
theorem purged_purged : purged hours now (purged hours now s).2 = (0, (purged hours now s).2) := by
  have hNone : ∀ x ∈ (purged hours now s).2.records, ¬Outdated hours now x := fun x hx =>
    (mem_purged_iff.mp hx).2
  refine Prod.ext ?_ (ext_of_records ?_)
  · rw [purged_count, List.countP_eq_zero]
    simpa using hNone
  · rw [purged_records, List.filter_eq_self]
    simpa using hNone

/-- What is outdated with a longer retention is so with a shorter one. -/
theorem Outdated.mono (hNow : now.IsRegular) (hLe : hours ≤ more) (h : Outdated more now x) :
    Outdated hours now x := by
  obtain ⟨hOver, finished, cutoff, hFinished, hCutoff, hBefore⟩ := h
  obtain ⟨later, hLater, hOrder⟩ := hoursBefore?_mono hNow hLe hCutoff
  exact ⟨hOver, finished, later, hFinished, hLater, Instant.lt_of_lt_of_le hBefore hOrder⟩

-- ---------------------------------------------------------------------------
-- Purges of a realm and of a job
-- ---------------------------------------------------------------------------

variable {w : Workshop} {at' : Situation} {settings : RealmSettings}

/-- The system after a definition that ended this way has deleted the records. -/
def swept {δ : Type} (e : Ending) (u : System δ) : System δ :=
  (e.sweep.bind fun cutoff => u.step (.sweep cutoff)).getD u

/-- Does a job with so many hours of retention purge the store of the system that it runs in, leave
the rest of it alone, and tell how many records it deleted? -/
def Performs (hours : Nat) (w : Workshop) (at' : Situation) : Prop :=
  ∃ ending output, Task.performer at' .purgeRecords w = (w, some ending) ∧
    (∀ {δ : Type} (u : System δ), u.realm.store = at'.store → swept ending u =
      { u with realm := { u.realm with store := (purged hours at'.now at'.store).2 } }) ∧
    ending.outcome = .ok (some output) ∧
    output.field? "removed" = some (.int (purged hours at'.now at'.store).1)

theorem field?_report (removed : Nat) (cutoff : Instant) :
    (report removed cutoff).field? "removed" = some (.int removed) := by
  simp only [report, Json.object, Json.field?, Dict.ofList, List.foldl, Dict.insert]
  rw [Dict.lookup_insertEntry, Dict.lookup_insertEntry, if_neg (by decide), if_pos rfl]

/-- A job whose retention is so many hours. -/
theorem performs_of_retention
    (h : retentionFor w.retention at'.context.arguments =
      .ok (.ofSeconds (min (3600 * hours) 0xffffffffffffffff))) : Performs hours w at' := by
  unfold Performs Task.performer Purge.run purged
  simp only [h, cutoff?_hours]
  cases hoursBefore? hours at'.now with
  | none =>
    refine ⟨_, idleReport, rfl, fun u hStore => ?_, rfl, rfl⟩
    rw [← hStore]
    rfl
  | some cutoff =>
    refine ⟨_, report _ cutoff, rfl, fun u hStore => ?_, rfl, field?_report ..⟩
    rw [← hStore]
    rfl

theorem performs_of_settings (hSettings : settings.retentionHours = hours)
    (hConfigured : w.retention = settings.retention)
    (hPlain : at'.context.arguments.contains retentionArg = false) : Performs hours w at' := by
  refine performs_of_retention ?_
  rw [retentionFor, if_neg (by simp [hPlain]), hConfigured, RealmSettings.retention, hSettings]

/-- An argument that is read is there. -/
theorem contains_of_getInt {args : Arguments} {key : String} {n : Int}
    (h : args.getInt key = .ok n) : args.contains key = true := by
  cases hFound : args.get? key with
  | none => simp [Arguments.getInt, Arguments.require, hFound, bind, Except.bind] at h
  | some a => simp [Dict.contains, hFound]

theorem performs_of_argument (hArgument : at'.context.arguments.getInt retentionArg = .ok hours) :
    Performs hours w at' := by
  refine performs_of_retention ?_
  have hNat : ¬((hours : Nat) : Int) < 0 := by omega
  rw [retentionFor, if_pos (contains_of_getInt hArgument), hArgument]
  simp only [if_neg hNat, Int.toNat_natCast, Nat.mul_comm]

/-- A realm that is asked to purge. -/
theorem begin_purge {δ : Type} {cue : Cue} {r : Realm δ}
    (hSettings : r.settings.retentionHours = hours) (hCalm : cue.fault = none) :
    Call.begin cue r .purge = some ({ r with store := (purged hours cue.now r.store).2 },
      .done (.ok (.count (purged hours cue.now r.store).1))) := by
  simp only [Call.begin, RealmSettings.retention, hSettings, cutoff?_hours, purged]
  cases hoursBefore? hours cue.now with
  | none => rfl
  | some cutoff => simp [Realm.tell, hCalm, Call.finish, Call.storeAnswer]

/-- A retention of less than no hours is a fault that trying again cannot mend. -/
theorem performer_of_negative {n : Int} (hNegative : n < 0)
    (hArgument : at'.context.arguments.getInt retentionArg = .ok n) :
    Task.performer at' .purgeRecords w =
      (w, some { outcome := .error (.fatal (retentionArg ++ " must not be negative")) }) := by
  simp only [Task.performer, Purge.run, retentionFor, contains_of_getInt hArgument, hArgument,
    if_pos hNegative, if_true]

/-- Do all purges with so many hours of retention do the same to a store at a time, and just what
they should? -/
structure Exact (hours : Nat) (now : Instant) (s : Store) : Prop where
  /-- A realm deletes the outdated records when it is asked to, and says how many they were. -/
  call : ∀ {δ : Type} (r : Realm δ) cue, r.settings.retentionHours = hours → r.store = s →
    cue.now = now → cue.fault = none →
      Call.begin cue r .purge = some ({ r with store := (purged hours now s).2 },
        .done (.ok (.count (purged hours now s).1)))
  /-- So does a job with the retention of these settings. -/
  job : ∀ (settings : RealmSettings) w (at' : Situation), settings.retentionHours = hours →
    w.retention = settings.retention → at'.store = s → at'.now = now →
      at'.context.arguments.contains retentionArg = false → Performs hours w at'
  /-- So does a job with a retention of its own. -/
  argument : ∀ w (at' : Situation), at'.store = s → at'.now = now →
    at'.context.arguments.getInt retentionArg = .ok hours → Performs hours w at'
  /-- The outdated records are those of runs that ended before this time. -/
  cutoff : now.isLeap = false → hoursBefore? hours now =
    if 3600000 * hours ≤ longest then Instant.inRange? ⟨now.seconds - 3600 * hours, now.nanos⟩
    else none
  records : (purged hours now s).2.records = s.records.filter (¬Outdated hours now ·)
  count : (purged hours now s).1 = (s.records.filter (Outdated hours now ·)).length
  /-- A longer retention deletes no more. -/
  fewer : now.IsRegular → ∀ more, hours ≤ more → ∀ x, Outdated more now x → Outdated hours now x
  again : purged hours now (purged hours now s).2 = (0, (purged hours now s).2)
  /-- A job with a negative retention deletes nothing, and fails once and for all. -/
  negative : ∀ w (at' : Situation) (n : Int), n < 0 →
    at'.context.arguments.getInt retentionArg = .ok n →
      ∃ outcome, Task.performer at' .purgeRecords w = (w, some { outcome, sweep := none }) ∧
        ∀ record canceled, Worker.verdict record canceled outcome =
          .fail (.declared (retentionArg ++ " must not be negative") false)

/-- All purges with one retention delete the records that are outdated by it, and no others. -/
theorem exact_purge (hours : Nat) (now : Instant) (s : Store) : Exact hours now s where
  call r cue hSettings hStore hNow hCalm := by
    subst hStore hNow
    exact begin_purge hSettings hCalm
  job settings w at' hSettings hConfigured _ _ hPlain :=
    performs_of_settings hSettings hConfigured hPlain
  argument w at' _ _ hArgument := performs_of_argument hArgument
  cutoff h := hoursBefore?_eq h
  records := purged_records
  count := by rw [purged_count, List.countP_eq_length_filter]
  fewer hNow more hLe x h := h.mono hNow hLe
  again := purged_purged
  negative w at' n hNegative hArgument :=
    ⟨_, performer_of_negative hNegative hArgument, fun _ _ => rfl⟩

end Purge

end BackgroundJobs
