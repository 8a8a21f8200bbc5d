import BackgroundJobs.Job.Record
import BackgroundJobs.Proofs.Json.Reading
import BackgroundJobs.Proofs.Time.Stamp
import BackgroundJobs.Proofs.Uuid

/-!
# Proofs — stored records

A record is written with all its fields, and read back field by field. What is
absent is written `null`, so a result that is `null` itself comes back as none;
everything else comes back as it was. Arguments are written with their kind, which
keeps values apart that look the same without it.

The fields are taken to hold what their stored form has room for: numbers within
their width, fractions that are finite, and instants of the calendar.

Main results:

* `Argument.ofJson?_toJson`     — an argument is read back, in its kind.
* `JobRecord.ofJson?_toJson`    — a record is read back, but for a `null` result.
* `JobRecord.survives_encoding` — what survives of a record that is written.
-/

namespace BackgroundJobs

open Json.FieldReader

-- ---------------------------------------------------------------------------
-- Names and identifiers
-- ---------------------------------------------------------------------------

theorem JobState.ofJson?_toJson (s : JobState) : JobState.ofJson? s.toJson = some s :=
  JobState.ofText?_text s

theorem Backoff.ofJson?_toJson (b : Backoff) : Backoff.ofJson? .strict b.toJson = some b := by
  cases b <;> rfl

theorem FailureKind.ofJson?_toJson (k : FailureKind) : FailureKind.ofJson? k.toJson = some k := by
  cases k <;> rfl

theorem JobId.ofJson?_toJson (id : JobId) : JobId.ofJson? id.toJson = some id := by
  simp only [JobId.ofJson?, JobId.toJson, JobId.text, Json.toStr?, Option.bind_some,
    Uuid.parse?_text, Option.map_some]

theorem TriggerId.ofJson?_toJson (id : TriggerId) : TriggerId.ofJson? id.toJson = some id := by
  simp only [TriggerId.ofJson?, TriggerId.toJson, TriggerId.text, Json.toStr?, Option.bind_some,
    Uuid.parse?_text, Option.map_some]

theorem Instant.ofJson?_toJson {t : Instant} (h : t.IsRegular) :
    Instant.ofJson? t.toJson = some t := by
  simp only [Instant.ofJson?, Instant.toJson, Json.toStr?, Option.bind_some, parse?_text h]

-- ---------------------------------------------------------------------------
-- Durations and policies
-- ---------------------------------------------------------------------------

/-- Have the whole seconds room in 64 bits? -/
def Duration.IsStorable (d : Duration) : Prop :=
  d.seconds < 2 ^ 64

instance (d : Duration) : Decidable d.IsStorable :=
  inferInstanceAs (Decidable (d.seconds < 2 ^ 64))

theorem Duration.ofJson?_toJson {d : Duration} (h : d.IsStorable) :
    Duration.ofJson? d.toJson = some d := by
  have hNanos : d.nanos % 1000000000 < 2 ^ 32 := by omega
  have hRead : d.toJson.toRecord? (do
      pure (← Json.FieldReader.required "secs" (Json.toNatBits? 64),
        ← Json.FieldReader.required "nanos" (Json.toNatBits? 32))) =
      some (d.seconds, d.nanos % 1000000000) :=
    Json.toRecord?_record <|
      (reads_required rfl (Json.toNatBits?_int h)).bind <|
      (reads_required rfl (Json.toNatBits?_int hNanos)).bind <|
      .pure _ _
  have hWhole : (⟨d.seconds * 1000000000 + d.nanos % 1000000000⟩ : Duration) = d := by
    cases d
    simp only [Duration.seconds, Duration.mk.injEq]
    omega
  calc Duration.ofJson? d.toJson
    _ = (d.toJson.toRecord? (do
          pure (← Json.FieldReader.required "secs" (Json.toNatBits? 64),
            ← Json.FieldReader.required "nanos" (Json.toNatBits? 32)))).bind fun x =>
          let whole : Duration := ⟨x.1 * 1000000000 + x.2⟩
          if whole.seconds < 0x10000000000000000 then some whole else none := rfl
    _ = some d := by
      rw [hRead, Option.bind_some, hWhole]
      exact if_pos h

/-- Do the numbers have room in their widths, and is the jitter finite? -/
structure RetryPolicy.IsStorable (p : RetryPolicy) : Prop where
  maxAttempts : p.maxAttempts < 2 ^ 32
  baseDelay : p.baseDelay.IsStorable
  maxDelay : p.maxDelay.IsStorable
  jitter : p.jitter.isFinite = true

theorem RetryPolicy.ofJson?_toJson {p : RetryPolicy} (h : p.IsStorable) :
    RetryPolicy.ofJson? p.toJson = some p := by
  have hJitter : (Json.ofFloat p.jitter).toFloat? = some p.jitter := by
    rw [Json.ofFloat_of_isFinite h.jitter]
    rfl
  exact Json.toRecord?_record <|
    (reads_required rfl (Json.toNatBits?_int h.maxAttempts)).bind <|
    (reads_required rfl (Duration.ofJson?_toJson h.baseDelay)).bind <|
    (reads_required rfl (Duration.ofJson?_toJson h.maxDelay)).bind <|
    (reads_required rfl (Backoff.ofJson?_toJson p.strategy)).bind <|
    (reads_required rfl hJitter).bind <|
    .pure _ _

theorem Failure.ofJson?_toJson (f : Failure) : Failure.ofJson? f.toJson = some f :=
  Json.toRecord?_record <|
    (reads_required rfl (show Json.toStr? (.str f.message) = some f.message from rfl)).bind <|
    (reads_required rfl (show Json.toBool? (.bool f.retryable) = some f.retryable from rfl)).bind <|
    (reads_required rfl (FailureKind.ofJson?_toJson f.kind)).bind <|
    .pure _ _

-- ---------------------------------------------------------------------------
-- Arguments
-- ---------------------------------------------------------------------------

/-- Has a whole number room in 64 bits, and is a fraction finite? -/
def Argument.IsStorable : Argument → Prop
  | .int i => -0x8000000000000000 ≤ i ∧ i ≤ 0x7fffffffffffffff
  | .float x => x.isFinite = true
  | _ => True

instance (a : Argument) : Decidable a.IsStorable :=
  match a with
  | .int i => inferInstanceAs (Decidable (-0x8000000000000000 ≤ i ∧ i ≤ 0x7fffffffffffffff))
  | .float x => inferInstanceAs (Decidable (x.isFinite = true))
  | .null | .bool _ | .str _ | .json _ => .isTrue trivial

/-- An argument is read back, in its kind. -/
theorem Argument.ofJson?_toJson {a : Argument} (h : a.IsStorable) :
    Argument.ofJson? a.toJson = some a := by
  cases a with
  | null | bool b | str s | json j => rfl
  | int i =>
    show ((Json.int i).toInt64?).map Argument.int = some (.int i)
    have hWithin : -0x8000000000000000 ≤ i ∧ i ≤ 0x7fffffffffffffff := h
    rw [Json.toInt64?, Json.toIntWithin?, if_pos hWithin]
    rfl
  | float x =>
    show ((Json.ofFloat x).toFloat?).map Argument.float = some (.float x)
    rw [Json.ofFloat_of_isFinite h]
    rfl

theorem Arguments.ofJson?_toJson {args : Arguments} (h : ∀ e ∈ args.entries, e.2.IsStorable) :
    Arguments.ofJson? args.toJson = some args :=
  Json.toDictOf?_ofDict fun e he => Argument.ofJson?_toJson (h e he)

theorem Metadata.ofJson?_toJson (m : Metadata) : Metadata.ofJson? m.toJson = some m :=
  Json.toDictOf?_ofDict fun _ _ => rfl

-- ---------------------------------------------------------------------------
-- Records
-- ---------------------------------------------------------------------------

/-- Do the numbers have room in their widths, and are the instants those of the calendar? -/
structure Attempt.IsStorable (a : Attempt) : Prop where
  number : a.number < 2 ^ 32
  startedAt : a.startedAt.IsRegular
  finishedAt : a.finishedAt.IsRegular
  durationMillis : a.durationMillis < 2 ^ 64

theorem Attempt.ofJson?_toJson {a : Attempt} (h : a.IsStorable) :
    Attempt.ofJson? a.toJson = some a := by
  have hError : (Json.ofOption .str a.error).toOptionOf? Json.toStr? = some a.error :=
    Json.toOptionOf?_ofOption fun s _ => ⟨nofun, rfl⟩
  exact Json.toRecord?_record <|
    (reads_required rfl (Json.toNatBits?_int h.number)).bind <|
    (reads_required rfl (Instant.ofJson?_toJson h.startedAt)).bind <|
    (reads_required rfl (Instant.ofJson?_toJson h.finishedAt)).bind <|
    (reads_required rfl (show Json.toBool? (.bool a.success) = some a.success from rfl)).bind <|
    (reads_required rfl (JobState.ofJson?_toJson a.outcome)).bind <|
    (reads_optional rfl hError).bind <|
    (reads_required rfl (Json.toNatBits?_int h.durationMillis)).bind <|
    .pure _ _

namespace JobRecord

/-- Do the numbers have room in their widths, are the fractions finite, and the instants those of
the calendar? -/
structure IsStorable (r : JobRecord) : Prop where
  arguments : ∀ e ∈ r.arguments.entries, e.2.IsStorable
  attempts : r.attempts < 2 ^ 32
  retryPolicy : r.retryPolicy.IsStorable
  createdAt : r.createdAt.IsRegular
  updatedAt : r.updatedAt.IsRegular
  startedAt : ∀ t ∈ r.startedAt, t.IsRegular
  finishedAt : ∀ t ∈ r.finishedAt, t.IsRegular
  history : ∀ a ∈ r.history, a.IsStorable

/-- The result, unless it is `null`. -/
def presentResult (r : JobRecord) : Option Json :=
  r.result.bind fun
    | .null => none
    | j => some j

/-- The record without a result that is `null`. -/
def withoutNull (r : JobRecord) : JobRecord :=
  { r with result := r.presentResult }

theorem toOptionOf?_result (r : JobRecord) :
    (r.result.getD .null).toOptionOf? some = some r.presentResult := by
  unfold presentResult
  cases r.result with
  | none => rfl
  | some j => cases j <;> rfl

theorem presentResult_eq_result_iff (r : JobRecord) :
    r.presentResult = r.result ↔ r.result ≠ some .null := by
  unfold presentResult
  cases r.result with
  | none => simp
  | some j => cases j <;> simp

/-- A record is read back, but for a `null` result. -/
theorem ofJson?_toJson {r : JobRecord} (h : r.IsStorable) :
    ofJson? r.toJson = some r.withoutNull := by
  have hStarted : (Json.ofOption Instant.toJson r.startedAt).toOptionOf? Instant.ofJson? =
      some r.startedAt :=
    Json.toOptionOf?_ofOption fun t ht => ⟨nofun, Instant.ofJson?_toJson (h.startedAt t ht)⟩
  have hFinished : (Json.ofOption Instant.toJson r.finishedAt).toOptionOf? Instant.ofJson? =
      some r.finishedAt :=
    Json.toOptionOf?_ofOption fun t ht => ⟨nofun, Instant.ofJson?_toJson (h.finishedAt t ht)⟩
  have hError : (Json.ofOption Failure.toJson r.error).toOptionOf? Failure.ofJson? = some r.error :=
    Json.toOptionOf?_ofOption fun f _ => ⟨nofun, Failure.ofJson?_toJson f⟩
  have hTrigger : (Json.ofOption TriggerId.toJson r.triggerId).toOptionOf? TriggerId.ofJson? =
      some r.triggerId :=
    Json.toOptionOf?_ofOption fun id _ => ⟨nofun, TriggerId.ofJson?_toJson id⟩
  have hHistory : (Json.ofList Attempt.toJson r.history).toListOf? Attempt.ofJson? =
      some r.history :=
    Json.toListOf?_ofList fun a ha => Attempt.ofJson?_toJson (h.history a ha)
  exact Json.toRecord?_record <|
    (reads_required rfl (JobId.ofJson?_toJson r.id)).bind <|
    (reads_required rfl (show Json.toStr? (.str r.jobKey) = some r.jobKey from rfl)).bind <|
    (reads_required rfl (show Json.toStr? (.str r.name) = some r.name from rfl)).bind <|
    (reads_required rfl (show Json.toStr? (.str r.group) = some r.group from rfl)).bind <|
    (reads_required rfl (Arguments.ofJson?_toJson h.arguments)).bind <|
    (reads_required rfl (Metadata.ofJson?_toJson r.metadata)).bind <|
    (reads_required rfl (JobState.ofJson?_toJson r.state)).bind <|
    (reads_required rfl (Json.toNatBits?_int h.attempts)).bind <|
    (reads_required rfl (RetryPolicy.ofJson?_toJson h.retryPolicy)).bind <|
    (reads_required rfl (Instant.ofJson?_toJson h.createdAt)).bind <|
    (reads_required rfl (Instant.ofJson?_toJson h.updatedAt)).bind <|
    (reads_optional rfl hStarted).bind <|
    (reads_optional rfl hFinished).bind <|
    (reads_optional rfl r.toOptionOf?_result).bind <|
    (reads_optional rfl hError).bind <|
    (reads_required rfl hHistory).bind <|
    (reads_optional rfl hTrigger).bind <|
    (reads_required rfl
      (show Json.toBool? (.bool r.cancelRequested) = some r.cancelRequested from rfl)).bind <|
    .pure _ _

/-- What is read back is written like the record itself. -/
theorem toJson_withoutNull (r : JobRecord) : r.withoutNull.toJson = r.toJson := by
  have hResult : r.presentResult.getD .null = r.result.getD .null := by
    unfold presentResult
    cases r.result with
    | none => rfl
    | some j => cases j <;> rfl
  simp only [withoutNull, toJson, hResult]

theorem withoutNull_eq_self_iff (r : JobRecord) : r.withoutNull = r ↔ r.result ≠ some .null := by
  rw [← presentResult_eq_result_iff]
  constructor
  · intro hSame
    exact congrArg JobRecord.result hSame
  · intro hResult
    rw [withoutNull, hResult]

/-- A record that is written and read back is the same but for a result that is `null`, which comes
back as none, and is written as before. So records that are written alike agree in all but that: in
each argument, which is absent or present in its kind, and in everything else. -/
theorem survives_encoding {r : JobRecord} (h : r.IsStorable) :
    ofJson? r.toJson = some r.withoutNull ∧
      (ofJson? r.toJson = some r ↔ r.result ≠ some .null) ∧
      (ofJson? r.toJson).map toJson = some r.toJson ∧
      ∀ r' : JobRecord, r'.IsStorable → r'.toJson = r.toJson →
        r'.withoutNull = r.withoutNull ∧
          ∀ key, r'.arguments.get? key = r.arguments.get? key := by
  refine ⟨ofJson?_toJson h, ?_, ?_, fun r' h' hAlike => ?_⟩
  · rw [ofJson?_toJson h, Option.some_inj, withoutNull_eq_self_iff]
  · rw [ofJson?_toJson h, Option.map_some, toJson_withoutNull]
  · have hSame : r'.withoutNull = r.withoutNull := by
      have hRead := ofJson?_toJson h'
      rw [hAlike, ofJson?_toJson h] at hRead
      exact (Option.some.inj hRead).symm
    have hArguments : r'.arguments = r.arguments :=
      show r'.withoutNull.arguments = r.withoutNull.arguments by rw [hSame]
    exact ⟨hSame, fun key => by rw [hArguments]⟩

/-- A record that returned `null` after a second attempt, in a leap second, with arguments that all
look like `null` or like one. -/
def lookalikes : JobRecord where
  id := ⟨⟨1⟩⟩
  jobKey := "job"
  name := "job"
  group := "default"
  arguments := Dict.ofList [("absent", .null), ("opaque", .json .null), ("whole", .int 1),
    ("fraction", .float 1.0), ("document", .json (.int 1)), ("nested", .json (.arr [.obj []]))]
  metadata := Dict.ofList [("owner", "acme")]
  state := .finished
  attempts := 2
  retryPolicy := .standard
  createdAt := ⟨1483228798, 0⟩
  updatedAt := ⟨1483228800, 250000000⟩
  startedAt := some ⟨1483228799, 1500000000⟩
  finishedAt := some ⟨1483228800, 250000000⟩
  result := some .null
  error := none
  history := [⟨1, ⟨1483228798, 1000⟩, ⟨1483228799, 7⟩, false, .queued, some "busy", 999⟩]
  triggerId := some ⟨⟨2⟩⟩
  cancelRequested := false

theorem survives_encoding_lookalikes :
    ofJson? lookalikes.toJson = some lookalikes.withoutNull ∧
      ofJson? lookalikes.toJson ≠ some lookalikes := by
  have hStorable : lookalikes.IsStorable := {
    arguments := by decide +kernel
    attempts := by decide
    retryPolicy := ⟨by decide, by decide, by decide, by decide +kernel⟩
    createdAt := ⟨by decide, by decide⟩
    updatedAt := ⟨by decide, by decide⟩
    startedAt := by
      rintro t ⟨⟩
      exact ⟨by decide, by decide⟩
    finishedAt := by
      rintro t ⟨⟩
      exact ⟨by decide, by decide⟩
    history := by
      intro a ha
      cases List.mem_singleton.mp ha
      exact ⟨by decide, ⟨by decide, by decide⟩, ⟨by decide, by decide⟩, by decide⟩ }
  obtain ⟨hRead, hSame, -⟩ := survives_encoding hStorable
  exact ⟨hRead, fun hAll => hSame.mp hAll rfl⟩

end JobRecord

end BackgroundJobs
