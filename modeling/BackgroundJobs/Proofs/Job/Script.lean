import BackgroundJobs.Proofs.Realm.Admissions
import BackgroundJobs.Proofs.Store.Soundness
import BackgroundJobs.Realm.Worker
import Mathlib.Data.Nat.Find
import Mathlib.Order.Bounds.Basic

/-!
# Proofs — records that follow a script

A script says how each call of a definition ends, by the number of the attempt
that it is made for. Together with the retry policy of the run it says what
every attempt leads to: a retryable failure with attempts left leads back to the
queue, and anything else ends the run. So the whole record can be told from the
script, the number of its attempts and its state.

Main results:

* `Worker.verdict_of_repeats`, `Worker.verdict_of_not_repeats` — what a worker
  makes of the outcome of an attempt that was not told to stop.
* `Obeys.of_made`, `Obeys.start`, `Obeys.settle` — a record obeys the script
  when it is made, when an attempt begins and when its outcome is recorded.
* `Obeys.isLast`, `Obeys.endedBy` — with which attempt a run ends, and how.
-/

namespace BackgroundJobs

-- ---------------------------------------------------------------------------
-- Outcomes
-- ---------------------------------------------------------------------------

namespace Outcome

/-- Is the outcome a declared failure that may pass? -/
def retryable : Outcome → Bool
  | .error (.failed _ true) => true
  | _ => false

/-- How a run ends whose last attempt has this outcome: its state, its result and its error. -/
def ending : Outcome → JobState × Option Json × Option Failure
  | .ok output => (.finished, output, none)
  | .error .canceled => (.canceled, none, none)
  | .error (.failed message retryable) => (.failed, none, some ⟨message, retryable, .execution⟩)
  | .error (.unexpected chain) =>
    (.failed, none, some ⟨ExecutionError.chainText chain, false, .unexpected⟩)

/-- What the history says of an attempt with this outcome. -/
def remark : Outcome → Option String
  | .error (.failed message _) => some message
  | .error (.unexpected chain) => some (ExecutionError.chainText chain)
  | _ => none

theorem isTerminal_ending (outcome : Outcome) : outcome.ending.1.isTerminal = true := by
  unfold ending
  split <;> rfl

/-- Only a run that finishes has a result. -/
theorem result_ending {outcome : Outcome} (h : outcome.ending.1 ≠ .finished) :
    outcome.ending.2.1 = none := by
  unfold ending at h ⊢
  split at h
  · exact absurd rfl h
  · rfl
  · rfl
  · rfl

/-- Only a run that fails has an error. -/
theorem error_ending {outcome : Outcome} (h : outcome.ending.1 ≠ .failed) :
    outcome.ending.2.2 = none := by
  unfold ending at h ⊢
  split at h
  · rfl
  · rfl
  · exact absurd rfl h
  · exact absurd rfl h

end Outcome

namespace RetryPolicy

/-- Is the attempt of that number repeated, if its definition ends as the script says? -/
def repeats (p : RetryPolicy) (script : Nat → Outcome) (i : Nat) : Bool :=
  (script i).retryable && p.allowsAfter i

/-- The state that the attempt of that number leads to. -/
def reached (p : RetryPolicy) (script : Nat → Outcome) (i : Nat) : JobState :=
  if p.repeats script i then .queued else (script i).ending.1

/-- Is this the number of the last attempt: the first one whose outcome is no retryable failure, or
that is the last one allowed? -/
def IsLast (p : RetryPolicy) (script : Nat → Outcome) (k : Nat) : Prop :=
  IsLeast {i | 1 ≤ i ∧ ((script i).retryable = false ∨ max 1 p.maxAttempts ≤ i)} k

/-- There is a last attempt, whatever the script. -/
theorem exists_isLast (p : RetryPolicy) (script : Nat → Outcome) : ∃ k, p.IsLast script k := by
  have hSome : ∃ i, 1 ≤ i ∧ ((script i).retryable = false ∨ max 1 p.maxAttempts ≤ i) :=
    ⟨max 1 p.maxAttempts, Nat.le_max_left _ _, .inr (Nat.le_refl _)⟩
  classical exact ⟨Nat.find hSome, Nat.find_spec hSome, fun i hi => Nat.find_min' hSome hi⟩

end RetryPolicy

/-- What an entry of a history tells of its attempt, but for the times. -/
def Attempt.told (a : Attempt) : Nat × Bool × JobState × Option String :=
  (a.number, a.success, a.outcome, a.error)

/-- What is to be told of the attempt of that number. -/
def RetryPolicy.entry (p : RetryPolicy) (script : Nat → Outcome) (i : Nat) :
    Nat × Bool × JobState × Option String :=
  (i, p.reached script i = .finished, p.reached script i, (script i).remark)

namespace Worker

variable {record : JobRecord} {script : Nat → Outcome}

/-- An attempt that is to be repeated goes back to the queue with its message. -/
theorem verdict_of_repeats (hUnmarked : record.cancelRequested = false)
    (h : record.retryPolicy.repeats script record.attempts = true) :
    ∃ message, verdict record false (script record.attempts) = .requeue message ∧
      (script record.attempts).remark = some message := by
  rw [RetryPolicy.repeats, Bool.and_eq_true] at h
  obtain ⟨hPasses, hAllows⟩ := h
  generalize script record.attempts = outcome at hPasses ⊢
  unfold Outcome.retryable at hPasses
  split at hPasses
  · next message => exact ⟨message, by simp [verdict, hUnmarked, hAllows], rfl⟩
  · cases hPasses

/-- Any other attempt ends the run. -/
theorem verdict_of_not_repeats (hUnmarked : record.cancelRequested = false)
    (h : record.retryPolicy.repeats script record.attempts = false) :
    ((verdict record false (script record.attempts)).target,
        (verdict record false (script record.attempts)).result,
        (verdict record false (script record.attempts)).error) = (script record.attempts).ending ∧
      (verdict record false (script record.attempts)).remark =
        (script record.attempts).remark := by
  rw [RetryPolicy.repeats] at h
  generalize script record.attempts = outcome at h ⊢
  cases outcome with
  | ok output => exact ⟨rfl, rfl⟩
  | error e =>
    cases e with
    | canceled => exact ⟨rfl, rfl⟩
    | unexpected chain => exact ⟨rfl, rfl⟩
    | failed message retryable =>
      cases retryable with
      | false => exact ⟨rfl, rfl⟩
      | true =>
        have hAllows : record.retryPolicy.allowsAfter record.attempts = false := h
        have hFails : verdict record false (.error (.failed message true)) =
            .fail (.declared message true) := by
          simp [verdict, hUnmarked, hAllows]
        rw [hFails]
        exact ⟨rfl, rfl⟩

end Worker

-- ---------------------------------------------------------------------------
-- Records
-- ---------------------------------------------------------------------------

namespace JobRecord

/-- The number of attempts that have ended. -/
def endedAttempts (x : JobRecord) : Nat :=
  if x.state = .running then x.attempts - 1 else x.attempts

/-- Is this what becomes of a run that nobody disturbs, if its definition follows the script? -/
structure Obeys (x : JobRecord) (script : Nat → Outcome) : Prop where
  unmarked : x.cancelRequested = false
  /-- Every attempt but the last one was repeated. -/
  repeated : ∀ i, 1 ≤ i → i < x.attempts → x.retryPolicy.repeats script i = true
  waiting : x.state = .queued → x.attempts = 0 ∨ x.retryPolicy.repeats script x.attempts = true
  begun : x.state ≠ .queued → 1 ≤ x.attempts
  started : x.state = .running → x.startedAt.isSome = true
  unended : x.isActive = true → x.result = none ∧ x.error = none
  ended : x.isActive = false → x.retryPolicy.repeats script x.attempts = false ∧
    (x.state, x.result, x.error) = (script x.attempts).ending
  history : x.history.map Attempt.told =
    (List.range' 1 x.endedAttempts).map (x.retryPolicy.entry script)

namespace Obeys

variable {x : JobRecord} {script : Nat → Outcome}

theorem of_made {a : Admission} (h : a.Made x) : x.Obeys script := by
  obtain ⟨id, now, rfl⟩ := h
  exact ⟨rfl, fun i _ hi => absurd hi (Nat.not_lt_zero i), fun _ => .inl rfl,
    fun hNot => absurd rfl hNot, nofun, fun _ => ⟨rfl, rfl⟩, nofun, rfl⟩

/-- The next attempt begins. -/
theorem start (h : x.Obeys script) (hQueued : x.state = .queued) (now : Instant) :
    (Transition.start.apply x now).Obeys script where
  unmarked := h.unmarked
  repeated i hOne hi := by
    rcases Nat.lt_or_ge i x.attempts with hBefore | hLast
    · exact h.repeated i hOne hBefore
    · obtain rfl : i = x.attempts := Nat.le_antisymm (Nat.le_of_lt_succ hi) hLast
      exact (h.waiting hQueued).resolve_left (Nat.ne_of_gt hOne)
  waiting hWaits := by cases hWaits
  begun _ := Nat.le_add_left 1 x.attempts
  started _ := rfl
  unended _ := h.unended (isActive_of_queued hQueued)
  ended hOver := by cases hOver
  history := by
    have hEnded : (Transition.start.apply x now).endedAttempts = x.endedAttempts := by
      rw [endedAttempts, endedAttempts, hQueued]
      rfl
    rw [Transition.history_apply_of_queued now hQueued, hEnded]
    exact h.history

/-- The history of an attempt that has ended as it should. -/
theorem history_settle (h : x.Obeys script) (hRunning : x.state = .running) {t : Transition}
    (hTarget : t.target = x.retryPolicy.reached script x.attempts) (hEnds : t.target ≠ .running)
    (hRemark : t.remark = (script x.attempts).remark) (now : Instant) :
    (t.apply x now).history.map Attempt.told =
      (List.range' 1 (t.apply x now).endedAttempts).map (x.retryPolicy.entry script) := by
  obtain ⟨start, hStart⟩ := Option.isSome_iff_exists.mp (h.started hRunning)
  have hBegun : 1 ≤ x.attempts := h.begun (by rw [hRunning]; nofun)
  have hBefore : x.endedAttempts = x.attempts - 1 := by rw [endedAttempts, if_pos hRunning]
  have hAfter : (t.apply x now).endedAttempts = x.attempts - 1 + 1 := by
    rw [endedAttempts, Transition.apply_state, if_neg hEnds]
    simp only [Transition.apply, if_neg hEnds]
    omega
  have hEntry : (t.closing x start now).told = x.retryPolicy.entry script x.attempts := by
    simp only [Transition.closing, Attempt.told, RetryPolicy.entry, hTarget, hRemark]
  rw [Transition.history_apply_of_running now hRunning hEnds hStart, List.map_append, h.history,
    hBefore, hAfter, List.range'_1_concat, List.map_append, List.map_singleton, hEntry,
    List.map_singleton, Nat.add_sub_cancel' hBegun]

/-- The outcome of the attempt is recorded. -/
theorem settle (h : x.Obeys script) (hRunning : x.state = .running) (now : Instant) :
    ((Worker.verdict x false (script x.attempts)).apply x now).Obeys script := by
  have hBegun : 1 ≤ x.attempts := h.begun (by rw [hRunning]; nofun)
  obtain ⟨hResult, hError⟩ := h.unended (isActive_of_running hRunning)
  cases hAgain : x.retryPolicy.repeats script x.attempts with
  | true =>
    obtain ⟨message, hVerdict, hRemark⟩ := Worker.verdict_of_repeats h.unmarked hAgain
    rw [hVerdict]
    refine ⟨h.unmarked, h.repeated, fun _ => .inr hAgain, fun _ => hBegun, ?_,
      fun _ => ⟨hResult, hError⟩, ?_, ?_⟩
    · intro hRuns
      cases hRuns
    · intro hOver
      cases hOver
    have hTarget : (Transition.requeue message).target =
        x.retryPolicy.reached script x.attempts := by
      rw [RetryPolicy.reached, if_pos hAgain]
      rfl
    exact h.history_settle hRunning hTarget (by rintro ⟨⟩) hRemark.symm now
  | false =>
    obtain ⟨hEnding, hRemark⟩ := Worker.verdict_of_not_repeats h.unmarked hAgain
    generalize Worker.verdict x false (script x.attempts) = t at hEnding hRemark ⊢
    have hTarget : t.target = (script x.attempts).ending.1 := congrArg (·.1) hEnding
    have hOver : t.target.isTerminal = true := by
      rw [hTarget]
      exact Outcome.isTerminal_ending _
    obtain ⟨hNotQueued, hEnds⟩ := JobState.isTerminal_iff.mp hOver
    have hAttempts : (t.apply x now).attempts = x.attempts := by
      simp only [Transition.apply, if_neg hEnds]
    have hNotActive : (t.apply x now).isActive = false := by
      simpa [JobState.isTerminal, JobRecord.isActive] using hOver
    refine ⟨h.unmarked, ?_, fun hQueued => absurd hQueued hNotQueued, fun _ => ?_,
      fun hRuns => absurd hRuns hEnds, fun hActive => ?_, fun _ => ?_, ?_⟩
    · rw [hAttempts]
      exact h.repeated
    · rw [hAttempts]
      exact hBegun
    · rw [hNotActive] at hActive
      cases hActive
    · rw [hAttempts]
      refine ⟨hAgain, ?_⟩
      rw [← hEnding]
      have hRecordedResult : t.result = (script x.attempts).ending.2.1 := congrArg (·.2.1) hEnding
      have hRecordedError : t.error = (script x.attempts).ending.2.2 := congrArg (·.2.2) hEnding
      have hSameResult : (t.apply x now).result = t.result := by
        show (if t.target = .finished then t.result else x.result) = t.result
        split
        · rfl
        · next hNot => rw [hResult, hRecordedResult, Outcome.result_ending (hTarget ▸ hNot)]
      have hSameError : (t.apply x now).error = t.error := by
        show (if t.target = .failed then t.error else x.error) = t.error
        split
        · rfl
        · next hNot => rw [hError, hRecordedError, Outcome.error_ending (hTarget ▸ hNot)]
      rw [hSameResult, hSameError, Transition.apply_state]
    · refine h.history_settle hRunning ?_ hEnds hRemark now
      rw [RetryPolicy.reached, hAgain, hTarget]
      rfl

end Obeys

/-- Is this the record of a run that has ended with the attempt of that number, as the script has
it? -/
structure EndedBy (x : JobRecord) (script : Nat → Outcome) (k : Nat) : Prop where
  attempts : x.attempts = k
  ending : (x.state, x.result, x.error) = (script k).ending
  history : x.history.map Attempt.told =
    (List.range' 1 (k - 1)).map (fun i => (i, false, .queued, (script i).remark)) ++
      [(k, decide (x.state = .finished), x.state, (script k).remark)]

namespace Obeys

variable {x : JobRecord} {script : Nat → Outcome}

/-- A run that is over has ended with its last attempt. -/
theorem isLast (h : x.Obeys script) (hOver : x.isActive = false) :
    x.retryPolicy.IsLast script x.attempts := by
  have hBegun : 1 ≤ x.attempts := by
    refine h.begun fun hQueued => ?_
    rw [isActive_of_queued hQueued] at hOver
    cases hOver
  refine ⟨⟨hBegun, ?_⟩, ?_⟩
  · have hNot := (h.ended hOver).1
    rw [RetryPolicy.repeats, Bool.and_eq_false_iff] at hNot
    refine hNot.imp_right fun hSpent => ?_
    have hSpent' : ¬ x.attempts < x.retryPolicy.maxAttempts := by
      simpa [RetryPolicy.allowsAfter] using hSpent
    omega
  · rintro i ⟨hOne, hStops⟩
    by_contra hEarlier
    have hAgain := h.repeated i hOne (Nat.lt_of_not_le hEarlier)
    rw [RetryPolicy.repeats, Bool.and_eq_true] at hAgain
    have hLeft : i < x.retryPolicy.maxAttempts := by
      simpa [RetryPolicy.allowsAfter] using hAgain.2
    rcases hStops with hFinal | hSpent
    · rw [hAgain.1] at hFinal
      cases hFinal
    · omega

/-- A run that is over has ended as the script has it. -/
theorem endedBy (h : x.Obeys script) (hOver : x.isActive = false) {k : Nat}
    (hLast : x.retryPolicy.IsLast script k) : x.EndedBy script k := by
  obtain rfl : x.attempts = k := (h.isLast hOver).unique hLast
  obtain ⟨hNot, hEnding⟩ := h.ended hOver
  refine ⟨rfl, hEnding, ?_⟩
  obtain ⟨n, hn⟩ : ∃ n, x.attempts = n + 1 := Nat.exists_eq_add_of_le' (h.isLast hOver).1.1
  have hEnded : x.endedAttempts = n + 1 := by
    rw [endedAttempts, if_neg, hn]
    intro hRunning
    rw [isActive_of_running hRunning] at hOver
    cases hOver
  have hBefore : (List.range' 1 n).map (x.retryPolicy.entry script) =
      (List.range' 1 n).map fun i => (i, false, JobState.queued, (script i).remark) := by
    refine List.map_congr_left fun i hi => ?_
    obtain ⟨hOne, hi⟩ := List.mem_range'_1.mp hi
    have hAgain := h.repeated i hOne (by omega)
    rw [RetryPolicy.entry, RetryPolicy.reached, if_pos hAgain]
    rfl
  have hFinal : x.retryPolicy.entry script x.attempts =
      (x.attempts, decide (x.state = .finished), x.state, (script x.attempts).remark) := by
    have hState : x.state = (script x.attempts).ending.1 := congrArg (·.1) hEnding
    rw [RetryPolicy.entry, RetryPolicy.reached, hNot, if_neg Bool.false_ne_true, hState]
  rw [h.history, hEnded, List.range'_1_concat, List.map_append, hBefore, List.map_singleton,
    hn, Nat.add_sub_cancel, Nat.add_comm 1 n, ← hn, hFinal]

end Obeys

end JobRecord

end BackgroundJobs
