import BackgroundJobs.Job.Request
import BackgroundJobs.Proofs.Store.Operation
import Mathlib.Data.List.Induction

/-!
# Proofs — what every stored record satisfies

The fields of a record hang together: the number of attempts is the length of
the history, plus one while an attempt is going on; times, result and error are
there in the states they belong to. A retry and a cancellation between two
attempts are the two ways in which a history can end in `QUEUED`.

* `JobRecord.Sound`  — the part that holds whatever the clock shows.
* `JobRecord.Timely` — the order of the times, as long as the clock never goes back.

Both hold of what a request begins with, every edge of the state graph and
every mark keep them, and so they hold of every record of every run
(`run_records_sound`).
-/

namespace BackgroundJobs

namespace JobRecord

/-- How the fields of a record that is kept properly hang together. -/
structure Sound (r : JobRecord) : Prop where
  queued : r.state = .queued → r.history.length = r.attempts
  running : r.state = .running → r.startedAt.isSome ∧ r.history.length + 1 = r.attempts
  terminal : r.isTerminal = true → r.history.length = r.attempts
  finishedAt_iff : r.finishedAt.isSome ↔ r.isTerminal = true
  startedAt_iff : r.startedAt.isSome ↔ 0 < r.attempts
  result : r.result.isSome → r.state = .finished
  error : r.error.isSome → r.state = .failed
  number : ∀ i a, r.history[i]? = some a → a.number = i + 1
  success : ∀ a ∈ r.history, a.success = true ↔ a.outcome = .finished
  duration : ∀ a ∈ r.history, a.durationMillis = a.finishedAt.millisSince a.startedAt
  /-- Only the last attempt of a terminal record led anywhere but back to `QUEUED`. -/
  outcome : ∀ i a, r.history[i]? = some a →
    a.outcome = .queued ∨
      (r.isTerminal = true ∧ i + 1 = r.history.length ∧ a.outcome = r.state)
  /-- A run that ended although its last attempt had led back to `QUEUED` was canceled there. -/
  waiting : r.isTerminal = true → ∀ a, r.history.getLast? = some a → a.outcome = .queued →
    r.state = .canceled
  unstarted : r.isTerminal = true → r.attempts = 0 → r.state = .canceled

/-- The times of a record are in order: attempts do not overlap, and lie between the creation of
the record and its last change. -/
structure Timely (r : JobRecord) : Prop where
  created : r.createdAt ≤ r.updatedAt
  started : ∀ t, r.startedAt = some t → r.createdAt ≤ t ∧ t ≤ r.updatedAt
  finished : ∀ t, r.finishedAt = some t → r.createdAt ≤ t ∧ t ≤ r.updatedAt ∧
    (∀ start, r.startedAt = some start → start ≤ t) ∧ ∀ a ∈ r.history, a.finishedAt ≤ t
  interval : ∀ a ∈ r.history,
    r.createdAt ≤ a.startedAt ∧ a.startedAt ≤ a.finishedAt ∧ a.finishedAt ≤ r.updatedAt
  disjoint : r.history.Pairwise fun a b => a.finishedAt ≤ b.startedAt
  /-- The attempt that is going on began after all others had ended. -/
  current : r.state = .running → ∀ t, r.startedAt = some t → ∀ a ∈ r.history, a.finishedAt ≤ t

-- ---------------------------------------------------------------------------
-- The beginning
-- ---------------------------------------------------------------------------

variable (request : JobRequest) (id : JobId) (group : String) (policy : RetryPolicy)
  (triggerId : Option TriggerId) (now : Instant)

theorem sound_toRecord : (request.toRecord id group policy triggerId now).Sound := by
  constructor <;>
    simp [JobRequest.toRecord, isTerminal, JobState.isTerminal, JobState.isActive]

theorem timely_toRecord : (request.toRecord id group policy triggerId now).Timely := by
  constructor <;> simp [JobRequest.toRecord, Instant.le_refl]

end JobRecord

-- ---------------------------------------------------------------------------
-- One change of state
-- ---------------------------------------------------------------------------

namespace Transition

variable {t : Transition} {r : JobRecord} (now : Instant)

/-- The history entry that ends the attempt which began at `startedAt`. -/
def closing (t : Transition) (r : JobRecord) (startedAt now : Instant) : Attempt where
  number := r.attempts
  startedAt
  finishedAt := now
  success := t.target = .finished
  outcome := t.target
  error := t.remark
  durationMillis := now.millisSince startedAt

/-- A change that leaves `QUEUED` adds nothing to the history. -/
theorem history_apply_of_queued (h : r.state = .queued) :
    (t.apply r now).history = r.history := by
  simp [apply, closedAttempt?, h]

/-- A change that leaves `RUNNING` ends the attempt and adds it to the history. -/
theorem history_apply_of_running {start : Instant} (h : r.state = .running)
    (ht : t.target ≠ .running) (hStart : r.startedAt = some start) :
    (t.apply r now).history = r.history ++ [t.closing r start now] := by
  simp [apply, closedAttempt?, closing, h, ht, hStart]

/-- What a change of state may add to the history is the attempt that was going on. -/
theorem mem_history_apply {a : Attempt} (h : a ∈ (t.apply r now).history) :
    a ∈ r.history ∨ ∃ start, r.state = .running ∧ r.startedAt = some start ∧
      a = t.closing r start now := by
  rcases List.mem_append.mp h with hOld | hNew
  · exact .inl hOld
  · rw [Option.mem_toList, closedAttempt?] at hNew
    split at hNew
    · next hLeaves =>
      obtain ⟨start, hStart, rfl⟩ := Option.map_eq_some_iff.mp hNew
      exact .inr ⟨start, hLeaves.1, hStart, rfl⟩
    · cases hNew

end Transition

namespace JobRecord

variable {t : Transition} {r : JobRecord} {now : Instant}

@[simp] theorem isTerminal_apply : (t.apply r now).isTerminal = t.target.isTerminal := rfl

/-- An active record has no end, no result and no error yet. -/
theorem Sound.unended (h : r.Sound) (hActive : r.isTerminal = false) :
    r.finishedAt = none ∧ r.result = none ∧ r.error = none := by
  refine ⟨?_, ?_, ?_⟩
  · rw [← Option.not_isSome_iff_eq_none, h.finishedAt_iff, hActive]
    decide
  · rw [← Option.not_isSome_iff_eq_none]
    intro hSome
    rw [isTerminal, h.result hSome] at hActive
    cases hActive
  · rw [← Option.not_isSome_iff_eq_none]
    intro hSome
    rw [isTerminal, h.error hSome] at hActive
    cases hActive

/-- In an active record every ended attempt led back to `QUEUED`. -/
theorem Sound.outcome_of_active (h : r.Sound) (hActive : r.isTerminal = false) {i : Nat}
    {a : Attempt} (ha : r.history[i]? = some a) : a.outcome = .queued := by
  rcases h.outcome i a ha with hq | ⟨hTerm, -, -⟩
  · exact hq
  · rw [hActive] at hTerm
    cases hTerm

/-- A worker takes the run: an attempt begins, which is not in the history yet. -/
theorem Sound.apply_start (h : r.Sound) (hState : r.state = .queued) (ht : t.target = .running) :
    (t.apply r now).Sound := by
  have hHistory := Transition.history_apply_of_queued (t := t) now hState
  have hActive := isTerminal_of_queued hState
  obtain ⟨hFinished, hResult, hError⟩ := h.unended hActive
  have hLength := h.queued hState
  exact {
    queued := by simp [ht]
    running := by simp [Transition.apply, Transition.closedAttempt?, hState, ht, hLength]
    terminal := by simp [ht, JobState.isTerminal_iff]
    finishedAt_iff := by simp [Transition.apply, isTerminal, ht, hFinished, JobState.isTerminal_iff]
    startedAt_iff := by simp [Transition.apply, ht]
    result := by simp [Transition.apply, ht, hResult]
    error := by simp [Transition.apply, ht, hError]
    number := by
      rw [hHistory]
      exact h.number
    success := by
      rw [hHistory]
      exact h.success
    duration := by
      rw [hHistory]
      exact h.duration
    outcome := by
      rw [hHistory]
      exact fun i a ha => .inl (h.outcome_of_active hActive ha)
    waiting := by simp [ht, JobState.isTerminal_iff]
    unstarted := by simp [ht, JobState.isTerminal_iff] }

/-- The run is canceled while it waits: its history stays as it is. -/
theorem Sound.apply_cancel_of_queued (h : r.Sound) (hState : r.state = .queued)
    (ht : t.target = .canceled) : (t.apply r now).Sound := by
  have hHistory := Transition.history_apply_of_queued (t := t) now hState
  have hActive := isTerminal_of_queued hState
  obtain ⟨-, hResult, hError⟩ := h.unended hActive
  have hLength := h.queued hState
  exact {
    queued := by simp [ht]
    running := by simp [ht]
    terminal := by simp [Transition.apply, Transition.closedAttempt?, hState, ht, hLength]
    finishedAt_iff := by simp [Transition.apply, isTerminal, ht, JobState.isTerminal_iff]
    startedAt_iff := by simpa [Transition.apply, ht] using h.startedAt_iff
    result := by simp [Transition.apply, ht, hResult]
    error := by simp [Transition.apply, ht, hError]
    number := by
      rw [hHistory]
      exact h.number
    success := by
      rw [hHistory]
      exact h.success
    duration := by
      rw [hHistory]
      exact h.duration
    outcome := by
      rw [hHistory]
      exact fun i a ha => .inl (h.outcome_of_active hActive ha)
    waiting := fun _ _ _ _ => ht
    unstarted := fun _ _ => ht }

/-- An entry of a history with one more entry is an old one or the new one. -/
theorem getElem?_concat_eq_some {l : List Attempt} {x a : Attempt} {i : Nat}
    (h : (l ++ [x])[i]? = some a) : l[i]? = some a ∨ (i = l.length ∧ a = x) := by
  rcases Nat.lt_or_ge i l.length with hi | hi
  · rw [List.getElem?_append_left hi] at h
    exact .inl h
  · rw [List.getElem?_append_right hi, List.getElem?_singleton] at h
    split at h
    · next hZero =>
      cases h
      exact .inr ⟨by omega, rfl⟩
    · cases h

/-- The attempt ends, whether the run does or not: it becomes the last entry of the history. -/
theorem Sound.apply_of_running (h : r.Sound) (hState : r.state = .running)
    (ht : t.target ≠ .running) : (t.apply r now).Sound := by
  have hActive := isTerminal_of_running hState
  obtain ⟨hStarted, hLength⟩ := h.running hState
  obtain ⟨start, hStart⟩ := Option.isSome_iff_exists.mp hStarted
  have hHistory := Transition.history_apply_of_running now hState ht hStart
  have hAttempts : (t.apply r now).attempts = r.attempts := by simp [Transition.apply, ht]
  have hNewLength : (t.apply r now).history.length = (t.apply r now).attempts := by
    rw [hHistory, hAttempts, List.length_append, ← hLength]
    rfl
  obtain ⟨hFinished, hResult, hError⟩ := h.unended hActive
  exact {
    queued := fun _ => hNewLength
    running := fun hRunning => absurd hRunning ht
    terminal := fun _ => hNewLength
    finishedAt_iff := by
      by_cases hTerm : t.target.isTerminal = true
      · simp [Transition.apply, isTerminal, hTerm]
      · simp [Transition.apply, isTerminal, hTerm, hFinished]
    startedAt_iff := by simpa [Transition.apply, ht] using h.startedAt_iff
    result := by
      by_cases hEnd : t.target = .finished
      · exact fun _ => hEnd
      · simp [Transition.apply, hEnd, hResult]
    error := by
      by_cases hEnd : t.target = .failed
      · exact fun _ => hEnd
      · simp [Transition.apply, hEnd, hError]
    number := by
      rw [hHistory]
      intro i a ha
      rcases getElem?_concat_eq_some ha with hOld | ⟨rfl, rfl⟩
      · exact h.number i a hOld
      · exact hLength.symm
    success := by
      rw [hHistory]
      intro a ha
      rcases List.mem_append.mp ha with hOld | hNew
      · exact h.success a hOld
      · simp [List.mem_singleton.mp hNew, Transition.closing]
    duration := by
      rw [hHistory]
      intro a ha
      rcases List.mem_append.mp ha with hOld | hNew
      · exact h.duration a hOld
      · simp [List.mem_singleton.mp hNew, Transition.closing]
    outcome := by
      rw [hHistory]
      intro i a ha
      rcases getElem?_concat_eq_some ha with hOld | ⟨rfl, rfl⟩
      · exact .inl (h.outcome_of_active hActive hOld)
      · -- the attempt that ends here leads where the change of state does
        by_cases hQueued : t.target = .queued
        · exact .inl hQueued
        · refine .inr ⟨JobState.isTerminal_iff.mpr ⟨hQueued, ht⟩, ?_, rfl⟩
          rw [List.length_append]
          rfl
    waiting := by
      rw [hHistory]
      intro hTerm a hLast hOutcome
      rw [List.getLast?_append, List.getLast?_singleton, Option.some_or,
        Option.some.injEq] at hLast
      subst hLast
      exact absurd hOutcome (JobState.isTerminal_iff.mp hTerm).1
    unstarted := by
      rw [hAttempts]
      omega }

/-- Every edge of the state graph keeps a record sound. -/
theorem Sound.apply (h : r.Sound) (hEdge : r.state.canBecome t.target = true) :
    (t.apply r now).Sound := by
  rcases JobState.canBecome_iff.mp hEdge with ⟨hState, ht | ht⟩ | ⟨hState, ht⟩
  · exact h.apply_start hState ht
  · exact h.apply_cancel_of_queued hState ht
  · exact h.apply_of_running hState ht

/-- So does a mark, which touches none of the fields that hang together. -/
theorem Sound.marked (h : r.Sound) : (Store.marked r now).Sound := by
  rw [Store.marked_eq]
  exact ⟨h.queued, h.running, h.terminal, h.finishedAt_iff, h.startedAt_iff, h.result, h.error,
    h.number, h.success, h.duration, h.outcome, h.waiting, h.unstarted⟩

-- ---------------------------------------------------------------------------
-- The times
-- ---------------------------------------------------------------------------

/-- The intervals stay apart: the attempt that ends began after all others had ended. -/
theorem Timely.disjoint_apply (h : r.Timely) :
    (t.apply r now).history.Pairwise fun a b => a.finishedAt ≤ b.startedAt := by
  refine List.pairwise_append.mpr ⟨h.disjoint, ?_, ?_⟩
  · cases t.closedAttempt? r now <;> simp
  · intro a ha b hb
    have hMem : b ∈ (t.closedAttempt? r now).toList := hb
    rw [Option.mem_toList, Transition.closedAttempt?] at hMem
    split at hMem
    · next hLeaves =>
      obtain ⟨start, hStart, rfl⟩ := Option.map_eq_some_iff.mp hMem
      exact h.current hLeaves.1 start hStart a ha
    · cases hMem

/-- An edge of the state graph keeps the times in order if the clock has not gone back since the
last change. -/
theorem Timely.apply (h : r.Timely) (hSound : r.Sound)
    (hEdge : r.state.canBecome t.target = true) (hNow : r.updatedAt ≤ now) :
    (t.apply r now).Timely := by
  have hCreated : r.createdAt ≤ now := Instant.le_trans h.created hNow
  have hStarted : ∀ start, r.startedAt = some start → r.createdAt ≤ start ∧ start ≤ now :=
    fun start hStart =>
      ⟨(h.started start hStart).1, Instant.le_trans (h.started start hStart).2 hNow⟩
  have hEnded : ∀ a ∈ (t.apply r now).history, a.finishedAt ≤ now := by
    intro a ha
    rcases Transition.mem_history_apply now ha with hOld | ⟨start, -, -, rfl⟩
    · exact Instant.le_trans (h.interval a hOld).2.2 hNow
    · exact Instant.le_refl now
  refine ⟨hCreated, ?_, ?_, ?_, h.disjoint_apply, ?_⟩
  · intro start hStart
    by_cases ht : t.target = .running
    · simp only [Transition.apply, ht, if_true, Option.some.injEq] at hStart
      subst hStart
      exact ⟨hCreated, Instant.le_refl _⟩
    · simp only [Transition.apply, ht, if_false] at hStart
      exact hStarted start hStart
  · intro finish hFinish
    by_cases hTerm : t.target.isTerminal = true
    · simp only [Transition.apply, hTerm, if_true, Option.some.injEq] at hFinish
      subst hFinish
      refine ⟨hCreated, Instant.le_refl _, ?_, hEnded⟩
      intro start hStart
      simp only [Transition.apply, (JobState.isTerminal_iff.mp hTerm).2, if_false] at hStart
      exact (hStarted start hStart).2
    · -- a record that an edge leaves is active, and has no end yet
      have hActive : r.isTerminal = false := by
        rw [isTerminal, JobState.isTerminal, JobState.isActive_of_canBecome hEdge]
        rfl
      simp only [Transition.apply, hTerm, (hSound.unended hActive).1] at hFinish
      cases hFinish
  · intro a ha
    rcases Transition.mem_history_apply now ha with hOld | ⟨start, -, hStart, rfl⟩
    · obtain ⟨hFrom, hOrder, -⟩ := h.interval a hOld
      exact ⟨hFrom, hOrder, hEnded a ha⟩
    · exact ⟨(hStarted start hStart).1, (hStarted start hStart).2, Instant.le_refl now⟩
  · intro ht start hStart a ha
    have hTarget : t.target = .running := ht
    simp only [Transition.apply, hTarget, if_true, Option.some.injEq] at hStart
    exact hStart ▸ hEnded a ha

theorem Timely.marked (h : r.Timely) (hNow : r.updatedAt ≤ now) :
    (Store.marked r now).Timely := by
  unfold Store.marked
  split
  · exact {
      created := Instant.le_trans h.created hNow
      started := fun start hStart =>
        ⟨(h.started start hStart).1, Instant.le_trans (h.started start hStart).2 hNow⟩
      finished := fun finish hFinish => by
        obtain ⟨hFrom, hUntil, hRest⟩ := h.finished finish hFinish
        exact ⟨hFrom, Instant.le_trans hUntil hNow, hRest⟩
      interval := fun a ha => by
        obtain ⟨hFrom, hOrder, hUntil⟩ := h.interval a ha
        exact ⟨hFrom, hOrder, Instant.le_trans hUntil hNow⟩
      disjoint := h.disjoint
      current := h.current }
  · exact h

end JobRecord

-- ---------------------------------------------------------------------------
-- Runs
-- ---------------------------------------------------------------------------

namespace Store

/-- Does the operation create nothing but what a request begins with? -/
def Op.Fresh : Op → Prop
  | .create record => ∃ request id group policy triggerId made,
      record = JobRequest.toRecord request id group policy triggerId made
  | _ => True

/-- The clock never goes back: operations happen one after the other, and a record is created no
earlier than it was made. -/
structure Forward (ops : List (Op × Instant)) : Prop where
  ordered : ops.Pairwise fun x y => x.2 ≤ y.2
  made : ∀ record now, (Op.create record, now) ∈ ops → record.createdAt ≤ now

variable {s : Store} {op : Op} {now : Instant} {ops : List (Op × Instant)} {r : JobRecord}

/-- Every operation keeps all records sound, whether it succeeds or not. -/
theorem sound_perform (hFresh : op.Fresh) (h : ∀ r ∈ s.records, r.Sound)
    (hr : r ∈ (s.perform now op).records) : r.Sound := by
  cases origin_of_mem_perform hr with
  | kept hOld => exact h r hOld
  | created hOp _ =>
    subst hOp
    obtain ⟨request, id, group, policy, triggerId, made, rfl⟩ := hFresh
    exact JobRecord.sound_toRecord request id group policy triggerId made
  | moved old t hOld _ hEdge hEq => exact hEq ▸ (h old hOld).apply hEdge
  | marked old hOld _ hEq => exact hEq ▸ (h old hOld).marked

/-- Every operation keeps the times of all records in order, if it is not earlier than their last
changes. -/
theorem timely_perform (hFresh : op.Fresh) (hMade : ∀ record, op = .create record →
      record.createdAt ≤ now)
    (hSound : ∀ r ∈ s.records, r.Sound) (h : ∀ r ∈ s.records, r.Timely ∧ r.updatedAt ≤ now)
    (hr : r ∈ (s.perform now op).records) : r.Timely ∧ r.updatedAt ≤ now := by
  cases origin_of_mem_perform hr with
  | kept hOld => exact h r hOld
  | created hOp _ =>
    have hCreated := hMade r hOp
    subst hOp
    obtain ⟨request, id, group, policy, triggerId, made, rfl⟩ := hFresh
    exact ⟨JobRecord.timely_toRecord request id group policy triggerId made, hCreated⟩
  | moved old t hOld _ hEdge hEq =>
    obtain ⟨hTimely, hNow⟩ := h old hOld
    subst hEq
    exact ⟨hTimely.apply (hSound old hOld) hEdge hNow, Instant.le_refl now⟩
  | marked old hOld _ hEq =>
    obtain ⟨hTimely, hNow⟩ := h old hOld
    subst hEq
    refine ⟨hTimely.marked hNow, ?_⟩
    rw [marked_eq]
    simp only
    split
    · exact Instant.le_refl now
    · exact hNow

theorem sound_run (hFresh : ∀ x ∈ ops, x.1.Fresh) :
    ∀ r ∈ (Store.empty.run ops).records, r.Sound := by
  induction ops using List.reverseRecOn with
  | nil =>
    intro r hr
    cases hr
  | append_singleton ops x ih =>
    intro r hr
    rw [run_append] at hr
    exact sound_perform (hFresh x (by simp)) (ih fun y hy => hFresh y (by simp [hy])) hr

/-- The last change of a record came no later than one of the operations. -/
theorem timely_run (hFresh : ∀ x ∈ ops, x.1.Fresh) (hForward : Forward ops) :
    ∀ r ∈ (Store.empty.run ops).records, r.Timely ∧ ∃ x ∈ ops, r.updatedAt ≤ x.2 := by
  induction ops using List.reverseRecOn with
  | nil =>
    intro r hr
    cases hr
  | append_singleton ops x ih =>
    intro r hr
    obtain ⟨hOrdered, -, hLast⟩ := List.pairwise_append.mp hForward.ordered
    have hBefore : ∀ y ∈ ops, y.1.Fresh := fun y hy => hFresh y (by simp [hy])
    have hOld : ∀ r ∈ (Store.empty.run ops).records, r.Timely ∧ r.updatedAt ≤ x.2 := by
      intro old hOld
      obtain ⟨hTimely, y, hy, hUpdated⟩ :=
        ih hBefore ⟨hOrdered, fun record now h => hForward.made record now (by simp [h])⟩ old hOld
      exact ⟨hTimely, Instant.le_trans hUpdated (hLast y hy x (by simp))⟩
    rw [run_append] at hr
    have hMade : ∀ record, x.1 = .create record → record.createdAt ≤ x.2 := fun record hx =>
      hForward.made record x.2 (by simp [← hx])
    obtain ⟨hTimely, hUpdated⟩ :=
      timely_perform (hFresh x (by simp)) hMade (sound_run hBefore) hOld hr
    exact ⟨hTimely, x, by simp, hUpdated⟩

/-- Every record of every run from an empty store is sound, and its times are in order if the
clock never went back. -/
theorem run_records_sound (hFresh : ∀ x ∈ ops, x.1.Fresh)
    (hr : r ∈ (Store.empty.run ops).records) : r.Sound ∧ (Forward ops → r.Timely) :=
  ⟨sound_run hFresh r hr, fun hForward => (timely_run hFresh hForward r hr).1⟩

/-- A run whose two attempts fail. It is marked after the second one and canceled while it waits;
a late outcome of the second attempt is turned away. -/
def withdrawn : List (Op × Instant) :=
  let request : JobRequest :=
    { jobKey := "job", name := "job", group := none, arguments := Dict.empty,
      metadata := Dict.empty, constraints := [], retryPolicy := none, trigger := .immediate }
  let id : JobId := default
  [(.create (request.toRecord id "default" .standard none ⟨0, 0⟩), ⟨0, 0⟩),
    (.transition id .queued .start, ⟨1, 0⟩),
    (.transition id .running (.requeue "once more"), ⟨2, 0⟩),
    (.transition id .queued .start, ⟨3, 0⟩),
    (.transition id .running (.requeue "once more"), ⟨4, 0⟩),
    (.requestCancel id, ⟨5, 0⟩),
    (.transition id .queued .cancel, ⟨6, 0⟩),
    (.transition id .running (.finish none), ⟨7, 0⟩)]

theorem run_records_sound_withdrawn :
    (∀ x ∈ withdrawn, x.1.Fresh) ∧ Forward withdrawn ∧
      ∃ r ∈ (Store.empty.run withdrawn).records,
        r.state = .canceled ∧ r.attempts = 2 ∧ r.history.length = 2 ∧ r.Sound ∧ r.Timely := by
  have hFresh : ∀ x ∈ withdrawn, x.1.Fresh := by
    simp only [withdrawn, List.forall_mem_cons, Op.Fresh]
    exact ⟨⟨_, _, _, _, _, _, rfl⟩, trivial, trivial, trivial, trivial, trivial, trivial, trivial,
      fun _ h => nomatch h⟩
  have hForward : Forward withdrawn := by
    constructor
    · simp only [withdrawn]
      decide
    · simp only [withdrawn, List.mem_cons]
      rintro record now (h | h | h | h | h | h | h | h | h) <;> cases h
      exact Instant.le_refl _
  refine ⟨hFresh, hForward, _, List.mem_cons_self, rfl, rfl, rfl, ?_⟩
  exact (run_records_sound hFresh List.mem_cons_self).imp_right fun h => h hForward

end Store

end BackgroundJobs
