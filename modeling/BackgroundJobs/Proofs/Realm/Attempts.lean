import BackgroundJobs.Proofs.Realm.Deeds
import BackgroundJobs.Proofs.Store.Soundness

/-!
# Proofs — attempts

Many workers may take one run from the queue, at the same time or one after the
other, but a change of state compares only the state of a record, not the number
of its attempt. That no outcome is recorded on an attempt of another worker
rests on an invariant: while a worker is in an attempt, the record is the one
that it claimed, but for a mark, or the run is over. So nobody else can claim
the run in the meantime.

Main results:

* `owned_of_run`            — the invariant, after every run.
* `run_induction_of_nodup`  — induction over a run, with the invariant at hand.
* `accounted_of_run`        — the number of a queued record's attempts is the number
  of times its definition was called.
* `attempts_of_run`         — attempts exclude each other, keep their own outcomes,
  are numbered in order, and are as many as the retry policy allows.
-/

namespace BackgroundJobs

-- ---------------------------------------------------------------------------
-- The log of deeds
-- ---------------------------------------------------------------------------

/-- Is this the claimed record with the outcome of the attempt that the claim began? That attempt
is then the last entry of its history. -/
structure JobRecord.Concludes (after claimed : JobRecord) : Prop where
  id : after.id = claimed.id
  attempts : after.attempts = claimed.attempts
  history : ∃ a, after.history = claimed.history ++ [a] ∧ a.number = claimed.attempts ∧
    claimed.startedAt = some a.startedAt ∧ a.outcome = after.state

/-- An attempt that ends concludes the record that was claimed, whatever marks it got meanwhile. -/
theorem JobRecord.Follows.concludes {claimed x : JobRecord} (h : claimed.Follows x)
    (hRunning : x.state = .running) (hStarted : claimed.startedAt.isSome = true) {t : Transition}
    (ht : t.target ≠ .running) (now : Instant) : (t.apply x now).Concludes claimed := by
  obtain ⟨start, hStart⟩ := Option.isSome_iff_exists.mp hStarted
  have hx := h.active (isActive_of_running hRunning)
  have hStart' : x.startedAt = some start := by rw [hx, hStart]
  refine ⟨h.sameRun.id, ?_, t.closing x start now, ?_, h.attempts, hStart, rfl⟩
  · simp [Transition.apply, ht, h.attempts]
  · rw [Transition.history_apply_of_running now hRunning ht hStart', hx]

namespace Deed

/-- The last deed of a log that is about the given run. -/
def last? (log : List Deed) (id : JobId) : Option Deed :=
  (log.filter (·.jobId = id)).getLast?

variable {log : List Deed} {d : Deed} {id : JobId}

theorem last?_concat_self (h : d.jobId = id) : last? (log ++ [d]) id = some d := by
  simp [last?, List.filter_append, h]

theorem last?_concat_of_ne (h : d.jobId ≠ id) : last? (log ++ [d]) id = last? log id := by
  simp [last?, List.filter_append, h]

/-- Does every outcome of the log come from the worker that claimed the run last, and conclude
what that worker had claimed? -/
def Ordered (log : List Deed) : Prop :=
  ∀ before i record result later, log = before ++ .settled i record result :: later →
    last? before record.id = some (.claimed i record) ∧
      ∀ after, result = .ok after → after.Concludes record

theorem ordered_nil : Ordered [] := by
  intro before i record result later h
  cases before <;> cases h

/-- A log stays in order if its next deed fits what stands before it. -/
theorem Ordered.concat (h : Ordered log) (hFits : ∀ {i record result},
      d = .settled i record result → last? log record.id = some (.claimed i record) ∧
        ∀ after, result = .ok after → after.Concludes record) : Ordered (log ++ [d]) := by
  intro before i record result later hEq
  rcases List.eq_nil_or_concat later with rfl | ⟨rest, x, rfl⟩
  · obtain ⟨rfl, hLast⟩ := List.append_inj' hEq rfl
    cases hLast
    exact hFits rfl
  · rw [List.concat_eq_append, ← List.cons_append, ← List.append_assoc] at hEq
    exact h before i record result rest (List.append_inj_left' hEq rfl)

end Deed

-- ---------------------------------------------------------------------------
-- Ownership
-- ---------------------------------------------------------------------------

variable {δ : Type}

/-- The ids of the runs that a realm has to do with: of those that it finds in its store, and of
those that it admits. -/
def System.runIds (s : System δ) (events : List Event) : List JobId :=
  s.realm.store.ids ++ (s.trail admissions events).map (·.2.id)

/-- The worker is in the attempt that it began with this record. -/
def System.Busy (s : System δ) (i : Nat) (w : Worker δ) (record : JobRecord) : Prop :=
  s.threads[i]? = some (.worker w) ∧ w.attempt? = some record

/-- A worker that is in an attempt was the last to do something to the run, and while the run is
not over its record is the one that the worker claimed. -/
structure Owned (s : System δ) (ids : List JobId) (log : List Deed) : Prop where
  stored : ∀ x ∈ s.realm.store.records, x.id ∈ ids
  begun : ∀ {i w record}, s.Busy i w record →
    record.state = .running ∧ record.startedAt.isSome = true ∧ record.id ∈ ids
  last : ∀ {i w record}, s.Busy i w record → Deed.last? log record.id = some (.claimed i record)
  follows : ∀ {i w record}, s.Busy i w record →
    ∀ x ∈ s.realm.store.records, x.id = record.id → record.Follows x
  ordered : Deed.Ordered log

namespace Owned

variable {s u : System δ} {e : Event} {ids : List JobId} {log : List Deed}

/-- No two workers are in attempts of one run. -/
theorem alone (h : Owned s ids log) {i j : Nat} {v w : Worker δ} {a b : JobRecord}
    (ha : s.Busy i v a) (hb : s.Busy j w b) (hId : a.id = b.id) : i = j := by
  have hLast := h.last ha
  rw [hId, h.last hb] at hLast
  cases hLast
  rfl

/-- A run that waits has no worker in an attempt. -/
theorem id_ne_of_queued (h : Owned s ids log) {i : Nat} {w : Worker δ} {record x : JobRecord}
    (hBusy : s.Busy i w record) (hx : x ∈ s.realm.store.records) (hQueued : x.state = .queued) :
    record.id ≠ x.id := by
  intro hId
  have hState := (h.follows hBusy x hx hId.symm).queued hQueued
  rw [(h.begun hBusy).1] at hState
  cases hState

end Owned

namespace System

variable {s u : System δ} {i j : Nat} {w' v : Worker δ} {record b : JobRecord}

/-- The only worker whose point a step of worker `i` changes is worker `i`. -/
theorem busy_of_set (hThreads : u.threads = s.threads.set i (.worker w')) (h : u.Busy j v b) :
    (j = i ∧ v = w') ∨ (j ≠ i ∧ s.Busy j v b) := by
  obtain ⟨hAt, hAttempt⟩ := h
  rw [hThreads, ← List.append_nil (s.threads.set i _)] at hAt
  rcases threads_of_advance hAt with ⟨hji, hEq⟩ | ⟨hji, hOld⟩ | ⟨-, hMem⟩
  · cases hEq
    exact .inl ⟨hji, rfl⟩
  · exact .inr ⟨hji, hOld, hAttempt⟩
  · cases hMem

/-- A step that leaves worker `i` in an attempt brings no other attempt. -/
theorem busy_of_set_of_some (hThreads : u.threads = s.threads.set i (.worker w'))
    (hAttempt : w'.attempt? = some record) (h : u.Busy j v b) :
    (j = i ∧ v = w' ∧ b = record) ∨ (j ≠ i ∧ s.Busy j v b) := by
  rcases busy_of_set hThreads h with ⟨hji, rfl⟩ | hOld
  · have hSame := h.2
    rw [hAttempt] at hSame
    exact .inl ⟨hji, rfl, (Option.some.inj hSame).symm⟩
  · exact .inr hOld

/-- A step that leaves worker `i` in no attempt brings none. -/
theorem busy_of_set_of_none (hThreads : u.threads = s.threads.set i (.worker w'))
    (hNone : w'.attempt? = none) (h : u.Busy j v b) : j ≠ i ∧ s.Busy j v b := by
  rcases busy_of_set hThreads h with ⟨-, rfl⟩ | hOld
  · have hSome := h.2
    rw [hNone] at hSome
    cases hSome
  · exact hOld

end System

namespace Owned

variable {s u : System δ} {e : Event} {ids : List JobId} {log : List Deed}

/-- After a quiet step every worker that is in an attempt was in it before. -/
theorem busy_of_quiet (hWorkers : ∀ {i : Nat} {w record}, u.threads[i]? = some (.worker w) →
      w.attempt? = some record → s.threads[i]? = some (.worker w)) {i : Nat} {w : Worker δ}
    {record : JobRecord} (h : u.Busy i w record) : s.Busy i w record :=
  ⟨hWorkers h.1 h.2, h.2⟩

/-- After a quiet step, a record of an id that was used before has followed one of that id. -/
theorem follows_of_quiet (hStore : ∀ x' ∈ u.realm.store.records,
      (∃ x ∈ s.realm.store.records, x.Follows x') ∨ ∃ a, (a, x') ∈ s.admissions e ∧ a.Made x')
    (hIds : (ids ++ (s.admissions e).map (·.2.id)).Nodup) {x' : JobRecord}
    (hx : x' ∈ u.realm.store.records) (hId : x'.id ∈ ids) :
    ∃ x ∈ s.realm.store.records, x.id = x'.id ∧ x.Follows x' := by
  rcases hStore x' hx with ⟨x, hx, hFollows⟩ | ⟨a, hAdmitted, -⟩
  · exact ⟨x, hx, hFollows.sameRun.id.symm, hFollows⟩
  · exact absurd rfl ((List.nodup_append.mp hIds).2.2 x'.id hId x'.id
      (List.mem_map_of_mem hAdmitted))

/-- Every step keeps the invariant, as long as no run gets an id that was used before. -/
theorem step (h : Owned s ids log) (hMove : Move s e u)
    (hIds : (ids ++ (s.admissions e).map (·.2.id)).Nodup) :
    Owned u (ids ++ (s.admissions e).map (·.2.id)) (log ++ s.deeds e) := by
  cases hMove with
  | quiet hStore hWorkers _ hDeeds =>
    rw [hDeeds, List.append_nil]
    have hBefore : ∀ {i w record}, u.Busy i w record → s.Busy i w record :=
      busy_of_quiet hWorkers
    refine ⟨?_, ?_, fun hBusy => h.last (hBefore hBusy), ?_, h.ordered⟩
    · intro x' hx
      rcases hStore x' hx with ⟨x, hx, hFollows⟩ | ⟨a, hAdmitted, -⟩
      · rw [hFollows.sameRun.id]
        exact List.mem_append_left _ (h.stored x hx)
      · exact List.mem_append_right _ (List.mem_map_of_mem hAdmitted)
    · intro i w record hBusy
      obtain ⟨hState, hStarted, hId⟩ := h.begun (hBefore hBusy)
      exact ⟨hState, hStarted, List.mem_append_left _ hId⟩
    · intro i w record hBusy x' hx hId
      -- a run that is new has no worker yet
      have hOld := (h.begun (hBefore hBusy)).2.2
      rw [← hId] at hOld
      obtain ⟨x, hx, hSame, hFollows⟩ := follows_of_quiet hStore hIds hx hOld
      exact (h.follows (hBefore hBusy) x hx (hSame.trans hId)).trans hFollows
  | claim i cue x token _ _ hThreads hStored hQueued hStore _ hDeeds =>
    rw [hDeeds]
    -- the claimed run has no other worker, so nothing changes for the others
    have hFrom : ∀ {j w record}, u.Busy j w record →
        (j = i ∧ record = Transition.start.apply x cue.now) ∨
          (s.Busy j w record ∧ record.id ≠ x.id) := by
      intro j w record hBusy
      rcases System.busy_of_set_of_some hThreads rfl hBusy with ⟨hji, -, hRecord⟩ | ⟨-, hOld⟩
      · exact .inl ⟨hji, hRecord⟩
      · exact .inr ⟨hOld, h.id_ne_of_queued hOld hStored hQueued⟩
    refine ⟨?_, ?_, ?_, ?_, ?_⟩
    · intro y hy
      rcases (hStore y).mp hy with rfl | ⟨hOld, -⟩
      · exact List.mem_append_left _ (h.stored x hStored)
      · exact List.mem_append_left _ (h.stored y hOld)
    · intro j w record hBusy
      rcases hFrom hBusy with ⟨-, rfl⟩ | ⟨hOld, -⟩
      · exact ⟨rfl, rfl, List.mem_append_left _ (h.stored x hStored)⟩
      · obtain ⟨hState, hStarted, hId⟩ := h.begun hOld
        exact ⟨hState, hStarted, List.mem_append_left _ hId⟩
    · intro j w record hBusy
      rcases hFrom hBusy with ⟨rfl, rfl⟩ | ⟨hOld, hNe⟩
      · exact Deed.last?_concat_self rfl
      · have hFar : (Deed.claimed i (Transition.start.apply x cue.now)).jobId ≠ record.id :=
          hNe.symm
        rw [Deed.last?_concat_of_ne hFar]
        exact h.last hOld
    · intro j w record hBusy y hy hId
      rcases hFrom hBusy with ⟨-, rfl⟩ | ⟨hOld, hNe⟩
      · rcases (hStore y).mp hy with rfl | ⟨-, hNe⟩
        · exact .refl _
        · exact absurd hId hNe
      · rcases (hStore y).mp hy with rfl | ⟨hy, -⟩
        · exact absurd hId.symm hNe
        · exact h.follows hOld y hy hId
    · exact h.ordered.concat nofun
  | goOn i cue w w' record _ hBefore hThreads hAttempt hAttempt' _ hStore hDeeds =>
    rw [hDeeds, List.append_nil]
    have hSame : ∀ {j v b}, u.Busy j v b → ∃ v₀, s.Busy j v₀ b := by
      intro j v b hBusy
      rcases System.busy_of_set_of_some hThreads hAttempt' hBusy with ⟨rfl, -, rfl⟩ | ⟨-, hOld⟩
      · exact ⟨w, hBefore, hAttempt⟩
      · exact ⟨v, hOld⟩
    refine ⟨?_, ?_, ?_, ?_, h.ordered⟩
    · intro x hx
      rw [hStore] at hx
      exact List.mem_append_left _ (h.stored x hx)
    · intro j v b hBusy
      obtain ⟨v₀, hOld⟩ := hSame hBusy
      obtain ⟨hState, hStarted, hId⟩ := h.begun hOld
      exact ⟨hState, hStarted, List.mem_append_left _ hId⟩
    · intro j v b hBusy
      obtain ⟨v₀, hOld⟩ := hSame hBusy
      exact h.last hOld
    · intro j v b hBusy x hx hId
      obtain ⟨v₀, hOld⟩ := hSame hBusy
      rw [hStore] at hx
      exact h.follows hOld x hx hId
  | settle i cue record t w' result _ hBefore hThreads hNone hStore _ hDeeds =>
    rw [hDeeds]
    have hBusy : s.Busy i (.recording record t) record := ⟨hBefore, rfl⟩
    have hOther : ∀ {j v b}, u.Busy j v b → s.Busy j v b ∧ b.id ≠ record.id := by
      intro j v b hOther
      obtain ⟨hji, hOld⟩ := System.busy_of_set_of_none hThreads hNone hOther
      exact ⟨hOld, fun hId => hji (h.alone hOld hBusy hId)⟩
    have hFrom : ∀ {y}, y ∈ u.realm.store.records → (y.id = record.id ∧ record.id ∈ ids) ∨
        y ∈ s.realm.store.records := by
      intro y hy
      rcases hStore with ⟨_, -, hSame⟩ | ⟨x, -, hId, -, -, -, hStore⟩
      · rw [hSame] at hy
        exact .inr hy
      · rcases (hStore y).mp hy with rfl | ⟨hOld, -⟩
        · exact .inl ⟨hId, (h.begun hBusy).2.2⟩
        · exact .inr hOld
    refine ⟨?_, ?_, ?_, ?_, ?_⟩
    · intro y hy
      rcases hFrom hy with ⟨hId, hMem⟩ | hOld
      · rw [hId]
        exact List.mem_append_left _ hMem
      · exact List.mem_append_left _ (h.stored y hOld)
    · intro j v b hBusy'
      obtain ⟨hState, hStarted, hId⟩ := h.begun (hOther hBusy').1
      exact ⟨hState, hStarted, List.mem_append_left _ hId⟩
    · intro j v b hBusy'
      obtain ⟨hOld, hNe⟩ := hOther hBusy'
      have hFar : (Deed.settled i record result).jobId ≠ b.id := hNe.symm
      rw [Deed.last?_concat_of_ne hFar]
      exact h.last hOld
    · intro j v b hBusy' y hy hId
      obtain ⟨hOld, hNe⟩ := hOther hBusy'
      rcases hFrom hy with ⟨hId', -⟩ | hy
      · exact absurd (hId.symm.trans hId') hNe
      · exact h.follows hOld y hy hId
    · refine h.ordered.concat ?_
      intro j record' result' hEq
      cases hEq
      refine ⟨h.last hBusy, ?_⟩
      rintro after rfl
      rcases hStore with ⟨_, hEq, -⟩ | ⟨x, hx, hId, hRunning, hTarget, hEq, -⟩
      · cases hEq
      · cases hEq
        exact (h.follows hBusy x hx hId).concludes hRunning (h.begun hBusy).2.1 hTarget cue.now

end Owned

namespace System

variable {r : Realm δ} {u : System δ} {before events : List Event}

theorem runIds_concat {s t : System δ} {e : Event} (h : s.run before = some t) :
    s.runIds (before ++ [e]) = s.runIds before ++ (t.admissions e).map (·.2.id) := by
  unfold runIds
  rw [trail_concat h, List.map_append, List.append_assoc]

theorem runIds_append {s t : System δ} (h : s.run before = some t) :
    s.runIds (before ++ events) =
      s.runIds before ++ (t.trail admissions events).map (·.2.id) := by
  unfold runIds
  rw [trail_append h, List.map_append, List.append_assoc]

/-- Ownership holds after every run in which no run gets an id that was used before. -/
theorem owned_of_run (hRun : (ofRealm r).run events = some u)
    (hIds : ((ofRealm r).runIds events).Nodup) :
    Owned u ((ofRealm r).runIds events) ((ofRealm r).trail deeds events) := by
  refine run_induction (motive := fun events u => ((ofRealm r).runIds events).Nodup →
    Owned u ((ofRealm r).runIds events) ((ofRealm r).trail deeds events)) hRun ?_ ?_ hIds
  · intro _
    have hNobody : ∀ {i w record}, ¬ (ofRealm r).Busy i w record := nofun
    exact ⟨fun x hx => List.mem_append_left _ (Store.id_mem_ids hx), fun h => absurd h hNobody,
      fun h => absurd h hNobody, fun h => absurd h hNobody, Deed.ordered_nil⟩
  · intro before t e v hBefore hStep ih hIds
    rw [runIds_concat hBefore] at hIds ⊢
    rw [trail_concat hBefore]
    exact (ih (List.nodup_append.mp hIds).1).step (move_of_step (made_of_run hBefore) hStep) hIds

/-- What holds after one run and is kept by every step holds after every run that goes on from
there, where no run gets an id that was used before. -/
theorem run_induction_of_nodup {s : System δ} {motive : List Event → System δ → Prop}
    (hBefore : (ofRealm r).run before = some s) (hRun : s.run events = some u)
    (hIds : ((ofRealm r).runIds (before ++ events)).Nodup) (hStart : motive [] s)
    (hStep : ∀ mid t e v, s.run mid = some t → t.step e = some v →
      (ofRealm r).run (before ++ mid) = some t →
      Owned t ((ofRealm r).runIds (before ++ mid)) ((ofRealm r).trail deeds (before ++ mid)) →
      ((ofRealm r).runIds (before ++ mid) ++ (t.admissions e).map (·.2.id)).Nodup →
        motive mid t → motive (mid ++ [e]) v) : motive events u := by
  refine run_induction (motive := fun events u =>
    ((ofRealm r).runIds (before ++ events)).Nodup → motive events u) hRun (fun _ => hStart) ?_ hIds
  intro mid t e v hMid hLast ih hIds
  have hUpTo : (ofRealm r).run (before ++ mid) = some t := by
    rw [run_append_of_run hBefore, hMid]
  rw [← List.append_assoc, runIds_concat hUpTo] at hIds
  have hIds' := (List.nodup_append.mp hIds).1
  exact hStep mid t e v hMid hLast hUpTo (owned_of_run hUpTo hIds') hIds (ih hIds')

end System

-- ---------------------------------------------------------------------------
-- The numbers of the attempts
-- ---------------------------------------------------------------------------

/-- How often the definition of a run was called. -/
def System.calls (s : System δ) (id : JobId) : Nat :=
  (s.realm.invocations.filter (·.jobId = id)).length

/-- The number of attempts of a run that a store knows of. -/
def Store.attemptsOf (s : Store) (id : JobId) : Nat :=
  (s.find? id).elim 0 (·.attempts)

theorem Store.attemptsOf_of_new {s : Store} {id : JobId} (h : id ∉ s.ids) :
    s.attemptsOf id = 0 := by
  rw [attemptsOf, find?_eq_none_iff.mpr h]
  rfl

/-- How the number of an attempt that goes on relates to the number of attempts for which the
definition was called. -/
def Worker.Counts (called : Nat) : Worker δ → Prop
  | .claimed record _ => record.attempts = called + 1
  | .executing record _ _ | .judging record _ _ => record.attempts = called
  -- only an attempt that was called for, and not told to stop, is repeated
  | .recording record t => t.target = .queued →
    record.attempts = called ∧ record.attempts < record.retryPolicy.maxAttempts ∧
      record.cancelRequested = false
  | _ => True

/-- The definition of a run is called for one attempt after the other, and the record counts them:
one that waits has been called as often as it says. -/
structure Accounted (start : Store) (s : System δ) (ids : List JobId) : Prop where
  numbered : ∀ id, (s.realm.invocations.filter (·.jobId = id)).map (·.attempt) =
    List.range' (start.attemptsOf id + 1) (s.calls id)
  waiting : ∀ x ∈ s.realm.store.records, x.state = .queued →
    x.attempts = start.attemptsOf x.id + s.calls x.id
  busy : ∀ {i w record}, s.Busy i w record →
    w.Counts (start.attemptsOf record.id + s.calls record.id)
  unused : ∀ id ∉ ids, start.attemptsOf id = 0 ∧ s.calls id = 0

/-- Only an attempt that may be repeated and was not told to stop goes back to the queue. -/
theorem Worker.verdict_target_eq_queued {record : JobRecord} {canceled : Bool} {outcome : Outcome}
    (h : (verdict record canceled outcome).target = .queued) :
    canceled = false ∧ record.cancelRequested = false ∧
      record.attempts < record.retryPolicy.maxAttempts := by
  unfold verdict at h
  split at h
  · cases h
  · cases h
  · split at h
    · cases h
    · next hStop =>
      split at h
      · next hAllows =>
        rw [Bool.not_eq_true, Bool.or_eq_false_iff] at hStop
        exact ⟨hStop.1, hStop.2, by simpa [RetryPolicy.allowsAfter] using hAllows⟩
      · cases h
  · cases h
  · cases h

/-- A worker that goes on within its attempt calls the definition once, right after the claim. -/
theorem Worker.counts_goOn {cue : Cue} {r r' : Realm δ} {w w' : Worker δ} {record : JobRecord}
    {n : Nat} (hAttempt : w.attempt? = some record) (hAttempt' : w'.attempt? = some record)
    (h : w.step cue r = some (r', w')) (hCounts : w.Counts n) :
    (r'.invocations = r.invocations ∧ w'.Counts n) ∨
      (record.attempts = n + 1 ∧ w'.Counts (n + 1) ∧
        r'.invocations = r.invocations ++ [⟨record.id, record.jobKey, record.attempts⟩]) := by
  cases w with
  | claimed made token =>
    cases hAttempt
    simp only [step] at h
    split at h <;> cases h
    · refine .inr ⟨hCounts, hCounts, ?_⟩
      split <;> rfl
    · refine .inl ⟨?_, by rintro ⟨⟩⟩
      split <;> rfl
  | executing made token definition =>
    cases hAttempt
    cases h
    exact .inl ⟨rfl, hCounts⟩
  | judging made token outcome =>
    cases hAttempt
    cases h
    refine .inl ⟨rfl, fun hQueued => ?_⟩
    obtain ⟨-, hMark, hAllowed⟩ := verdict_target_eq_queued hQueued
    exact ⟨hCounts, hAllowed, hMark⟩
  | recording made t =>
    simp only [step] at h
    split at h <;> cases h
    · split at hAttempt'
      · split at hAttempt' <;> cases hAttempt'
      · cases hAttempt'
    · cases hAttempt'
  | idle | taken | entering | claiming | withdrawing | requeueing | finishing | leaving | retired =>
    cases hAttempt

namespace System

variable {s u : System δ}

theorem calls_congr (h : u.realm.invocations = s.realm.invocations) (id : JobId) :
    u.calls id = s.calls id := by
  unfold calls
  rw [h]

theorem calls_concat_self {v : Invocation}
    (h : u.realm.invocations = s.realm.invocations ++ [v]) :
    u.calls v.jobId = s.calls v.jobId + 1 := by
  simp [calls, h, List.filter_append]

theorem calls_concat_of_ne {v : Invocation} {id : JobId}
    (h : u.realm.invocations = s.realm.invocations ++ [v]) (hNe : id ≠ v.jobId) :
    u.calls id = s.calls id := by
  simp [calls, h, List.filter_append, hNe.symm]

end System

namespace Accounted

variable {start : Store} {s u : System δ} {e : Event} {ids : List JobId} {log : List Deed}

theorem step (h : Accounted start s ids) (hOwned : Owned s ids log) (hMove : Move s e u)
    (hIds : (ids ++ (s.admissions e).map (·.2.id)).Nodup) :
    Accounted start u (ids ++ (s.admissions e).map (·.2.id)) := by
  have hMore : ∀ {id}, id ∉ ids ++ (s.admissions e).map (·.2.id) → id ∉ ids := fun hNot hIn =>
    hNot (List.mem_append_left _ hIn)
  -- as long as no definition is called, only the records and the workers have to be looked at
  have hUncalled : u.realm.invocations = s.realm.invocations →
      (∀ x ∈ u.realm.store.records, x.state = .queued →
        x.attempts = start.attemptsOf x.id + s.calls x.id) →
      (∀ {i w record}, u.Busy i w record →
        w.Counts (start.attemptsOf record.id + s.calls record.id)) →
      Accounted start u (ids ++ (s.admissions e).map (·.2.id)) := by
    intro hInvocations hWaiting hBusy
    have hCalls := System.calls_congr hInvocations
    refine ⟨?_, ?_, ?_, ?_⟩
    · intro id
      rw [hInvocations, hCalls]
      exact h.numbered id
    · intro x hx hQueued
      rw [hCalls]
      exact hWaiting x hx hQueued
    · intro i w record hBusy'
      rw [hCalls]
      exact hBusy hBusy'
    · intro id hNot
      rw [hCalls]
      exact h.unused id (hMore hNot)
  cases hMove with
  | quiet hStore hWorkers hInvocations _ =>
    refine hUncalled hInvocations ?_ fun hBusy => h.busy (Owned.busy_of_quiet hWorkers hBusy)
    intro x' hx hQueued
    rcases hStore x' hx with ⟨x, hx, hFollows⟩ | ⟨a, hAdmitted, hMade⟩
    · rw [hFollows.attempts, hFollows.sameRun.id]
      exact h.waiting x hx (hFollows.queued hQueued)
    · have hNew : x'.id ∉ ids := fun hOld => (List.nodup_append.mp hIds).2.2 x'.id hOld x'.id
        (List.mem_map_of_mem hAdmitted) rfl
      obtain ⟨hStart, hNever⟩ := h.unused x'.id hNew
      obtain ⟨id, now, rfl⟩ := hMade
      rw [hStart, hNever]
      rfl
  | claim i cue x token _ _ hThreads hStored hQueued hStore hInvocations _ =>
    refine hUncalled hInvocations ?_ ?_
    · intro y hy hWaits
      rcases (hStore y).mp hy with rfl | ⟨hOld, -⟩
      · cases hWaits
      · exact h.waiting y hOld hWaits
    · intro j w record hBusy
      rcases System.busy_of_set_of_some hThreads rfl hBusy with ⟨-, rfl, rfl⟩ | ⟨-, hOld⟩
      · show x.attempts + 1 = _ + 1
        rw [h.waiting x hStored hQueued]
        rfl
      · exact h.busy hOld
  | settle i cue record t w' result _ hBefore hThreads hNone hStore hInvocations _ =>
    have hBusy : s.Busy i (.recording record t) record := ⟨hBefore, rfl⟩
    refine hUncalled hInvocations ?_ ?_
    · intro y hy hWaits
      rcases hStore with ⟨_, -, hSame⟩ | ⟨x, hx, hId, -, hTarget, -, hStore⟩
      · rw [hSame] at hy
        exact h.waiting y hy hWaits
      · rcases (hStore y).mp hy with rfl | ⟨hOld, -⟩
        · -- the attempt that is to be repeated is the last one that was called for
          have hAttempts : (t.apply x cue.now).attempts = x.attempts := by
            simp [Transition.apply, hTarget]
          rw [hAttempts, (hOwned.follows hBusy x hx hId).attempts, Transition.apply_id, hId]
          exact (h.busy hBusy hWaits).1
        · exact h.waiting y hOld hWaits
    · intro j v b hBusy'
      exact h.busy (System.busy_of_set_of_none hThreads hNone hBusy').2
  | goOn i cue w w' record _ hBefore hThreads hAttempt hAttempt' hStep hStore _ =>
    have hBusy : s.Busy i w record := ⟨hBefore, hAttempt⟩
    rcases Worker.counts_goOn hAttempt hAttempt' hStep (h.busy hBusy) with
      ⟨hInvocations, hCounts⟩ | ⟨hNumber, hCounts, hInvocations⟩
    · refine hUncalled hInvocations (by rw [hStore]; exact h.waiting) ?_
      intro j v b hBusy'
      rcases System.busy_of_set_of_some hThreads hAttempt' hBusy' with ⟨-, rfl, rfl⟩ | ⟨-, hOld⟩
      · exact hCounts
      · exact h.busy hOld
    · have hSelf : u.calls record.id = s.calls record.id + 1 :=
        System.calls_concat_self hInvocations
      have hOther : ∀ {id}, id ≠ record.id → u.calls id = s.calls id :=
        System.calls_concat_of_ne hInvocations
      refine ⟨?_, ?_, ?_, ?_⟩
      · intro id
        by_cases hId : id = record.id
        · subst hId
          rw [hInvocations, hSelf, List.range'_1_concat, ← h.numbered]
          simp [List.filter_append, hNumber]
          omega
        · rw [hInvocations, hOther hId, ← h.numbered]
          simp [List.filter_append, Ne.symm hId]
      · intro x hx hQueued
        rw [hStore] at hx
        rw [hOther (hOwned.id_ne_of_queued hBusy hx hQueued).symm]
        exact h.waiting x hx hQueued
      · intro j v b hBusy'
        rcases System.busy_of_set_of_some hThreads hAttempt' hBusy' with
          ⟨-, rfl, rfl⟩ | ⟨hji, hOld⟩
        · rw [hSelf]
          exact hCounts
        · rw [hOther fun hId => hji (hOwned.alone hOld hBusy hId)]
          exact h.busy hOld
      · intro id hNot
        have hNe : id ≠ record.id := by
          rintro rfl
          exact hMore hNot (hOwned.begun hBusy).2.2
        rw [hOther hNe]
        exact h.unused id (hMore hNot)

end Accounted

namespace System

variable {settings : RealmSettings} {registry : Registry δ} {store : Store} {u : System δ}
  {events : List Event}

/-- Attempts are counted right in every run in which no run gets an id that was used before. -/
theorem accounted_of_run (hRun : (initial settings registry store).run events = some u)
    (hIds : ((initial settings registry store).runIds events).Nodup) :
    Accounted store u ((initial settings registry store).runIds events) := by
  refine run_induction (motive := fun events u =>
    ((initial settings registry store).runIds events).Nodup →
      Accounted store u ((initial settings registry store).runIds events)) hRun ?_ ?_ hIds
  · intro _
    refine ⟨fun _ => rfl, ?_, nofun, ?_⟩
    · intro x hx _
      have hFind : store.find? x.id = some x := Store.find?_of_mem hx
      show x.attempts = (store.find? x.id).elim 0 (·.attempts) + 0
      rw [hFind]
      rfl
    · intro id hNot
      exact ⟨Store.attemptsOf_of_new fun hIn => hNot (List.mem_append_left _ hIn), rfl⟩
  · intro before t e v hBefore hStep ih hIds
    rw [runIds_concat hBefore] at hIds ⊢
    have hIds' := (List.nodup_append.mp hIds).1
    exact (ih hIds').step (owned_of_run hBefore hIds') (move_of_step (made_of_run hBefore) hStep)
      hIds

end System

-- ---------------------------------------------------------------------------
-- The bound on attempts
-- ---------------------------------------------------------------------------

/-- Is this what became of an admitted record, within the attempts that its policy allows? -/
structure JobRecord.Within (x admitted : JobRecord) : Prop where
  sameRun : admitted.SameRun x
  attempts : x.attempts ≤ max 1 admitted.retryPolicy.maxAttempts
  waiting : x.state = .queued → x.attempts = 0 ∨ x.attempts < admitted.retryPolicy.maxAttempts

namespace JobRecord.Within

variable {x x' admitted : JobRecord}

theorem of_made {a : Admission} (h : a.Made x) : x.Within x := by
  obtain ⟨id, now, rfl⟩ := h
  exact ⟨.refl _, Nat.zero_le _, fun _ => .inl rfl⟩

theorem follows (h : x.Within admitted) (hFollows : x.Follows x') : x'.Within admitted where
  sameRun := h.sameRun.trans hFollows.sameRun
  attempts := hFollows.attempts ▸ h.attempts
  waiting hQueued := by
    rw [hFollows.attempts]
    exact h.waiting (hFollows.queued hQueued)

theorem start (h : x.Within admitted) (hQueued : x.state = .queued) (now : Instant) :
    (Transition.start.apply x now).Within admitted where
  sameRun := h.sameRun.trans (sameRun_apply _ x now)
  attempts := by
    show x.attempts + 1 ≤ _
    have hWaiting := h.waiting hQueued
    omega
  waiting hWaits := by cases hWaits

theorem settle (h : x.Within admitted) {t : Transition} (ht : t.target ≠ .running) (now : Instant)
    (hAgain : t.target = .queued → x.attempts < admitted.retryPolicy.maxAttempts) :
    (t.apply x now).Within admitted := by
  have hAttempts : (t.apply x now).attempts = x.attempts := by simp [Transition.apply, ht]
  refine ⟨h.sameRun.trans (sameRun_apply t x now), ?_, ?_⟩
  · rw [hAttempts]
    exact h.attempts
  · intro hQueued
    rw [hAttempts]
    exact .inr (hAgain hQueued)

end JobRecord.Within

namespace System

theorem within_step {start : Store} {s u : System δ} {e : Event} {ids : List JobId}
    {log : List Deed} {admitted : List (Admission × JobRecord)} (hOwned : Owned s ids log)
    (hAccounted : Accounted start s ids) (hMove : Move s e u)
    (hIds : (ids ++ (s.admissions e).map (·.2.id)).Nodup) (hKnown : ∀ p ∈ admitted, p.2.id ∈ ids)
    (h : ∀ p ∈ admitted, ∀ x ∈ s.realm.store.records, x.id = p.2.id → x.Within p.2) :
    ∀ p ∈ admitted ++ s.admissions e, ∀ x ∈ u.realm.store.records, x.id = p.2.id →
      x.Within p.2 := by
  -- a worker admits nothing
  have hWorker : ∀ {i cue w}, e = .advance i cue → s.threads[i]? = some (.worker w) →
      admitted ++ s.admissions e = admitted := by
    rintro i cue w rfl hAt
    rw [admissions_of_worker hAt, List.append_nil]
  have hApart : ∀ {p q : Admission × JobRecord}, p.2.id ∈ ids → q ∈ s.admissions e →
      p.2.id ≠ q.2.id := fun hOld hNew =>
    (List.nodup_append.mp hIds).2.2 _ hOld _ (List.mem_map_of_mem hNew)
  cases hMove with
  | quiet hStore _ _ _ =>
    intro p hp x' hx hId
    rcases hStore x' hx with ⟨x, hx, hFollows⟩ | ⟨a, hAdmitted, hMade⟩ <;>
      rcases List.mem_append.mp hp with hOld | hNew
    · exact (h p hOld x hx (hFollows.sameRun.id ▸ hId)).follows hFollows
    · -- what was stored before has another id than what is admitted now
      have hStored := hOwned.stored x hx
      rw [← hFollows.sameRun.id, hId] at hStored
      exact absurd rfl (hApart hStored hNew)
    · exact absurd hId.symm (hApart (hKnown p hOld) hAdmitted)
    · cases eq_of_mem_admissions hNew hAdmitted
      exact .of_made hMade
  | claim i cue x token hEvent hBefore _ hStored hQueued hStore _ _ =>
    rw [hWorker hEvent hBefore]
    intro p hp y hy hId
    rcases (hStore y).mp hy with rfl | ⟨hOld, -⟩
    · exact (h p hp x hStored hId).start hQueued cue.now
    · exact h p hp y hOld hId
  | goOn i cue w w' record hEvent hBefore _ _ _ _ hStore _ =>
    rw [hWorker hEvent hBefore, hStore]
    exact h
  | settle i cue record t w' result hEvent hBefore _ _ hStore _ _ =>
    rw [hWorker hEvent hBefore]
    intro p hp y hy hId
    rcases hStore with ⟨_, -, hSame⟩ | ⟨x, hx, hxId, -, hTarget, -, hStore⟩
    · rw [hSame] at hy
      exact h p hp y hy hId
    · rcases (hStore y).mp hy with rfl | ⟨hOld, -⟩
      · have hWithin := h p hp x hx hId
        refine hWithin.settle hTarget cue.now fun hQueued => ?_
        have hBusy : s.Busy i (.recording record t) record := ⟨hBefore, rfl⟩
        have hFollows := hOwned.follows hBusy x hx hxId
        rw [hFollows.attempts, ← hWithin.sameRun.retryPolicy, hFollows.sameRun.retryPolicy]
        exact (hAccounted.busy hBusy hQueued).2.1
      · exact h p hp y hOld hId

variable {settings : RealmSettings} {registry : Registry δ} {store : Store} {u : System δ}
  {events : List Event}

theorem within_of_run (hRun : (initial settings registry store).run events = some u)
    (hIds : ((initial settings registry store).runIds events).Nodup) :
    ∀ p ∈ (initial settings registry store).trail admissions events,
      ∀ x ∈ u.realm.store.records, x.id = p.2.id → x.Within p.2 := by
  refine run_induction (motive := fun events u =>
    ((initial settings registry store).runIds events).Nodup →
      ∀ p ∈ (initial settings registry store).trail admissions events,
        ∀ x ∈ u.realm.store.records, x.id = p.2.id → x.Within p.2) hRun ?_ ?_ hIds
  · intro _ p hp
    exact absurd hp List.not_mem_nil
  · intro before t e v hBefore hStep ih hIds
    rw [runIds_concat hBefore] at hIds
    have hIds' := (List.nodup_append.mp hIds).1
    rw [trail_concat hBefore]
    exact within_step (owned_of_run hBefore hIds') (accounted_of_run hBefore hIds')
      (move_of_step (made_of_run hBefore) hStep) hIds
      (fun p hp => List.mem_append_right _ (List.mem_map_of_mem hp)) (ih hIds')

-- ---------------------------------------------------------------------------
-- All together
-- ---------------------------------------------------------------------------

/-- However the threads of a realm interleave, at most one worker is in an attempt of a run; an
outcome is recorded by the worker that claimed the run last, as the outcome of the attempt that
began with this claim; the definition is called for one attempt after the other; and an admitted
run has no more attempts than its policy allows. -/
theorem attempts_of_run (hRun : (initial settings registry store).run events = some u)
    (hIds : ((initial settings registry store).runIds events).Nodup) :
    (∀ i j v w a b, u.Busy i v a → u.Busy j w b → a.id = b.id → i = j) ∧
      Deed.Ordered ((initial settings registry store).trail deeds events) ∧
      (∀ id, (u.realm.invocations.filter (·.jobId = id)).map (·.attempt) =
        List.range' (store.attemptsOf id + 1) (u.calls id)) ∧
      ∀ p ∈ (initial settings registry store).trail admissions events,
        store.attemptsOf p.2.id = 0 ∧
          ∀ x ∈ u.realm.store.records, x.id = p.2.id →
            p.2.SameRun x ∧ x.attempts ≤ max 1 p.2.retryPolicy.maxAttempts := by
  have hOwned := owned_of_run hRun hIds
  have hAccounted := accounted_of_run hRun hIds
  refine ⟨?_, hOwned.ordered, hAccounted.numbered, ?_⟩
  · intro i j v w a b ha hb hId
    exact hOwned.alone ha hb hId
  · intro p hp
    have hNew : p.2.id ∉ store.ids := fun hOld =>
      (List.nodup_append.mp hIds).2.2 _ hOld _ (List.mem_map_of_mem hp) rfl
    refine ⟨?_, ?_⟩
    · rw [Store.attemptsOf, Store.find?_eq_none_iff.mpr hNew]
      rfl
    · intro x hx hId
      have hWithin := within_of_run hRun hIds p hp x hx hId
      exact ⟨hWithin.sameRun, hWithin.attempts⟩

/-- A run whose id gets into the queue twice, since the realm starts between the creation of its
record and its queueing. Each of two workers takes one of the entries. The first attempt fails and
is put back, and the second worker claims the run before the first one has queued it again. -/
def queuedTwice : List Event :=
  let request : JobRequest :=
    { jobKey := "job", name := "job", group := none, arguments := Dict.empty,
      metadata := Dict.empty, constraints := [], retryPolicy := none, trigger := .immediate }
  let advance (i n : Nat) : Event := .advance i { now := ⟨n, 0⟩, fresh := ⟨BitVec.ofNat 128 n⟩ }
  let fail (i n : Nat) : Event :=
    .advance i { now := ⟨n, 0⟩, fresh := default, outcome := .error (.failed "once more" true) }
  [.call (.submit request), .call .start,
    advance 0 1, advance 0 2, advance 0 3, advance 0 4,
    advance 1 5, advance 1 6, advance 1 7, advance 1 8, advance 1 9, advance 1 10, advance 1 11,
    advance 0 12, advance 0 13,
    advance 2 14, advance 3 15, advance 2 16, advance 3 17, advance 2 18, advance 3 19,
    advance 2 20, advance 2 21, fail 2 22, advance 2 23, advance 2 24,
    advance 3 25, advance 3 26, advance 3 27, advance 2 28, advance 3 29, advance 3 30]

theorem attempts_of_run_queuedTwice :
    ∃ u : System Unit,
      (initial { workers := 2 } ⟨Dict.empty.insert "job" ()⟩ Store.empty).run queuedTwice =
          some u ∧
        u.realm.invocations.map (·.attempt) = [1, 2] ∧
        Deed.Ordered ((initial { workers := 2 } ⟨Dict.empty.insert "job" ()⟩ Store.empty).trail
          deeds queuedTwice) := by
  have hEnd : ((initial { workers := 2 } ⟨Dict.empty.insert "job" ()⟩ Store.empty).run
      queuedTwice).map (fun u => u.realm.invocations.map (·.attempt)) = some [1, 2] := by
    decide +kernel
  have hIds : ((initial { workers := 2 } ⟨Dict.empty.insert "job" ()⟩ Store.empty).runIds
      queuedTwice).Nodup := by
    decide +kernel
  obtain ⟨u, hRun, hCalled⟩ := Option.map_eq_some_iff.mp hEnd
  exact ⟨u, hRun, hCalled, (attempts_of_run hRun hIds).2.1⟩

end System

end BackgroundJobs
