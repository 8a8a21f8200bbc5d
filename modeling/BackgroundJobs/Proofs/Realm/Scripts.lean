import BackgroundJobs.Proofs.Job.Script
import BackgroundJobs.Proofs.Realm.Coverage
import BackgroundJobs.Proofs.Realm.Undisturbed

/-!
# Proofs — runs that follow a script

A worker carries the outcome of an attempt from the definition to the record, in
steps between which others act: it learns the outcome, makes a change of state
of it and has that recorded. As long as nobody disturbs the run, its token is
not raised and its record is not marked, so the change is the one that the
script calls for, and the record obeys the script all the time.

Main results:

* `System.returns`       — the observer of the outcomes that a definition has.
* `scripted_of_run`      — the record of an undisturbed run obeys its script.
* `waiting_of_run`       — while the run waits, it is in the queue or is carried.
-/

namespace BackgroundJobs

variable {δ : Type} {id : JobId} {script : Nat → Outcome}

/-- What is made of an outcome does not depend on marks and times. -/
theorem Worker.verdict_of_follows {record x : JobRecord} (h : record.Follows x)
    (hMark : x.cancelRequested = record.cancelRequested) (canceled : Bool) (outcome : Outcome) :
    verdict record canceled outcome = verdict x canceled outcome := by
  unfold verdict
  rw [h.attempts, h.sameRun.retryPolicy, hMark]

namespace System

variable {s t u : System δ} {e : Event} {events : List Event} {ids : List JobId}
  {log : List Deed} {visited : List Visit}

/-- The outcomes that the definition of a run has, each with the number of its attempt. -/
def returns (id : JobId) (s : System δ) : Event → List (Nat × Outcome)
  | .advance i cue =>
    match s.threads[i]? with
    | some (.worker (.executing record _ _)) =>
      if record.id = id then [(record.attempts, cue.outcome)] else []
    | _ => []
  | _ => []

/-- A worker after a step was where it is before it, or has taken the step, or has just come. -/
theorem worker_of_step {j : Nat} {w' : Worker δ} (hStep : s.step e = some u)
    (hAt : u.threads[j]? = some (.worker w')) :
    s.threads[j]? = some (.worker w') ∨ w' = .idle ∨
      ∃ cue w, e = .advance j cue ∧ s.threads[j]? = some (.worker w) ∧
        w.step cue s.realm = some (u.realm, w') := by
  cases e with
  | call call =>
    cases hStep
    rcases threads_of_call hAt with hOld | ⟨-, hEq⟩
    · exact .inl hOld
    · cases hEq
  | sweep cutoff =>
    cases hStep
    exact .inl hAt
  | advance i cue =>
    obtain ⟨th, r', th', crew, hThread, hThreadStep, rfl⟩ := step_advance hStep
    rcases threads_of_advance hAt with ⟨rfl, rfl⟩ | ⟨-, hOld⟩ | ⟨-, hMem⟩
    · obtain ⟨w, rfl, hWorker, -⟩ := Thread.worker_of_step hThreadStep
      exact .inr (.inr ⟨cue, w, rfl, hThread, hWorker⟩)
    · exact .inl hOld
    · rcases Thread.crew_of_step hThreadStep _ hMem with hEq | hEq <;> cases hEq
      exact .inr (.inl rfl)

/-- The definition of a run is called by a worker that has claimed the run. -/
theorem calls_of_step (hStep : s.step e = some u) (id : JobId) :
    u.calls id = s.calls id ∨ ∃ i cue record token, e = .advance i cue ∧
      s.threads[i]? = some (.worker (.claimed record token)) ∧ record.id = id := by
  cases e with
  | call call =>
    cases hStep
    exact .inl rfl
  | sweep cutoff =>
    cases hStep
    exact .inl rfl
  | advance i cue =>
    obtain ⟨th, r', th', crew, hAt, hThread, rfl⟩ := step_advance hStep
    by_cases hTouched : Part.invocations ∈ th.touched
    · obtain ⟨w, rfl, hMem⟩ := Thread.worker_of_mem_touched hTouched (.inl rfl)
      rcases Worker.mem_touched hMem with
        ⟨hPart, -⟩ | ⟨hPart, -⟩ | ⟨-, record, token, rfl⟩ | ⟨hPart, -⟩
      · cases hPart
      · cases hPart
      · by_cases hId : record.id = id
        · exact .inr ⟨i, cue, record, token, rfl, hAt, hId⟩
        · refine .inl ?_
          obtain ⟨w', hWorker, -, -⟩ := Thread.step_worker hThread
          simp only [Worker.step] at hWorker
          split at hWorker <;> cases hWorker
          · refine calls_concat_of_ne (v := ⟨record.id, record.jobKey, record.attempts⟩) ?_
              (Ne.symm hId)
            show (if _ then _ else _ : Realm δ).invocations ++ _ = _
            split <;> rfl
          · refine calls_congr ?_ id
            show (if _ then _ else _ : Realm δ).invocations = _
            split <;> rfl
      · cases hPart
    · exact .inl (calls_congr ((Thread.effect hThread).invocations hTouched) id)

/-- The record of the run obeys the script, and the workers make of every outcome what the script
calls for. -/
structure Scripted (s : System δ) (id : JobId) (script : Nat → Outcome) : Prop where
  records : ∀ x ∈ s.realm.store.records, x.id = id → x.Obeys script
  judging : ∀ {i : Nat} {record token outcome},
    s.threads[i]? = some (.worker (.judging record token outcome)) → record.id = id →
      outcome = script record.attempts
  recording : ∀ {i : Nat} {record t}, s.threads[i]? = some (.worker (.recording record t)) →
    record.id = id → t = Worker.verdict record false (script record.attempts)
  /-- An outcome is that of the last call. -/
  called : ∀ {i : Nat} {record t}, s.threads[i]? = some (.worker (.recording record t)) →
    record.id = id → record.attempts = s.calls id
  withdrawing : ∀ {i : Nat} {record}, s.threads[i]? = some (.worker (.withdrawing record)) →
    record.id ≠ id

namespace Scripted

/-- While a worker is in an attempt of the run, the record that it claimed is not marked, and the
stored one has followed it. -/
theorem follows_of_busy (h : s.Scripted id script) (hOwned : Owned s ids log)
    (hAttended : s.Attended) (hGoesOn : s.realm.stopping = false) {i : Nat} {w : Worker δ}
    {record : JobRecord} (hBusy : s.Busy i w record) (hId : record.id = id) :
    record.cancelRequested = false ∧ ∃ x ∈ s.realm.store.records, x.id = id ∧
      x.state = .running ∧ record.Follows x := by
  obtain ⟨x, hx, hSame, hRunning⟩ := running_of_busy hAttended hGoesOn hBusy
  have hFollows := hOwned.follows hBusy x hx hSame
  refine ⟨?_, x, hx, hSame.trans hId, hRunning, hFollows⟩
  by_contra hMark
  have hMarked := hFollows.cancelRequested (by simpa using hMark)
  rw [(h.records x hx (hSame.trans hId)).unmarked] at hMarked
  cases hMarked

variable (h : s.Scripted id script) (hStep : s.step e = some u)

include h hStep

theorem judging_of_step (hReturns : ∀ p ∈ s.returns id e, p.2 = script p.1) {i : Nat}
    {record : JobRecord} {token : Token} {outcome : Outcome}
    (hAt : u.threads[i]? = some (.worker (.judging record token outcome))) (hId : record.id = id) :
    outcome = script record.attempts := by
  rcases worker_of_step hStep hAt with hOld | hIdle | ⟨cue, w, rfl, hBefore, hWorker⟩
  · exact h.judging hOld hId
  · cases hIdle
  · cases Worker.goes_of_step hWorker with
    | returns _ _ definition _ =>
      cases (Prod.mk.inj (Option.some.inj hWorker)).2
      refine hReturns (record.attempts, cue.outcome) ?_
      simp [returns, hBefore, hId]
    | settles record' t' w next =>
      rcases next with ⟨updated, hEq | hEq | hEq⟩ | hEq <;> cases hEq

theorem withdrawing_of_step {i : Nat} {record : JobRecord}
    (hAt : u.threads[i]? = some (.worker (.withdrawing record))) : record.id ≠ id := by
  intro hId
  rcases worker_of_step hStep hAt with hOld | hIdle | ⟨cue, w, -, hBefore, hWorker⟩
  · exact h.withdrawing hOld hId
  · cases hIdle
  · cases Worker.goes_of_step hWorker with
    | settles claimed t' _ next =>
      simp only [Worker.step] at hWorker
      split at hWorker
      · next updated r' hTold =>
        obtain ⟨hRealm, hPoint⟩ := Prod.mk.inj (Option.some.inj hWorker)
        split at hPoint
        · split at hPoint
          · next hMark =>
            cases hPoint
            -- a run that was put back has the mark of the record that was stored
            obtain ⟨x, hx, hSame, -, -, rfl, -⟩ := Realm.transition_eq_ok _ _ hTold
            have hUnmarked := (h.records x hx hId).unmarked
            exact Bool.eq_false_iff.mp hUnmarked hMark
          · cases hPoint
        · cases hPoint
      · cases hWorker

variable (hOwned : Owned s ids log) (hAttended : s.Attended) (hUndisturbed : s.Undisturbed id)

include hOwned hAttended hUndisturbed

theorem records_of_step (hFormed : ∀ {i : Nat} {th}, s.threads[i]? = some th → th.Formed)
    (hGoverned : Governed s)
    (hWorked : ∀ x ∈ s.realm.store.records, x.id = id → x.state = .running →
      ∃ i w record, s.Busy i w record ∧ record.id = id) :
    ∀ x ∈ u.realm.store.records, x.id = id → x.Obeys script := by
  intro x' hx' hId
  cases dealing_of_step hUndisturbed hGoverned hWorked hStep hx' hId with
  | kept hOld => exact h.records x' hOld hId
  | admitted a hAdmits =>
    obtain ⟨i, cue, th, -, hAt, hCreating, -⟩ := creating_of_mem_admissions hAdmits
    exact .of_made (hFormed hAt a _ x' hCreating rfl)
  | claimed i cue x token _ _ hx hQueued hChange =>
    subst hChange
    exact (h.records x hx hId).start hQueued cue.now
  | settled i cue record x t _ hBefore hx hSame hRunning _ hChange =>
    subst hChange
    have hRecord : record.id = id := hSame.symm.trans hId
    have hBusy : s.Busy i (.recording record t) record := ⟨hBefore, rfl⟩
    have hObeys := h.records x hx hId
    have hFollows := hOwned.follows hBusy x hx hSame
    obtain ⟨hUnmarked, -⟩ := h.follows_of_busy hOwned hAttended hUndisturbed.goesOn hBusy hRecord
    rw [h.recording hBefore hRecord, Worker.verdict_of_follows hFollows
      (hObeys.unmarked.trans hUnmarked.symm), ← hFollows.attempts]
    exact hObeys.settle hRunning cue.now
  | withdrawn i record hBefore hSame => exact absurd (hSame.trans hId) (h.withdrawing hBefore)

variable (hKnown : ∀ x ∈ s.realm.store.records, x.id = id →
  ∃ definition, s.realm.registry.lookup x.jobKey = .ok definition)

include hKnown

omit hStep in
/-- A worker that has claimed the run goes on to call its definition, which is known. -/
theorem not_recording_of_claimed {i : Nat} {cue : Cue} {r' : Realm δ} {record : JobRecord}
    {token : Token} {t : Transition}
    (hAt : s.threads[i]? = some (.worker (.claimed record token))) (hId : record.id = id) :
    (Worker.claimed record token).step cue s.realm ≠ some (r', .recording record t) := by
  intro hWorker
  obtain ⟨hUnmarked, x, hx, hxId, -, hFollows⟩ :=
    h.follows_of_busy hOwned hAttended hUndisturbed.goesOn ⟨hAt, rfl⟩ hId
  obtain ⟨definition, hLookup⟩ := hKnown x hx hxId
  rw [hFollows.sameRun.jobKey] at hLookup
  simp only [Worker.step, hUnmarked, Bool.false_eq_true, if_false, hLookup] at hWorker
  cases (Prod.mk.inj (Option.some.inj hWorker)).2

/-- A worker that has an outcome recorded has had it judged before. -/
theorem judging_of_recording {i : Nat} {record : JobRecord} {t : Transition}
    (hAt : u.threads[i]? = some (.worker (.recording record t))) (hId : record.id = id) :
    s.threads[i]? = some (.worker (.recording record t)) ∨
      ∃ cue token outcome, e = .advance i cue ∧
        s.threads[i]? = some (.worker (.judging record token outcome)) ∧
        t = Worker.verdict record (s.realm.tokens.isRaised token) outcome := by
  rcases worker_of_step hStep hAt with hOld | hIdle | ⟨cue, w, rfl, hBefore, hWorker⟩
  · exact .inl hOld
  · cases hIdle
  · cases Worker.goes_of_step hWorker with
    | misses _ token chain =>
      exact absurd hWorker
        (h.not_recording_of_claimed hOwned hAttended hUndisturbed hKnown hBefore hId)
    | judges _ token outcome => exact .inr ⟨cue, token, outcome, rfl, hBefore, rfl⟩
    | settles record' t' w next =>
      rcases next with ⟨updated, hEq | hEq | hEq⟩ | hEq <;> cases hEq

theorem recording_of_step (hRegistered : s.Registered visited) (hUnraised : s.Unraised visited id)
    {i : Nat} {record : JobRecord} {t : Transition}
    (hAt : u.threads[i]? = some (.worker (.recording record t))) (hId : record.id = id) :
    t = Worker.verdict record false (script record.attempts) := by
  rcases h.judging_of_recording hStep hOwned hAttended hUndisturbed hKnown hAt hId with
    hOld | ⟨cue, token, outcome, -, hBefore, rfl⟩
  · exact h.recording hOld hId
  · have hNot : s.realm.tokens.isRaised token = false :=
      hUnraised.isRaised_eq_false hRegistered hBefore (by rw [← hId]; rfl)
    rw [hNot, h.judging hBefore hId]

theorem called_of_step {start : Store} (hAccounted : Accounted start s ids)
    (hNew : start.attemptsOf id = 0) {i : Nat} {record : JobRecord} {t : Transition}
    (hAt : u.threads[i]? = some (.worker (.recording record t))) (hId : record.id = id) :
    record.attempts = u.calls id := by
  rcases h.judging_of_recording hStep hOwned hAttended hUndisturbed hKnown hAt hId with
    hOld | ⟨cue, token, outcome, rfl, hBefore, -⟩
  · rcases calls_of_step hStep id with hSame | ⟨j, cue, other, token, -, hClaimed, hOther⟩
    · rw [hSame]
      exact h.called hOld hId
    · -- nobody else is in an attempt of the run
      obtain rfl : i = j := hOwned.alone ⟨hOld, rfl⟩ ⟨hClaimed, rfl⟩ (hId.trans hOther.symm)
      rw [hOld] at hClaimed
      cases hClaimed
  · have hCounts : record.attempts = start.attemptsOf record.id + s.calls record.id :=
      hAccounted.busy ⟨hBefore, rfl⟩
    rw [hId, hNew, Nat.zero_add] at hCounts
    rcases calls_of_step hStep id with hSame | ⟨j, _, other, token', hEvent, hClaimed, -⟩
    · rw [hSame]
      exact hCounts
    · cases hEvent
      rw [hBefore] at hClaimed
      cases hClaimed

end Scripted

variable {settings : RealmSettings} {registry : Registry δ} {store : Store}

/-- A record that was not in the store at the beginning is one of a run that was admitted. -/
theorem admitted_of_stored (hOwned : Owned u ((initial settings registry store).runIds events) log)
    (hNew : id ∉ store.ids) {x : JobRecord} (hx : x ∈ u.realm.store.records) (hId : x.id = id) :
    ∃ p ∈ (initial settings registry store).trail admissions events, x.id = p.2.id := by
  rcases List.mem_append.mp (hOwned.stored x hx) with hOld | hAdmitted
  · exact absurd (hId ▸ hOld) hNew
  · obtain ⟨p, hp, hSame⟩ := List.mem_map.mp hAdmitted
    exact ⟨p, hp, hSame.symm⟩

/-- The record of a run that nobody disturbs obeys the script that its definition follows. -/
theorem scripted_of_run (hRun : (initial settings registry store).run events = some u)
    (hIds : ((initial settings registry store).runIds events).Nodup)
    (hCalm : ∀ e ∈ events, e.Untroubled) (hSpares : ∀ e ∈ events, e.Spares id)
    (hNew : id ∉ store.ids)
    (hReturns : ∀ p ∈ (initial settings registry store).trail (returns id) events,
      p.2 = script p.1) :
    u.Scripted id script ∧
      u.Unraised ((initial settings registry store).trail visits events) id := by
  refine run_induction_of_nodup (motive := fun events u =>
    (∀ e ∈ events, e.Untroubled) → (∀ e ∈ events, e.Spares id) →
      (∀ p ∈ (initial settings registry store).trail (returns id) events, p.2 = script p.1) →
        u.Scripted id script ∧
          u.Unraised ((initial settings registry store).trail visits events) id)
    (show (initial settings registry store).run [] = some _ from rfl) hRun hIds ?_ ?_ hCalm hSpares
    hReturns
  · intro _ _ _
    refine ⟨⟨?_, nofun, nofun, nofun, nofun⟩, nofun⟩
    rintro x hx rfl
    exact absurd (Store.id_mem_ids hx) hNew
  · intro before t e v hBefore hStep _ hOwned hIds ih hCalm hSpares hReturns
    obtain ⟨hCalm, -⟩ := List.forall_mem_append.mp hCalm
    obtain ⟨hSpares, -⟩ := List.forall_mem_append.mp hSpares
    rw [trail_concat hBefore] at hReturns ⊢
    obtain ⟨hReturns, hReturnsLast⟩ := List.forall_mem_append.mp hReturns
    obtain ⟨hScripted, hUnraised⟩ := ih hCalm hSpares hReturns
    have hIds' := (List.nodup_append.mp hIds).1
    have hUndisturbed := undisturbed_of_run hBefore hSpares
    have hAttended := attended_of_run hBefore hIds'
    have hRegistered := registered_of_run hBefore
    have hWorked : ∀ x ∈ t.realm.store.records, x.id = id → x.state = .running →
        ∃ i w record, t.Busy i w record ∧ record.id = id := fun x hx hId hRunning =>
      busy_of_running hBefore hCalm hNew hx hId hRunning
    have hKnown : ∀ x ∈ t.realm.store.records, x.id = id →
        ∃ definition, t.realm.registry.lookup x.jobKey = .ok definition := by
      intro x hx hId
      obtain ⟨p, hp, hSame⟩ := admitted_of_stored hOwned hNew hx hId
      rw [(within_of_run hBefore hIds' p hp x hx hSame).sameRun.jobKey]
      exact known_of_run hBefore hp
    refine ⟨⟨?_, ?_, ?_, ?_, ?_⟩, ?_⟩
    · exact hScripted.records_of_step hStep hOwned hAttended hUndisturbed (made_of_run hBefore)
        (governed_of_run hBefore) hWorked
    · exact hScripted.judging_of_step hStep hReturnsLast
    · exact hScripted.recording_of_step hStep hOwned hAttended hUndisturbed hKnown hRegistered
        hUnraised
    · exact hScripted.called_of_step hStep hOwned hAttended hUndisturbed hKnown
        (accounted_of_run hBefore hIds') (Store.attemptsOf_of_new hNew)
    · exact hScripted.withdrawing_of_step hStep
    · refine hUnraised.step hRegistered hUndisturbed (fun hAt hId => ?_) hStep
      exact (hScripted.follows_of_busy hOwned hAttended hUndisturbed.goesOn ⟨hAt, rfl⟩ hId).1

/-- As long as the store is in no trouble, a run that nobody disturbs and that waits is in the
queue, or some thread carries it. -/
theorem waiting_of_run (hRun : (initial settings registry store).run events = some u)
    (hIds : ((initial settings registry store).runIds events).Nodup)
    (hCalm : ∀ e ∈ events, e.Untroubled) (hSpares : ∀ e ∈ events, e.Spares id)
    (hNew : id ∉ store.ids) {x : JobRecord} (hx : x ∈ u.realm.store.records) (hId : x.id = id)
    (hWaits : x.state = .queued) : u.Covered id := by
  refine run_induction_of_nodup (motive := fun events u =>
    (∀ e ∈ events, e.Untroubled) → (∀ e ∈ events, e.Spares id) →
      ∀ x ∈ u.realm.store.records, x.id = id → x.state = .queued → u.Covered id)
    (show (initial settings registry store).run [] = some _ from rfl) hRun hIds ?_ ?_ hCalm hSpares
    x hx hId hWaits
  · rintro _ _ x hx rfl
    exact absurd (Store.id_mem_ids hx) hNew
  · intro before t e v hBefore hStep _ hOwned hIds ih hCalm hSpares x' hx' hId hWaits
    obtain ⟨hCalm, hCalmLast⟩ := List.forall_mem_append.mp hCalm
    obtain ⟨hSpares, -⟩ := List.forall_mem_append.mp hSpares
    have hGoesOn := (undisturbed_of_run hBefore hSpares).goesOn
    rcases queued_of_move (move_of_step (made_of_run hBefore) hStep) hx' hWaits with
      ⟨x, hx, hSame, hQueued⟩ | ⟨a, hAdmitted⟩ | ⟨i, cue, record, t', rfl, hAt, hOk⟩
    · have hBeforehand : t.Covered x.id := by
        rw [hSame, hId]
        exact ih hCalm hSpares x hx (hSame.trans hId) hQueued
      rw [← hId, ← hSame]
      exact hBeforehand.step (revoked_of_run hBefore (List.nodup_append.mp hIds).1)
        (open_of_run hBefore hGoesOn) hGoesOn (hCalmLast e List.mem_cons_self) hStep hx hQueued hx'
        hSame.symm hWaits
    · rw [← hId]
      exact covered_of_admitted hStep hAdmitted
    · rw [← hId]
      exact covered_of_put_back hStep hAt hOk hWaits

end System

end BackgroundJobs
