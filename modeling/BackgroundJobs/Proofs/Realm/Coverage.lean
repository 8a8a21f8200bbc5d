import BackgroundJobs.Proofs.Realm.Attempts
import BackgroundJobs.Proofs.Realm.Dispatch

/-!
# Proofs — no queued run is lost

The record of a run and its entry in the queue are changed at different times,
by callers, the timer and workers. In between somebody carries the run: whoever
has created its record or put it back is about to queue it or to cancel it, and
whoever has taken its id is about to claim it. So a run that waits is in the
queue or is carried, as long as the realm is open.

Two kinds of steps take entries out of the queue. A worker that is handed an id
carries the run from then on. A cancellation removes the entries of a run that
it has canceled, so that no record of the run waits any more.

Main results:

* `queued_of_move`  — a record that waits was waiting before, or was admitted by
  the step, or was put back by it.
* `covered_of_run`  — every admitted run that waits is in the queue or is carried.
-/

namespace BackgroundJobs

variable {δ : Type}

-- ---------------------------------------------------------------------------
-- Who carries a run
-- ---------------------------------------------------------------------------

/-- The run that a worker is about to claim, to queue again or to cancel. -/
def Worker.carried? : Worker δ → Option JobId
  | .taken id | .entering id | .claiming id _ => some id
  | .withdrawing record | .requeueing record => some record.id
  | _ => none

/-- Does the thread carry the run? Then it is a worker that does, or it has admitted the run and is
about to queue it. -/
def Thread.Carries (th : Thread δ) (id : JobId) : Prop :=
  (∃ w, th = .worker w ∧ w.carried? = some id) ∨
    ∃ a record, th.admission? = some (a, .queueing record) ∧ record.id = id

theorem Thread.carries_of_worker {w : Worker δ} {id : JobId} (h : w.carried? = some id) :
    (Thread.worker w).Carries id :=
  .inl ⟨w, rfl, h⟩

variable {cue : Cue} {r r' : Realm δ}

/-- A cancellation comes to remove a run from the queue by canceling it. -/
theorem Thread.revoking_of_step {th : Thread δ} {crew : List (Thread δ)} {record : JobRecord}
    (h : th.step cue r = some (r', .caller (.canceling (.unqueueing record)), crew)) :
    ∃ id, th = .caller (.canceling (.revoking id)) ∧
      r.transition cue id .queued .cancel = (.ok record, r') := by
  cases th with
  | worker w =>
    obtain ⟨w', -, hEq, -⟩ := step_worker h
    cases hEq
  | timer t =>
    obtain ⟨t', -, hEq, -⟩ := step_timer h
    cases hEq
  | answered answer => cases h
  | caller point =>
    rcases step_caller h with ⟨next, hStep, hEq, -⟩ | ⟨answer, -, hEq, -⟩
    · cases hEq
      cases point with
      | made call =>
        obtain ⟨-, hOpens⟩ := Call.opens_of_begin hStep
        cases hOpens
      | admitting | starting | stopping | scheduling | declaring =>
        obtain ⟨x, -, hLift⟩ := Option.map_eq_some_iff.mp hStep
        obtain ⟨q, -, hPoint⟩ := CallPoint.lift_eq_at hLift
        cases hPoint
      | canceling point =>
        obtain ⟨q, hCancel, hPoint⟩ := CallPoint.lift_eq_at (Option.some.inj hStep)
        cases hPoint
        cases point with
        | looking id =>
          simp only [Cancellation.step] at hCancel
          split at hCancel
          · cases hCancel
          · split at hCancel <;> cases hCancel
        | revoking id =>
          simp only [Cancellation.step] at hCancel
          split at hCancel <;> cases hCancel
          exact ⟨id, rfl, ‹_›⟩
        | marking id =>
          simp only [Cancellation.step] at hCancel
          split at hCancel
          · obtain ⟨-, hNext⟩ := Prod.mk.inj hCancel
            split at hNext <;> cases hNext
          · cases hCancel
        | unqueueing | finishing | signalling => cases hCancel
    · cases hEq

/-- A change of a run that waits succeeds, and then the run waits no more. -/
theorem Realm.not_queued_of_transition {x : JobRecord} {t : Transition}
    {result : Except StoreError JobRecord} (hFault : cue.fault = none)
    (hx : x ∈ r.store.records) (hQueued : x.state = .queued)
    (hEdge : JobState.canBecome .queued t.target = true)
    (h : r.transition cue x.id .queued t = (result, r')) :
    ∀ y ∈ r'.store.records, y.id = x.id → y.state ≠ .queued := by
  have hDone := Store.transition_of_mem hx (hQueued ▸ hEdge) cue.now
  rw [hQueued] at hDone
  have hTold : r.transition cue x.id .queued t =
      (.ok (t.apply x cue.now),
        { r with store := r.store.modify x.id fun r => t.apply r cue.now }) := by
    simp only [transition, tell, hFault, hDone]
  obtain ⟨_, _, _, _, _, -, hStore⟩ := transition_eq_ok r cue hTold
  rw [h] at hTold
  cases hTold
  intro y hy hId hWaits
  rcases (hStore y).mp hy with rfl | ⟨-, hNe⟩
  · rw [Transition.apply_state] at hWaits
    rw [hWaits] at hEdge
    cases hEdge
  · exact hNe hId

namespace System

/-- The run is in the queue, or a thread carries it. -/
def Covered (s : System δ) (id : JobId) : Prop :=
  id ∈ s.realm.queue.ids ∨ ∃ (i : Nat) (th : Thread δ), s.threads[i]? = some th ∧ th.Carries id

/-- What a cancellation is about to remove from the queue is over, and its id will not be used
again. -/
def Revoked (s : System δ) (ids : List JobId) : Prop :=
  ∀ (i : Nat) record, s.threads[i]? = some (.caller (.canceling (.unqueueing record))) →
    record.id ∈ ids ∧ ∀ x ∈ s.realm.store.records, x.id = record.id → x.isTerminal = true

variable {s u : System δ} {e : Event} {ids : List JobId} {log : List Deed}

theorem covered_of_carries {i : Nat} {th : Thread δ} {id : JobId}
    (hAt : s.threads[i]? = some th) (h : th.Carries id) : s.Covered id :=
  .inr ⟨i, th, hAt, h⟩

-- ---------------------------------------------------------------------------
-- Canceled runs
-- ---------------------------------------------------------------------------

theorem Revoked.step (h : s.Revoked ids) (hOwned : Owned s ids log) (hStep : s.step e = some u)
    (hIds : (ids ++ (s.admissions e).map (·.2.id)).Nodup) :
    u.Revoked (ids ++ (s.admissions e).map (·.2.id)) := by
  intro j record hAt
  by_cases hOld : s.threads[j]? = some (.caller (.canceling (.unqueueing record)))
  · obtain ⟨hId, hOver⟩ := h j record hOld
    exact ⟨List.mem_append_left _ hId, terminal_of_step hStep hIds hId hOver⟩
  · cases e with
    | call call =>
      cases hStep
      rcases threads_of_call hAt with hBefore | ⟨-, hEq⟩
      · exact absurd hBefore hOld
      · cases hEq
    | sweep cutoff =>
      cases hStep
      exact absurd hAt hOld
    | advance i cue =>
      obtain ⟨th, r', th', crew, hThread, hThreadStep, rfl⟩ := step_advance hStep
      rcases threads_of_advance hAt with ⟨-, rfl⟩ | ⟨-, hBefore⟩ | ⟨-, hMem⟩
      · obtain ⟨id, rfl, hTold⟩ := Thread.revoking_of_step hThreadStep
        obtain ⟨x, hx, rfl, -, -, rfl, hStore⟩ := Realm.transition_eq_ok _ _ hTold
        refine ⟨List.mem_append_left _ (hOwned.stored x hx), fun y hy hId => ?_⟩
        rcases (hStore y).mp hy with rfl | ⟨-, hNe⟩
        · rfl
        · exact absurd hId hNe
      · exact absurd hBefore hOld
      · rcases Thread.crew_of_step hThreadStep _ hMem with hEq | hEq <;> cases hEq

-- ---------------------------------------------------------------------------
-- Runs that come to wait
-- ---------------------------------------------------------------------------

/-- Where a run that waits after a step comes from: it was waiting before, or was admitted, or its
attempt was to be repeated. -/
theorem queued_of_move {x' : JobRecord} (hMove : Move s e u) (hx : x' ∈ u.realm.store.records)
    (hQueued : x'.state = .queued) :
    (∃ x ∈ s.realm.store.records, x.id = x'.id ∧ x.state = .queued) ∨
      (∃ a, (a, x') ∈ s.admissions e) ∨
      ∃ i cue record t, e = .advance i cue ∧
        s.threads[i]? = some (.worker (.recording record t)) ∧
        (s.realm.transition cue record.id .running t).1 = .ok x' := by
  cases hMove with
  | quiet hStore _ _ _ =>
    rcases hStore x' hx with ⟨x, hOld, hFollows⟩ | ⟨a, hAdmitted, -⟩
    · exact .inl ⟨x, hOld, hFollows.sameRun.id.symm, hFollows.queued hQueued⟩
    · exact .inr (.inl ⟨a, hAdmitted⟩)
  | claim i cue x token _ _ _ _ _ hStore _ _ =>
    rcases (hStore x').mp hx with rfl | ⟨hOld, -⟩
    · cases hQueued
    · exact .inl ⟨x', hOld, rfl, hQueued⟩
  | goOn i cue w w' record _ _ _ _ _ _ hStore _ =>
    rw [hStore] at hx
    exact .inl ⟨x', hx, rfl, hQueued⟩
  | settle i cue record t w' result hEvent hBefore _ _ hStore _ hDeeds =>
    subst hEvent
    simp only [deeds, hBefore, List.cons.injEq, Deed.settled.injEq, true_and, and_true] at hDeeds
    rcases hStore with ⟨_, -, hSame⟩ | ⟨x, -, -, -, -, hResult, hStore⟩
    · rw [hSame] at hx
      exact .inl ⟨x', hx, rfl, hQueued⟩
    · rcases (hStore x').mp hx with rfl | ⟨hOld, -⟩
      · exact .inr (.inr ⟨i, cue, record, t, rfl, hBefore, hDeeds.trans hResult⟩)
      · exact .inl ⟨x', hOld, rfl, hQueued⟩

/-- Whoever admits a run carries it. -/
theorem covered_of_admitted {a : Admission} {record : JobRecord} (hStep : s.step e = some u)
    (h : (a, record) ∈ s.admissions e) : u.Covered record.id := by
  obtain ⟨i, cue, th, rfl, hAt, hCreating, hNew, hOp⟩ := creating_of_mem_admissions h
  obtain ⟨hFault, -⟩ := op?_advance_eq_some.mp hOp
  obtain ⟨r', th', crew, hThread, rfl⟩ := step_advance_at hAt hStep
  obtain ⟨store, hStore⟩ := Store.create_ok_iff.mpr hNew
  have hCreates : a.step cue s.realm (.creating record) =
      some ({ s.realm with store }, .at (.queueing record)) := by
    simp [Admission.step, Realm.tell, hFault, hStore, Except.map]
  refine covered_of_carries (thread_of_advance_self hAt) ?_
  obtain ⟨-, ⟨next, hGoes, hNext⟩ | ⟨result, hEnds, -⟩⟩ := Thread.admission_step hCreating hThread
  · rw [hCreates] at hGoes
    cases hGoes
    exact .inr ⟨a, record, hNext, rfl⟩
  · rw [hCreates] at hEnds
    cases hEnds

/-- Whoever has an attempt repeated carries the run. -/
theorem covered_of_put_back {i : Nat} {cue : Cue} {record x' : JobRecord} {t : Transition}
    (hStep : s.step (.advance i cue) = some u)
    (hAt : s.threads[i]? = some (.worker (.recording record t)))
    (hOk : (s.realm.transition cue record.id .running t).1 = .ok x')
    (hQueued : x'.state = .queued) : u.Covered x'.id := by
  obtain ⟨r', th', crew, hThread, rfl⟩ := step_advance_at hAt hStep
  obtain ⟨w', hWorker, rfl, -⟩ := Thread.step_worker hThread
  refine covered_of_carries (thread_of_advance_self hAt) (Thread.carries_of_worker ?_)
  simp only [Worker.step] at hWorker
  split at hWorker
  · next updated r₁ hTold =>
    rw [hTold] at hOk
    cases hOk
    cases hWorker
    rw [if_pos hQueued]
    split <;> rfl
  · next hTold =>
    rw [hTold] at hOk
    cases hOk

-- ---------------------------------------------------------------------------
-- Runs that go on waiting
-- ---------------------------------------------------------------------------

/-- Whoever carries a run that goes on waiting carries it on, or queues it. -/
theorem covered_of_carrier {i : Nat} {cue : Cue} {th : Thread δ} {x x' : JobRecord}
    (hAt : s.threads[i]? = some th) (h : th.Carries x.id)
    (hClosed : s.realm.queue.closed = false) (hOpen : s.realm.stopping = false)
    (hFault : cue.fault = none) (hStep : s.step (.advance i cue) = some u)
    (hx : x ∈ s.realm.store.records) (hQueued : x.state = .queued)
    (hx' : x' ∈ u.realm.store.records) (hId : x'.id = x.id) (hWaits : x'.state = .queued) :
    u.Covered x.id := by
  obtain ⟨r', th', crew, hThread, rfl⟩ := step_advance_at hAt hStep
  have hSelf : (s.threads.set i th' ++ crew)[i]? = some th' := thread_of_advance_self hAt
  have hPushed : ∀ notBefore, r'.queue = s.realm.queue.push x.id notBefore →
      x.id ∈ r'.queue.ids := by
    intro notBefore hQueue
    rw [hQueue, Queue.ids_push_of_open hClosed]
    exact List.mem_append_right _ (List.mem_singleton.mpr rfl)
  rcases h with ⟨w, rfl, hCarried⟩ | ⟨a, record, hAdmission, hSame⟩
  · obtain ⟨w', hWorker, rfl, -⟩ := Thread.step_worker hThread
    cases w with
    | taken id =>
      cases hCarried
      rw [Worker.step, hOpen, if_neg Bool.false_ne_true] at hWorker
      cases hWorker
      exact covered_of_carries hSelf (Thread.carries_of_worker rfl)
    | entering id =>
      cases hCarried
      cases hWorker
      exact covered_of_carries hSelf (Thread.carries_of_worker rfl)
    | claiming id token =>
      cases hCarried
      simp only [Worker.step] at hWorker
      split at hWorker <;> next hTold =>
        cases hWorker
        exact absurd hWaits (Realm.not_queued_of_transition hFault hx hQueued rfl hTold x' hx' hId)
    | withdrawing record =>
      have hSame : record.id = x.id := Option.some.inj hCarried
      simp only [Worker.step, hSame] at hWorker
      split at hWorker <;> next hTold =>
        cases hWorker
        exact absurd hWaits (Realm.not_queued_of_transition hFault hx hQueued rfl hTold x' hx' hId)
    | requeueing record =>
      have hSame : record.id = x.id := Option.some.inj hCarried
      cases hWorker
      exact .inl (hPushed _ (by rw [← hSame]))
    | idle | claimed | executing | judging | recording | finishing | leaving | retired =>
      cases hCarried
  · obtain ⟨-, ⟨next, hGoes, -⟩ | ⟨result, hEnds, -⟩⟩ := Thread.admission_step hAdmission hThread
    · cases hGoes
      exact .inl (hPushed none (by rw [← hSame]))
    · cases hEnds

/-- A run that goes on waiting stays covered, as long as the realm is open. -/
theorem Covered.step {x x' : JobRecord} (h : s.Covered x.id) (hRevoked : s.Revoked ids)
    (hClosed : s.realm.queue.closed = false) (hOpen : s.realm.stopping = false)
    (hCalm : e.Untroubled) (hStep : s.step e = some u)
    (hx : x ∈ s.realm.store.records) (hQueued : x.state = .queued)
    (hx' : x' ∈ u.realm.store.records) (hId : x'.id = x.id) (hWaits : x'.state = .queued) :
    u.Covered x.id := by
  rcases h with hIn | ⟨i, th, hAt, hCarries⟩
  · cases e with
    | call call =>
      cases hStep
      exact .inl hIn
    | sweep cutoff =>
      cases hStep
      exact .inl hIn
    | advance i cue =>
      obtain ⟨th, r', th', crew, hAt, hThread, rfl⟩ := step_advance hStep
      rcases (Thread.handling_of_step hThread).mem_ids hIn with
        hStays | rfl | ⟨record, rfl, hSame⟩
      · exact .inl hStays
      · exact covered_of_carries (thread_of_advance_self hAt) (Thread.carries_of_worker rfl)
      · -- what a cancellation removes does not wait
        have hOver := (hRevoked i record hAt).2 x hx hSame.symm
        rw [JobRecord.isTerminal_of_queued hQueued] at hOver
        cases hOver
  · by_cases hOwn : ∃ cue, e = .advance i cue
    · obtain ⟨cue, rfl⟩ := hOwn
      exact covered_of_carrier hAt hCarries hClosed hOpen hCalm hStep hx hQueued hx' hId hWaits
    · exact covered_of_carries
        (thread_of_step_of_ne hStep hAt fun cue hEq => hOwn ⟨cue, hEq⟩) hCarries

variable {settings : RealmSettings} {registry : Registry δ} {store : Store} {events : List Event}

theorem revoked_of_run (hRun : (initial settings registry store).run events = some u)
    (hIds : ((initial settings registry store).runIds events).Nodup) :
    u.Revoked ((initial settings registry store).runIds events) := by
  refine run_induction_of_nodup (motive := fun events u =>
    u.Revoked ((initial settings registry store).runIds events))
    (show (initial settings registry store).run [] = some _ from rfl) hRun hIds ?_ ?_
  · intro i record hAt
    cases hAt
  · intro before t e v hBefore hStep _ hOwned hIds ih
    rw [runIds_concat hBefore]
    exact ih.step hOwned hStep hIds

/-- However the threads of a realm that has not begun to stop interleave, every run that it has
admitted and that waits is in the queue, or some thread carries it: one that has created its record
or put it back and is about to queue it or to cancel it, or one that has taken its id from the queue
and is about to claim it. -/
theorem covered_of_run (hRun : (initial settings registry store).run events = some u)
    (hIds : ((initial settings registry store).runIds events).Nodup)
    (hCalm : ∀ e ∈ events, e.Untroubled) (hOpen : u.realm.stopping = false) :
    ∀ p ∈ (initial settings registry store).trail admissions events,
      ∀ x ∈ u.realm.store.records, x.id = p.2.id → x.state = .queued → u.Covered x.id := by
  refine run_induction_of_nodup (motive := fun events u =>
    (∀ e ∈ events, e.Untroubled) → u.realm.stopping = false →
      ∀ p ∈ (initial settings registry store).trail admissions events,
        ∀ x ∈ u.realm.store.records, x.id = p.2.id → x.state = .queued → u.Covered x.id)
    (show (initial settings registry store).run [] = some _ from rfl) hRun hIds ?_ ?_ hCalm hOpen
  · intro _ _ p hp
    exact absurd hp List.not_mem_nil
  · intro before t e v hBefore hStep _ hOwned hIds ih hCalm hOpen p hp x' hx' hId hWaits
    rw [trail_concat hBefore] at hp
    have hRevoked := revoked_of_run hBefore (List.nodup_append.mp hIds).1
    obtain ⟨hCalm, hCalmLast⟩ := List.forall_mem_append.mp hCalm
    have hOpen' : t.realm.stopping = false := by
      cases hStopping : t.realm.stopping with
      | false => rfl
      | true => exact absurd ((stopping_of_step hStep hStopping).symm.trans hOpen) nofun
    have hClosed : t.realm.queue.closed = false := by
      cases hClosed : t.realm.queue.closed with
      | false => rfl
      | true => exact absurd ((stopping_of_closed hBefore hClosed).symm.trans hOpen') nofun
    rcases queued_of_move (move_of_step (made_of_run hBefore) hStep) hx' hWaits with
      ⟨x, hx, hSame, hQueued⟩ | ⟨a, hAdmitted⟩ | ⟨i, cue, record, t', rfl, hAt, hOk⟩
    · rw [← hSame]
      refine Covered.step ?_ hRevoked hClosed hOpen'
        (hCalmLast e (List.mem_singleton.mpr rfl)) hStep hx hQueued hx' hSame.symm hWaits
      rcases List.mem_append.mp hp with hOld | hNew
      · exact ih hCalm hOpen' p hOld x hx (hSame.trans hId) hQueued
      · -- what is admitted now has another id than what was stored before
        refine absurd rfl ((List.nodup_append.mp hIds).2.2 _ (hOwned.stored x hx) _ ?_)
        rw [hSame, hId]
        exact List.mem_map_of_mem hNew
    · exact covered_of_admitted hStep hAdmitted
    · exact covered_of_put_back hStep hAt hOk hWaits

/-- The first attempt of a run has failed, and the worker has put the run back but has not queued it
yet. -/
theorem covered_of_run_queuedTwice :
    ∃ u : System Unit,
      (initial { workers := 2 } ⟨Dict.empty.insert "job" ()⟩ Store.empty).run
          (queuedTwice.take 26) = some u ∧
        u.realm.queue.ids = [] ∧
          ∃ x ∈ u.realm.store.records, x.state = .queued ∧ u.Covered x.id := by
  have hEnd : ((initial { workers := 2 } ⟨Dict.empty.insert "job" ()⟩ Store.empty).run
      (queuedTwice.take 26)).map (fun u => (u.realm.queue.ids, u.realm.stopping,
        u.realm.store.records.map fun x => (x.id, x.state))) =
      some ([], false, [(⟨⟨3⟩⟩, .queued)]) := by
    decide +kernel
  have hAdmitted : ((initial { workers := 2 } ⟨Dict.empty.insert "job" ()⟩ Store.empty).trail
      admissions (queuedTwice.take 26)).map (·.2.id) = [⟨⟨3⟩⟩] := by
    decide +kernel
  have hIds : ((initial { workers := 2 } ⟨Dict.empty.insert "job" ()⟩ Store.empty).runIds
      (queuedTwice.take 26)).Nodup := by
    decide +kernel
  have hCalm : ∀ e ∈ queuedTwice.take 26, e.Untroubled := by
    simp [queuedTwice, Event.Untroubled]
  obtain ⟨u, hRun, hState⟩ := Option.map_eq_some_iff.mp hEnd
  obtain ⟨hQueue, hRest⟩ := Prod.mk.inj hState
  obtain ⟨hOpen, hRecords⟩ := Prod.mk.inj hRest
  obtain ⟨x, hx, hPair⟩ := List.mem_map.mp (hRecords ▸ List.mem_singleton.mpr rfl)
  obtain ⟨hId, hQueued⟩ := Prod.mk.inj hPair
  obtain ⟨p, hp, hSame⟩ := List.mem_map.mp (hAdmitted ▸ List.mem_singleton.mpr rfl)
  exact ⟨u, hRun, hQueue, x, hx, hQueued,
    covered_of_run hRun hIds hCalm hOpen p hp x hx (hId.trans hSame.symm) hQueued⟩

end System

end BackgroundJobs
