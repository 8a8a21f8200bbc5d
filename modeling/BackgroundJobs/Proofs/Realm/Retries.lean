import BackgroundJobs.Proofs.Realm.Endings
import BackgroundJobs.Proofs.Realm.Scripts

/-!
# Proofs — counting attempts and repetitions

An attempt that is to be repeated is put back by one step of its worker, and
counted by the next one. In between the worker has the count in hand, so the
counted repetitions and those in hand are the attempts that were put back.
For a run that follows a script they can be read off its record: the definition
was called once for every attempt, and every attempt that has ended, but for the
one that ends the run, was put back.

Main results:

* `System.retries`, `System.putBack` — the observers of counted repetitions and
  of attempts that are put back.
* `retried_of_run`   — the counter is the number of the counted repetitions.
* `repeating_of_run` — the balance, after every run.
* `tally_of_run`   — calls and repetitions of a run that follows a script.
-/

namespace BackgroundJobs

variable {δ : Type} {cue : Cue} {r r' : Realm δ} {id : JobId} {script : Nat → Outcome}

-- ---------------------------------------------------------------------------
-- Counted repetitions
-- ---------------------------------------------------------------------------

/-- The run whose repetition the next step of a thread counts. -/
def Thread.repeating : Thread δ → List JobId
  | .worker (.requeueing record) => [record.id]
  | _ => []

/-- Only a worker that queues a run again counts its repetition. -/
theorem Thread.requeueing_of_touched {th : Thread δ} (h : Part.retries ∈ th.touched) :
    ∃ record, th = .worker (.requeueing record) := by
  cases th with
  | worker w =>
    rcases Worker.mem_touched h with
      ⟨hPart, -⟩ | ⟨hPart, -⟩ | ⟨hPart | hPart, -⟩ | ⟨-, record, rfl⟩
    · cases hPart
    · cases hPart
    · cases hPart
    · cases hPart
    · exact ⟨record, rfl⟩
  | caller point =>
    rcases CallPoint.mem_touched h with hPart | ⟨hPart, -⟩ | ⟨hPart, -⟩ | ⟨hPart, -⟩ <;> cases hPart
  | timer t => obtain ⟨hPart | hPart, -⟩ := Timer.mem_touched h <;> cases hPart
  | answered answer => cases h

namespace System

variable {s t u : System δ} {e : Event} {events : List Event}

/-- The runs whose repetition an event counts: one at most. -/
def retries (s : System δ) : Event → List JobId
  | .advance i _ => (s.threads[i]?.map (·.repeating)).getD []
  | _ => []

/-- The runs that an event puts back for another attempt: one at most. -/
def putBack (s : System δ) : Event → List JobId
  | .advance i cue =>
    match s.threads[i]? with
    | some (.worker (.recording record t)) =>
      match (s.realm.transition cue record.id .running t).1 with
      | .ok updated =>
        if updated.state = .queued ∧ updated.cancelRequested = false then [updated.id] else []
      | .error _ => []
    | _ => []
  | _ => []

theorem retried_of_step (hStep : s.step e = some u) :
    u.realm.counters.retried = s.realm.counters.retried + (s.retries e).length := by
  cases e with
  | call call =>
    cases hStep
    rfl
  | sweep cutoff =>
    cases hStep
    rfl
  | advance i cue =>
    obtain ⟨th, r', th', crew, hAt, hThread, rfl⟩ := step_advance hStep
    simp only [retries, hAt, Option.map_some, Option.getD_some]
    by_cases hTouched : Part.retries ∈ th.touched
    · obtain ⟨record, rfl⟩ := Thread.requeueing_of_touched hTouched
      cases hThread
      rfl
    · have hNone : th.repeating = [] := by
        unfold Thread.repeating
        split
        · exact absurd (by simp [Thread.touched, Worker.touched]) hTouched
        · rfl
      rw [hNone]
      exact (Thread.effect hThread).retries hTouched

variable {settings : RealmSettings} {registry : Registry δ} {store : Store}

/-- The counter of repetitions is the number of those that were counted. -/
theorem retried_of_run (hRun : (initial settings registry store).run events = some u) :
    u.realm.counters.retried = ((initial settings registry store).trail retries events).length := by
  refine run_induction (motive := fun events u => u.realm.counters.retried =
    ((initial settings registry store).trail retries events).length) hRun rfl ?_
  intro before t e v hBefore hStep ih
  rw [trail_concat hBefore, List.length_append, ← ih]
  exact retried_of_step hStep

-- ---------------------------------------------------------------------------
-- Attempts that are put back
-- ---------------------------------------------------------------------------

/-- A step counts the repetition that its thread has in hand, or puts back the attempt whose
repetition it has in hand from then on. -/
theorem repeating_of_step {i : Nat} {th th' : Thread δ} {crew : List (Thread δ)}
    (hAt : s.threads[i]? = some th) (hThread : th.step cue s.realm = some (r', th', crew)) :
    s.retries (.advance i cue) ++ th'.repeating = th.repeating ++ s.putBack (.advance i cue) := by
  simp only [retries, putBack, hAt, Option.map_some, Option.getD_some, List.append_cancel_left_eq]
  by_cases hWorker : ∃ w, th = .worker w
  · obtain ⟨w, rfl⟩ := hWorker
    obtain ⟨w', hStep, rfl, -⟩ := Thread.step_worker hThread
    cases w with
    | recording record t =>
      simp only [Worker.step] at hStep
      split at hStep
      · next updated r₁ hTold =>
        cases hStep
        simp only [hTold]
        by_cases hAgain : updated.state = .queued ∧ updated.cancelRequested = false
        · simp [hAgain, Thread.repeating]
        · rw [if_neg hAgain]
          cases hMark : updated.cancelRequested with
          | true => split <;> rfl
          | false =>
            rw [if_neg fun hQueued => hAgain ⟨hQueued, hMark⟩]
            rfl
      · next hTold =>
        cases hStep
        simp only [hTold]
        rfl
    | idle | taken | entering | claiming | claimed | executing | judging | withdrawing | requeueing
    | finishing | leaving | retired =>
      cases Worker.goes_of_step hStep <;> rfl
  · have hNone : th'.repeating = [] := by
      unfold Thread.repeating
      split
      · obtain ⟨w, rfl, -⟩ := Thread.worker_of_step hThread
        exact absurd ⟨w, rfl⟩ hWorker
      · rfl
    rw [hNone]
    split
    · next hEq => exact absurd ⟨_, Option.some.inj hEq⟩ hWorker
    · rfl

/-- The attempts that were put back are those whose repetition was counted, and those of which a
worker is about to count it. -/
theorem repeating_of_run (hRun : (initial settings registry store).run events = some u) :
    ((initial settings registry store).trail retries events ++ u.gather (·.repeating)).Perm
      ((initial settings registry store).trail putBack events) := by
  refine run_induction (motive := fun events u =>
    ((initial settings registry store).trail retries events ++ u.gather (·.repeating)).Perm
      ((initial settings registry store).trail putBack events)) hRun .nil ?_
  intro before t e v hBefore hStep ih
  rw [trail_concat hBefore, trail_concat hBefore]
  cases e with
  | call call =>
    rw [gather_of_call hStep rfl]
    simpa [retries, putBack] using ih
  | sweep cutoff =>
    cases hStep
    simpa [retries, putBack, gather] using ih
  | advance i cue =>
    obtain ⟨th, r', th', crew, hAt, hThread, rfl⟩ := step_advance hStep
    have hCrew : ∀ x ∈ crew, x.repeating = [] := by
      intro x hx
      rcases Thread.crew_of_step hThread x hx with rfl | rfl <;> rfl
    obtain ⟨rest, hBeforehand, hAfter⟩ := gather_of_advance hAt hCrew r' th'
    refine ((List.Perm.append_left _ hAfter).trans ?_).trans
      ((((List.Perm.append_left _ hBeforehand).symm.trans ih)).append_right _)
    -- what the step counts or puts back is that of its own thread
    rw [List.append_assoc, List.append_assoc, ← List.append_assoc (retries t _),
      repeating_of_step hAt hThread, List.append_assoc, List.append_assoc]
    exact List.Perm.append_left _ (List.Perm.append_left _ List.perm_append_comm)

/-- What is put back is put back by a change of state that succeeds. -/
theorem change_of_mem_putBack (h : id ∈ s.putBack e) :
    ∃ i cue record t updated r', e = .advance i cue ∧
      s.threads[i]? = some (.worker (.recording record t)) ∧
      s.realm.transition cue record.id .running t = (.ok updated, r') ∧
      updated.state = .queued ∧ updated.id = id := by
  cases e with
  | call call => cases h
  | sweep cutoff => cases h
  | advance i cue =>
    simp only [putBack] at h
    split at h
    · next record t hAt =>
      cases hTold : s.realm.transition cue record.id .running t with
      | mk result r' =>
        rw [hTold] at h
        cases result with
        | error e => cases h
        | ok updated =>
          dsimp only at h
          split at h
          · next hQueued =>
            exact ⟨i, cue, record, t, updated, r', rfl, hAt, hTold, hQueued.1,
              (List.mem_singleton.mp h).symm⟩
          · cases h
    · cases h

/-- What is put back goes on before the step. -/
theorem running_of_mem_putBack (h : id ∈ s.putBack e) :
    ∃ x ∈ s.realm.store.records, x.id = id ∧ x.state = .running := by
  obtain ⟨_, _, _, _, _, _, -, -, hTold, -, rfl⟩ := change_of_mem_putBack h
  obtain ⟨x, hx, hSame, hRunning, -, rfl, -⟩ := Realm.transition_eq_ok _ _ hTold
  exact ⟨x, hx, rfl, hRunning⟩

/-- What is put back waits after the step. -/
theorem queued_of_mem_putBack (hStep : s.step e = some u) (h : id ∈ s.putBack e) :
    ∀ y ∈ u.realm.store.records, y.id = id → y.state = .queued := by
  obtain ⟨i, cue, record, t, updated, r', rfl, hAt, hTold, hQueued, rfl⟩ :=
    change_of_mem_putBack h
  obtain ⟨r₁, th', crew, hThread, rfl⟩ := step_advance_at hAt hStep
  obtain ⟨w', hWorker, -, -⟩ := Thread.step_worker hThread
  simp only [Worker.step, hTold] at hWorker
  cases hWorker
  obtain ⟨x, -, hSame, -, -, rfl, hStore⟩ := Realm.transition_eq_ok _ _ hTold
  intro y hy hId
  rcases (hStore y).mp hy with rfl | ⟨-, hNe⟩
  · exact hQueued
  · exact absurd (hId.trans hSame) hNe

/-- An undisturbed attempt that leads back to the queue is put back. -/
theorem putBack_of_settled {i : Nat} {record x : JobRecord} {t : Transition}
    (hAt : s.threads[i]? = some (.worker (.recording record t))) (hCalm : cue.fault = none)
    (hx : x ∈ s.realm.store.records) (hSame : x.id = record.id) (hRunning : x.state = .running)
    (hEnds : t.target ≠ .running) (hUnmarked : x.cancelRequested = false) :
    s.putBack (.advance i cue) = if t.target = .queued then [x.id] else [] := by
  have hEdge : x.state.canBecome t.target = true :=
    JobState.canBecome_iff.mpr (.inr ⟨hRunning, hEnds⟩)
  have hDone := Store.transition_of_mem hx hEdge cue.now
  rw [hSame, hRunning] at hDone
  have hOk : (s.realm.transition cue record.id .running t).1 = .ok (t.apply x cue.now) := by
    simp only [Realm.transition, Realm.tell, hCalm, hDone]
  simp only [putBack, hAt, hOk, Transition.apply_state]
  have hMark : (t.apply x cue.now).cancelRequested = false := hUnmarked
  simp only [hMark, and_true, Transition.apply_id]

-- ---------------------------------------------------------------------------
-- Calls and repetitions of one run
-- ---------------------------------------------------------------------------

variable {start : Store} {ids back : List JobId} {log : List Deed} {x : JobRecord}

/-- Nobody calls the definition of a run or puts the run back while it does not go on. -/
theorem still_of_not_running (hAttended : s.Attended) (hGoesOn : s.realm.stopping = false)
    (hStep : s.step e = some u)
    (hNot : ∀ x ∈ s.realm.store.records, x.id = id → x.state ≠ .running) :
    u.calls id = s.calls id ∧ id ∉ s.putBack e := by
  refine ⟨?_, fun hBack => ?_⟩
  · rcases calls_of_step hStep id with hSame | ⟨i, cue, record, token, -, hAt, rfl⟩
    · exact hSame
    · obtain ⟨x, hx, hSame, hRunning⟩ := running_of_busy hAttended hGoesOn ⟨hAt, rfl⟩
      exact absurd hRunning (hNot x hx hSame)
  · obtain ⟨x, hx, hId, hRunning⟩ := running_of_mem_putBack hBack
    exact hNot x hx hId hRunning

/-- The definition was called for every attempt of the record, and every attempt was put back, but
for the one that goes on or has ended the run. -/
structure Tallied (s : System δ) (back : List JobId) (x : JobRecord) : Prop where
  called : x.state ≠ .running → s.calls x.id = x.attempts
  repeated : back.count x.id = if x.state = .queued then x.attempts else x.attempts - 1

theorem Tallied.still (h : s.Tallied back x)
    (hStill : u.calls x.id = s.calls x.id ∧ x.id ∉ s.putBack e) :
    u.Tallied (back ++ s.putBack e) x where
  called hNot := hStill.1.trans (h.called hNot)
  repeated := by
    rw [List.count_append, List.count_eq_zero.mpr hStill.2, Nat.add_zero]
    exact h.repeated

/-- The tally of the stored record is kept by every step, as long as nobody disturbs the run. -/
theorem Scripted.tally_of_step (h : s.Scripted id script) (hStep : s.step e = some u)
    (hOwned : Owned s ids log) (hAttended : s.Attended) (hUndisturbed : s.Undisturbed id)
    (hFormed : ∀ {i : Nat} {th}, s.threads[i]? = some th → th.Formed) (hGoverned : Governed s)
    (hWorked : ∀ x ∈ s.realm.store.records, x.id = id → x.state = .running →
      ∃ i w record, s.Busy i w record ∧ record.id = id)
    (hAccounted : Accounted start s ids) (hIds : (ids ++ (s.admissions e).map (·.2.id)).Nodup)
    (hCalm : e.Untroubled) (hBack : ∀ other ∈ back, other ∈ ids)
    (hTallied : ∀ x ∈ s.realm.store.records, x.id = id → s.Tallied back x) :
    ∀ x ∈ u.realm.store.records, x.id = id → u.Tallied (back ++ s.putBack e) x := by
  intro x' hx' hId
  cases dealing_of_step hUndisturbed hGoverned hWorked hStep hx' hId with
  | kept hOld =>
    by_cases hRunning : x'.state = .running
    · have hNot : x'.id ∉ s.putBack e := fun hMem => by
        have hQueued := queued_of_mem_putBack hStep hMem x' hx' rfl
        rw [hRunning] at hQueued
        cases hQueued
      refine ⟨fun hNot => absurd hRunning hNot, ?_⟩
      rw [List.count_append, List.count_eq_zero.mpr hNot]
      exact (hTallied x' hOld hId).repeated
    · refine (hTallied x' hOld hId).still
        (still_of_not_running hAttended hUndisturbed.goesOn hStep fun x hx hSame => ?_)
      rw [Store.eq_of_mem_of_id_eq hx hOld hSame]
      exact hRunning
  | admitted a hAdmits =>
    have hNew : x'.id ∉ ids := fun hOld => (List.nodup_append.mp hIds).2.2 x'.id hOld x'.id
      (List.mem_map_of_mem hAdmits) rfl
    obtain ⟨i, cue, th, -, hAt, hCreating, -⟩ := creating_of_mem_admissions hAdmits
    obtain ⟨_, _, hMade⟩ := hFormed hAt a _ x' hCreating rfl
    have hBefore : s.Tallied back x' := by
      refine ⟨fun _ => ?_, ?_⟩
      · rw [(hAccounted.unused x'.id hNew).2, hMade]
        rfl
      · rw [List.count_eq_zero.mpr fun hOld => hNew (hBack _ hOld), hMade]
        rfl
    exact hBefore.still (still_of_not_running hAttended hUndisturbed.goesOn hStep
      fun x hx hSame => absurd (hSame ▸ hOwned.stored x hx) hNew)
  | claimed i cue x token hEvent hBefore hx hQueued hChange =>
    subst hEvent hChange
    have hNone : s.putBack (.advance i cue) = [] := by simp only [putBack, hBefore]
    have hOld := (hTallied x hx hId).repeated
    rw [if_pos hQueued] at hOld
    refine ⟨fun hNot => absurd rfl hNot, ?_⟩
    rw [hNone, List.append_nil]
    exact hOld
  | settled i cue record x t hEvent hBefore hx hSame hRunning hEnds hChange =>
    subst hEvent hChange
    have hRecord : record.id = id := hSame.symm.trans hId
    have hObeys := h.records x hx hId
    have hFollows := hOwned.follows ⟨hBefore, rfl⟩ x hx hSame
    have hAttempts : (t.apply x cue.now).attempts = x.attempts := by
      simp only [Transition.apply, if_neg hEnds]
    have hCalls : u.calls x.id = s.calls x.id := by
      rcases calls_of_step hStep x.id with hSame | ⟨_, _, _, _, hEvent, hAt, -⟩
      · exact hSame
      · cases hEvent
        rw [hBefore] at hAt
        cases hAt
    refine ⟨fun _ => ?_, ?_⟩
    · rw [Transition.apply_id, hCalls, hAttempts, hFollows.attempts, h.called hBefore hRecord,
        hSame, hRecord]
    · have hOld := (hTallied x hx hId).repeated
      have hBegun : 1 ≤ x.attempts := hObeys.begun (by rw [hRunning]; decide)
      rw [hRunning, if_neg (by decide)] at hOld
      rw [Transition.apply_id, hAttempts, List.count_append, hOld, Transition.apply_state,
        putBack_of_settled hBefore hCalm hx hSame hRunning hEnds hObeys.unmarked]
      split
      · rw [List.count_singleton_self]
        omega
      · rw [List.count_nil, Nat.add_zero]
  | withdrawn i record hBefore hSame => exact absurd (hSame.trans hId) (h.withdrawing hBefore)

/-- What was put back is one of the runs that the realm has to do with. -/
theorem putBack_subset_runIds (hRun : (initial settings registry store).run events = some u)
    (hIds : ((initial settings registry store).runIds events).Nodup) :
    ∀ other ∈ (initial settings registry store).trail putBack events,
      other ∈ (initial settings registry store).runIds events := by
  refine run_induction_of_nodup (motive := fun events _ =>
    ∀ other ∈ (initial settings registry store).trail putBack events,
      other ∈ (initial settings registry store).runIds events)
    (show (initial settings registry store).run [] = some _ from rfl) hRun hIds nofun ?_
  intro before t e v hBefore _ _ hOwned _ ih other hMem
  rw [trail_concat hBefore] at hMem
  rw [runIds_concat hBefore]
  rcases List.mem_append.mp hMem with hOld | hNew
  · exact List.mem_append_left _ (ih other hOld)
  · obtain ⟨x, hx, rfl, -⟩ := running_of_mem_putBack hNew
    exact List.mem_append_left _ (hOwned.stored x hx)

/-- While a run that nobody disturbs is stored, and after it has ended, its record tells how often
its definition was called and how often it was put back. -/
theorem tally_of_run (hRun : (initial settings registry store).run events = some u)
    (hIds : ((initial settings registry store).runIds events).Nodup)
    (hCalm : ∀ e ∈ events, e.Untroubled) (hSpares : ∀ e ∈ events, e.Spares id)
    (hNew : id ∉ store.ids)
    (hReturns : ∀ p ∈ (initial settings registry store).trail (returns id) events,
      p.2 = script p.1) :
    (∀ x ∈ u.realm.store.records, x.id = id →
      u.Tallied ((initial settings registry store).trail putBack events) x) ∧
    ∀ y ∈ (initial settings registry store).trail endings events, y.id = id →
      y.Obeys script ∧ u.Tallied ((initial settings registry store).trail putBack events) y := by
  refine run_induction_of_nodup (motive := fun events u =>
    (∀ e ∈ events, e.Untroubled) → (∀ e ∈ events, e.Spares id) →
      (∀ p ∈ (initial settings registry store).trail (returns id) events, p.2 = script p.1) →
        (∀ x ∈ u.realm.store.records, x.id = id →
          u.Tallied ((initial settings registry store).trail putBack events) x) ∧
        ∀ y ∈ (initial settings registry store).trail endings events, y.id = id →
          y.Obeys script ∧ u.Tallied ((initial settings registry store).trail putBack events) y)
    (show (initial settings registry store).run [] = some _ from rfl) hRun hIds ?_ ?_ hCalm hSpares
    hReturns
  · refine fun _ _ _ => ⟨?_, fun y hy => absurd hy List.not_mem_nil⟩
    rintro x hx rfl
    exact absurd (Store.id_mem_ids hx) hNew
  · intro before t e v hBefore hStep _ hOwned hIds ih hCalm hSpares hReturns
    have hIdsAfter : ((initial settings registry store).runIds (before ++ [e])).Nodup := by
      rw [runIds_concat hBefore]
      exact hIds
    obtain ⟨hAfter, -⟩ := scripted_of_run (run_concat_of_run hBefore hStep) hIdsAfter hCalm hSpares
      hNew hReturns
    obtain ⟨hCalm, hCalmLast⟩ := List.forall_mem_append.mp hCalm
    obtain ⟨hSpares, -⟩ := List.forall_mem_append.mp hSpares
    rw [trail_concat hBefore] at hReturns
    obtain ⟨hReturns, -⟩ := List.forall_mem_append.mp hReturns
    obtain ⟨hStored, hEnded⟩ := ih hCalm hSpares hReturns
    have hIds' := (List.nodup_append.mp hIds).1
    have hUndisturbed := undisturbed_of_run hBefore hSpares
    have hAttended := attended_of_run hBefore hIds'
    obtain ⟨hScripted, -⟩ := scripted_of_run hBefore hIds' hCalm hSpares hNew hReturns
    have hTallied := hScripted.tally_of_step hStep hOwned hAttended hUndisturbed
      (made_of_run hBefore) (governed_of_run hBefore)
      (fun x hx hId hRunning => busy_of_running hBefore hCalm hNew hx hId hRunning)
      (accounted_of_run hBefore hIds') hIds (hCalmLast e List.mem_cons_self)
      (putBack_subset_runIds hBefore hIds') hStored
    rw [trail_concat hBefore, trail_concat hBefore]
    refine ⟨hTallied, fun y hy hId => ?_⟩
    rcases List.mem_append.mp hy with hOld | hNow
    · obtain ⟨hObeys, hBeforehand⟩ := hEnded y hOld hId
      obtain ⟨hOver, -, hStays⟩ := (settled_of_run hBefore hIds').ended y hOld
      refine ⟨hObeys, hBeforehand.still
        (still_of_not_running hAttended hUndisturbed.goesOn hStep fun x hx hSame => ?_)⟩
      rw [hStays x hx hSame]
      exact (JobState.isTerminal_iff.mp hOver).2
    · rw [endings_of_step hStep] at hNow
      have hMem := (Store.mem_endedBy.mp hNow).1
      exact ⟨hAfter.records y hMem hId, hTallied y hMem hId⟩

end System

end BackgroundJobs
