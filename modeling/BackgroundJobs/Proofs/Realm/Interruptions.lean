import BackgroundJobs.Proofs.Realm.Attempts
import BackgroundJobs.Proofs.Realm.Lifecycle

/-!
# Proofs — interruptions

The run of a worker that is in an attempt goes on: nobody else changes its
state, but for a shutdown, which interrupts it. So when the outcome of an
attempt is not recorded, the store was in trouble or the realm is stopping.
Conversely, as long as the store is in no trouble, no run goes on that has lost
its worker.

Main results:

* `attended_of_run`       — a run with a worker in an attempt goes on, or was
  interrupted by a realm that stops.
* `outcome_of_attended`   — what comes of recording an outcome.
* `tended_of_run`         — a claimed run that goes on has a worker in an attempt.
-/

namespace BackgroundJobs

variable {δ : Type}

/-- The change of a running record is asked for by the worker that records its outcome, by a start
that takes up runs, or by a shutdown. -/
theorem Thread.op?_eq_transition_running {cue : Cue} {r : Realm δ} {th : Thread δ} {id : JobId}
    {t : Transition} (h : th.op? cue r = some (.transition id .running t)) :
    (∃ record, th = .worker (.recording record t) ∧ record.id = id) ∨
      (∃ rest, th = .caller (.starting (.recovering rest))) ∨
      ∃ stuck report, th = .caller (.stopping (.interrupting id stuck report)) ∧
        t = .interrupt := by
  have hPoint : ∀ {point : AdmissionPoint}, point.op? ≠ some (.transition id .running t) := by
    intro point hOp
    cases point <;> cases hOp
  cases th with
  | answered answer => cases h
  | timer timer => cases timer <;> first | exact absurd h hPoint | cases h
  | worker w =>
    cases w <;> cases h
    exact .inl ⟨_, rfl, rfl⟩
  | caller callPoint =>
    cases callPoint with
    | made call =>
      cases call with
      | purge =>
        obtain ⟨cutoff, -, hEq⟩ := Option.map_eq_some_iff.mp h
        cases hEq
      | _ => cases h
    | admitting a point => exact absurd h hPoint
    | starting point =>
      cases point with
      | recovering rest => exact .inr (.inl ⟨rest, rfl⟩)
      | _ => cases h
    | stopping point =>
      cases point <;> cases h
      exact .inr (.inr ⟨_, _, rfl, rfl⟩)
    | canceling point => cases point <;> cases h
    | scheduling point => cases h
    | declaring point => cases h

namespace System

variable {s u : System δ} {e : Event} {ids : List JobId} {log : List Deed} {id : JobId}

/-- The run goes on, or was interrupted by a realm that stops. -/
def GoesOn (s : System δ) (id : JobId) : Prop :=
  (∃ x ∈ s.realm.store.records, x.id = id ∧ x.state = .running) ∨
    (s.realm.stopping = true ∧ ∀ x ∈ s.realm.store.records, x.id = id → x.state = .interrupted)

theorem GoesOn.of_same (h : s.GoesOn id) (hStep : s.step e = some u)
    (hSame : ∀ x : JobRecord, x.id = id →
      (x ∈ u.realm.store.records ↔ x ∈ s.realm.store.records)) : u.GoesOn id := by
  rcases h with ⟨x, hx, hId, hRunning⟩ | ⟨hStopping, hAll⟩
  · exact .inl ⟨x, (hSame x hId).mpr hx, hId, hRunning⟩
  · refine .inr ⟨stopping_of_step hStep hStopping, fun x hx hId => ?_⟩
    exact hAll x ((hSame x hId).mp hx) hId

/-- The change of a record concerns no other run. -/
theorem GoesOn.of_change {after : JobRecord} (h : s.GoesOn id) (hStep : s.step e = some u)
    (hStore : ∀ y, y ∈ u.realm.store.records ↔
      y = after ∨ (y ∈ s.realm.store.records ∧ y.id ≠ after.id))
    (hNe : id ≠ after.id) : u.GoesOn id := by
  refine h.of_same hStep fun y hId => ?_
  rw [hStore y]
  constructor
  · rintro (rfl | ⟨hOld, -⟩)
    · exact absurd hId.symm hNe
    · exact hOld
  · exact fun hOld => .inr ⟨hOld, hId ▸ hNe⟩

/-- Every run with a worker in an attempt goes on, or was interrupted by a realm that stops. -/
def Attended (s : System δ) : Prop :=
  ∀ i w record, s.Busy i w record → s.GoesOn record.id

/-- A quiet step ends no run that has a worker, unless it is the step of a shutdown. -/
theorem GoesOn.quiet {i : Nat} {w : Worker δ} {record : JobRecord} (h : s.GoesOn record.id)
    (hGoverned : Governed s) (hOwned : Owned s ids log) (hBusy : s.Busy i w record)
    (hStep : s.step e = some u) (hIds : (ids ++ (s.admissions e).map (·.2.id)).Nodup)
    (hStore : ∀ x' ∈ u.realm.store.records, (∃ x ∈ s.realm.store.records, x.Follows x') ∨
      ∃ a, (a, x') ∈ s.admissions e ∧ a.Made x')
    (hDeeds : s.deeds e = []) : u.GoesOn record.id := by
  rcases h with ⟨x, hx, hId, hRunning⟩ | ⟨hStopping, hAll⟩
  · unfold GoesOn
    rw [store_of_step hStep]
    cases hOp : s.op? e with
    | none => exact .inl ⟨x, hx, hId, hRunning⟩
    | some asked =>
      obtain ⟨op, now⟩ := asked
      rcases Store.running_of_perform hx hRunning now op with
        ⟨x', hx', hSame, hRunning'⟩ | ⟨t, rfl, hOnly⟩
      · exact .inl ⟨x', hx', hSame.trans hId, hRunning'⟩
      · cases e with
        | call call => cases hOp
        | sweep cutoff => cases hOp
        | advance k cue =>
          obtain ⟨-, -, th, hAt, hAsks⟩ := op?_advance_eq_some.mp hOp
          rcases Thread.op?_eq_transition_running hAsks with
            ⟨other, rfl, -⟩ | ⟨rest, rfl⟩ | ⟨stuck, report, rfl, rfl⟩
          · -- an outcome that is recorded is a deed
            simp only [deeds, hAt] at hDeeds
            cases hDeeds
          · exact absurd (hGoverned.starting hAt rfl) (hGoverned.working hBusy.1)
          · refine .inr ⟨stopping_of_step hStep (hGoverned.stopping hAt rfl), fun y hy hyId => ?_⟩
            rw [hOnly y hy (hyId.trans hId.symm)]
            rfl
  · refine .inr ⟨stopping_of_step hStep hStopping, fun x' hx' hId => ?_⟩
    have hOld := (hOwned.begun hBusy).2.2
    rw [← hId] at hOld
    obtain ⟨x, hx, hSame, hFollows⟩ := Owned.follows_of_quiet hStore hIds hx' hOld
    have hOver := hAll x hx (hSame.trans hId)
    rw [hFollows.terminal (by rw [JobRecord.isActive, hOver]; rfl)]
    exact hOver

theorem Attended.step (h : s.Attended) (hGoverned : Governed s) (hOwned : Owned s ids log)
    (hMove : Move s e u) (hStep : s.step e = some u)
    (hIds : (ids ++ (s.admissions e).map (·.2.id)).Nodup) : u.Attended := by
  intro j v b hBusy'
  cases hMove with
  | quiet hStore hWorkers _ hDeeds =>
    have hBusy : s.Busy j v b := Owned.busy_of_quiet hWorkers hBusy'
    exact (h j v b hBusy).quiet hGoverned hOwned hBusy hStep hIds hStore hDeeds
  | claim i cue x token _ _ hThreads hStored hQueued hStore _ _ =>
    rcases busy_of_set_of_some hThreads rfl hBusy' with ⟨-, -, rfl⟩ | ⟨-, hBusy⟩
    · exact .inl ⟨_, (hStore _).mpr (.inl rfl), rfl, rfl⟩
    · have hNe : b.id ≠ x.id := hOwned.id_ne_of_queued hBusy hStored hQueued
      exact (h j v b hBusy).of_change hStep hStore hNe
  | goOn i cue w w' record _ hBefore hThreads hAttempt hAttempt' _ hStore _ =>
    have hSame : s.GoesOn b.id := by
      rcases busy_of_set_of_some hThreads hAttempt' hBusy' with ⟨-, -, rfl⟩ | ⟨-, hBusy⟩
      · exact h i w b ⟨hBefore, hAttempt⟩
      · exact h j v b hBusy
    exact hSame.of_same hStep fun y _ => by rw [hStore]
  | settle i cue record t w' result _ hBefore hThreads hNone hStore _ _ =>
    obtain ⟨hji, hBusy⟩ := busy_of_set_of_none hThreads hNone hBusy'
    have hNe : b.id ≠ record.id := fun hId => hji (hOwned.alone hBusy ⟨hBefore, rfl⟩ hId)
    rcases hStore with ⟨_, -, hSame⟩ | ⟨x, -, hxId, -, -, -, hStore⟩
    · exact (h j v b hBusy).of_same hStep fun y _ => by rw [hSame]
    · rw [← hxId] at hNe hStore
      exact (h j v b hBusy).of_change hStep hStore hNe

theorem attended_of_run {r : Realm δ} {events : List Event}
    (hRun : (ofRealm r).run events = some u) (hIds : ((ofRealm r).runIds events).Nodup) :
    u.Attended := by
  refine run_induction (motive := fun events u => ((ofRealm r).runIds events).Nodup → u.Attended)
    hRun ?_ ?_ hIds
  · intro _ i w record hBusy
    cases hBusy.1
  · intro before t e v hBefore hStep ih hIds
    rw [runIds_concat hBefore] at hIds
    have hIds' := (List.nodup_append.mp hIds).1
    have hAttended : t.Attended := ih hIds'
    exact hAttended.step (governed_of_run hBefore) (owned_of_run hBefore hIds')
      (move_of_step (made_of_run hBefore) hStep) hStep hIds

/-- What comes of recording an outcome: it ends the attempt that the worker began; or the store is
in trouble; or the realm is stopping and has interrupted the run, whose record may be gone since. -/
theorem outcome_of_attended (h : s.Attended) (hOwned : Owned s ids log) {i : Nat}
    {record : JobRecord} {t : Transition} (hTarget : t.target ≠ .running)
    (hBusy : s.Busy i (.recording record t) record) (cue : Cue) :
    (∃ after, (s.realm.transition cue record.id .running t).1 = .ok after ∧
        after.state = t.target ∧ after.Concludes record) ∨
      (∃ text, (s.realm.transition cue record.id .running t).1 = .error (.storage text)) ∨
      (s.realm.stopping = true ∧
        ((s.realm.transition cue record.id .running t).1 =
            .error (.stateConflict record.id .running .interrupted) ∨
          (s.realm.transition cue record.id .running t).1 = .error (.notFound record.id))) := by
  have hTold : s.realm.transition cue record.id .running t = s.realm.tell cue fun store =>
    store.transition record.id .running t cue.now := rfl
  cases hFault : cue.fault with
  | some text =>
    refine .inr (.inl ⟨text, ?_⟩)
    rw [hTold, Realm.tell, hFault]
  | none =>
    rcases h i _ record hBusy with ⟨x, hx, hId, hRunning⟩ | ⟨hStopping, hAll⟩
    · have hEdge : x.state.canBecome t.target = true :=
        JobState.canBecome_iff.mpr (.inr ⟨hRunning, hTarget⟩)
      have hDone := Store.transition_of_mem hx hEdge cue.now
      rw [hId, hRunning] at hDone
      refine .inl ⟨t.apply x cue.now, ?_, rfl, ?_⟩
      · simp only [hTold, Realm.tell, hFault, hDone]
      · exact (hOwned.follows hBusy x hx hId).concludes hRunning (hOwned.begun hBusy).2.1 hTarget
          cue.now
    · refine .inr (.inr ⟨hStopping, ?_⟩)
      cases hFind : s.realm.store.find? record.id with
      | none =>
        right
        simp only [hTold, Realm.tell, hFault, Store.transition, hFind]
      | some x =>
        left
        obtain ⟨hx, hId⟩ := Store.find?_eq_some_iff.mp hFind
        have hState := hAll x hx hId
        simp [hTold, Realm.tell, hFault, Store.transition, hFind, hState]

end System

-- ---------------------------------------------------------------------------
-- Claimed runs that go on
-- ---------------------------------------------------------------------------

/-- No outcome has an attempt go on. -/
theorem Worker.verdict_target_ne_running (record : JobRecord) (canceled : Bool)
    (outcome : Outcome) : (verdict record canceled outcome).target ≠ .running := by
  unfold verdict
  split
  · rintro ⟨⟩
  · rintro ⟨⟩
  · split
    · rintro ⟨⟩
    · split <;> rintro ⟨⟩
  · rintro ⟨⟩
  · rintro ⟨⟩

/-- A worker that has an outcome recorded ends its attempt. -/
def Thread.Ends (th : Thread δ) : Prop :=
  ∀ record t, th = .worker (.recording record t) → t.target ≠ .running

theorem Thread.ends_step {cue : Cue} {r r' : Realm δ} {th th' : Thread δ} {crew : List (Thread δ)}
    (h : th.step cue r = some (r', th', crew)) : th'.Ends := by
  rintro record t rfl
  obtain ⟨w, rfl, hWorker, -⟩ := worker_of_step h
  cases Worker.goes_of_step hWorker with
  | misses => rintro ⟨⟩
  | judges => exact Worker.verdict_target_ne_running _ _ _
  | settles made t' w next =>
    rcases next with ⟨updated, hEq | hEq | hEq⟩ | hEq <;> cases hEq

namespace System

variable {s u : System δ} {e : Event} {log : List Deed}

theorem ends_of_run {r : Realm δ} {events : List Event} (hRun : (ofRealm r).run events = some u) :
    ∀ i : Nat, ∀ th, u.threads[i]? = some th → th.Ends := by
  refine forall_threads_of_run (P := fun _ th => th.Ends) ?_ ?_ ?_ ?_ ?_ hRun
  · rintro r call record t ⟨⟩
  · intro cue r th r' th' crew hStep _
    refine ⟨Thread.ends_step hStep, fun x hx => ?_⟩
    rintro record t rfl
    rcases Thread.crew_of_step hStep _ hx with hEq | hEq <;> cases hEq
  · intro cue r th r' th' crew _ other h
    exact h
  · intro r cutoff other h
    exact h
  · intro i th hAt
    cases hAt

/-- A worker stays in its attempt until it has an outcome recorded. -/
theorem busy_or_settles {i : Nat} {w : Worker δ} {record : JobRecord} (hStep : s.step e = some u)
    (hBusy : s.Busy i w record) :
    (∃ w', u.Busy i w' record) ∨ ∃ result, s.deeds e = [.settled i record result] := by
  by_cases hOwn : ∃ cue, e = .advance i cue
  · obtain ⟨cue, rfl⟩ := hOwn
    obtain ⟨r', th', crew, hThread, rfl⟩ := step_advance_at hBusy.1 hStep
    obtain ⟨w', hWorker, rfl, rfl⟩ := Thread.step_worker hThread
    by_cases hRecording : ∃ t, w = .recording record t
    · obtain ⟨t, rfl⟩ := hRecording
      exact .inr ⟨(s.realm.transition cue record.id .running t).1, by simp only [deeds, hBusy.1]⟩
    · have hNot : ∀ t, w ≠ .recording record t := fun t hEq => hRecording ⟨t, hEq⟩
      obtain ⟨hAttempt, -⟩ := Worker.goOn_step hBusy.2 hNot hWorker
      exact .inl ⟨w', thread_of_advance_self hBusy.1, hAttempt⟩
  · exact .inl ⟨w, thread_of_step_of_ne hStep hBusy.1 fun cue hEq => hOwn ⟨cue, hEq⟩, hBusy.2⟩

/-- Every run that a worker has claimed and that goes on has a worker in an attempt. -/
def Tended (s : System δ) (log : List Deed) : Prop :=
  ∀ x ∈ s.realm.store.records, x.state = .running →
    (∃ i record, .claimed i record ∈ log ∧ record.id = x.id) →
      ∃ i w record, s.Busy i w record ∧ record.id = x.id

/-- A store that is in no trouble ends the attempt that a worker wants to end. -/
theorem ended_of_settled {i : Nat} {cue : Cue} {record x : JobRecord} {t : Transition}
    {result : Except StoreError JobRecord}
    (hAt : s.threads[i]? = some (.worker (.recording record t)))
    (hDeeds : s.deeds (.advance i cue) = [.settled i record result]) (hCalm : cue.fault = none)
    (hEnds : t.target ≠ .running) (hx : x ∈ s.realm.store.records) (hId : x.id = record.id)
    (hRunning : x.state = .running) : ∃ after, result = .ok after := by
  have hEdge : x.state.canBecome t.target = true :=
    JobState.canBecome_iff.mpr (.inr ⟨hRunning, hEnds⟩)
  have hDone := Store.transition_of_mem hx hEdge cue.now
  rw [hId, hRunning] at hDone
  simp only [deeds, hAt, Realm.transition, Realm.tell, hCalm, hDone] at hDeeds
  cases hDeeds
  exact ⟨_, rfl⟩

theorem Tended.step (h : s.Tended log) (hMove : Move s e u)
    (hEnds : ∀ i : Nat, ∀ th, s.threads[i]? = some th → th.Ends) (hStep : s.step e = some u)
    (hCalm : e.Untroubled) : u.Tended (log ++ s.deeds e) := by
  intro x' hx' hRunning hClaimed
  -- the worker of a run that went on before stays in its attempt, unless it is settled
  have hStays : ∀ x ∈ s.realm.store.records, x.state = .running → x.id = x'.id →
      (∃ i record, .claimed i record ∈ log ∧ record.id = x'.id) →
        (∀ i record result, s.deeds e = [.settled i record result] → record.id ≠ x'.id) →
          ∃ i w record, u.Busy i w record ∧ record.id = x'.id := by
    intro x hx hState hId hOld hNot
    rw [← hId] at hOld hNot ⊢
    obtain ⟨i, w, record, hBusy, hSame⟩ := h x hx hState hOld
    rcases busy_or_settles hStep hBusy with ⟨w', hBusy'⟩ | ⟨result, hDeeds⟩
    · exact ⟨i, w', record, hBusy', hSame⟩
    · exact absurd hSame (hNot i record result hDeeds)
  cases hMove with
  | quiet hStore _ _ hDeeds =>
    rw [hDeeds, List.append_nil] at hClaimed
    rcases hStore x' hx' with ⟨x, hx, hFollows⟩ | ⟨a, -, hMade⟩
    · have hSame := hFollows.state_eq (JobRecord.isActive_of_running hRunning)
      refine hStays x hx (hSame.symm.trans hRunning) hFollows.sameRun.id.symm hClaimed ?_
      intro i record result hEq
      cases hDeeds.symm.trans hEq
    · obtain ⟨id, now, rfl⟩ := hMade
      cases hRunning
  | claim i cue x token _ hBefore hThreads _ _ hStore _ hDeeds =>
    rcases (hStore x').mp hx' with rfl | ⟨hOld, hNe⟩
    · obtain ⟨hi, -⟩ := List.getElem?_eq_some_iff.mp hBefore
      exact ⟨i, .claimed _ token, _, ⟨by rw [hThreads, List.getElem?_set_self hi], rfl⟩, rfl⟩
    · refine hStays x' hOld hRunning rfl ?_ fun j record result hEq => ?_
      · obtain ⟨j, record, hMem, hId⟩ := hClaimed
        rw [hDeeds] at hMem
        rcases List.mem_append.mp hMem with hLog | hNew
        · exact ⟨j, record, hLog, hId⟩
        · cases List.mem_singleton.mp hNew
          exact absurd hId.symm hNe
      · cases hDeeds.symm.trans hEq
  | goOn i cue w w' record _ _ _ _ _ _ hStore hDeeds =>
    rw [hDeeds, List.append_nil] at hClaimed
    rw [hStore] at hx'
    refine hStays x' hx' hRunning rfl hClaimed fun j other result hEq => ?_
    cases hDeeds.symm.trans hEq
  | settle i cue record t w' result hEvent hBefore _ _ hStore _ hDeeds =>
    subst hEvent
    rw [hDeeds] at hClaimed
    have hOld : ∃ i record, .claimed i record ∈ log ∧ record.id = x'.id := by
      obtain ⟨j, claimed, hMem, hId⟩ := hClaimed
      rcases List.mem_append.mp hMem with hLog | hNew
      · exact ⟨j, claimed, hLog, hId⟩
      · cases List.mem_singleton.mp hNew
    have hOther : record.id ≠ x'.id → ∀ j other result', s.deeds (.advance i cue) =
        [.settled j other result'] → other.id ≠ x'.id := by
      intro hNe j other result' hEq
      rw [hDeeds] at hEq
      cases hEq
      exact hNe
    rcases hStore with ⟨e, rfl, hSame⟩ | ⟨x, -, hxId, -, hTarget, -, hStore⟩
    · rw [hSame] at hx'
      refine hStays x' hx' hRunning rfl hOld (hOther fun hId => ?_)
      obtain ⟨after, hEq⟩ := ended_of_settled hBefore hDeeds hCalm
        (hEnds i _ hBefore record t rfl) hx' hId.symm hRunning
      cases hEq
    · rcases (hStore x').mp hx' with rfl | ⟨hBeforehand, hNe⟩
      · exact absurd hRunning hTarget
      · exact hStays x' hBeforehand hRunning rfl hOld (hOther (Ne.symm hNe))

theorem tended_of_run {r : Realm δ} {events : List Event} (hRun : (ofRealm r).run events = some u)
    (hCalm : ∀ e ∈ events, e.Untroubled) : u.Tended ((ofRealm r).trail deeds events) := by
  refine run_induction (motive := fun events u => (∀ e ∈ events, e.Untroubled) →
    u.Tended ((ofRealm r).trail deeds events)) hRun ?_ ?_ hCalm
  · rintro - x - - ⟨i, record, hMem, -⟩
    cases hMem
  · intro before t e v hBefore hStep ih hCalm
    rw [trail_concat hBefore]
    have hTended : t.Tended ((ofRealm r).trail deeds before) :=
      ih fun e he => hCalm e (List.mem_append_left _ he)
    exact hTended.step (move_of_step (made_of_run hBefore) hStep) (ends_of_run hBefore) hStep
      (hCalm e (List.mem_append_right _ List.mem_cons_self))

end System

end BackgroundJobs
