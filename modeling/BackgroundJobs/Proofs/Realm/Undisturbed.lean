import BackgroundJobs.Proofs.Realm.Dispatch
import BackgroundJobs.Proofs.Realm.Interruptions
import BackgroundJobs.Proofs.Realm.Signals

/-!
# Proofs — runs that are left to the workers

A run that nobody asks to cancel, in a realm that nobody asks to shut down, is
changed by workers alone: the other procedures that end or mark runs never come
to it. Its definition is known from its admission on, and no token of its
attempts is raised, since a token is raised for the run that it was handed out
for.

Main results:

* `undisturbed_of_run`  — no thread is about to cancel the run or to shut down.
* `running_of_busy`, `busy_of_running` — the run is in state `RUNNING` exactly
  while a worker is in an attempt of it.
* `dealing_of_step`     — where the record of the run comes from, after an event.
* `Unraised.step`       — a token that was raised was handed out for another run.
-/

namespace BackgroundJobs

variable {δ : Type} {cue : Cue} {r r' : Realm δ} {th th' : Thread δ} {crew : List (Thread δ)}
  {id : JobId}

-- ---------------------------------------------------------------------------
-- Nobody cancels the run or shuts the realm down
-- ---------------------------------------------------------------------------

/-- The run that a cancellation is about. -/
def Cancellation.subject : Cancellation → JobId
  | .looking id | .revoking id | .marking id => id
  | .unqueueing record | .finishing record | .signalling record => record.id

/-- A cancellation goes on with the run that it began with. -/
theorem Cancellation.subject_of_step {point next : Cancellation}
    (h : point.step cue r = (r', .at next)) : next.subject = point.subject := by
  cases point with
  | looking id =>
    simp only [step] at h
    split at h
    · cases h
    · split at h <;> cases h <;> rfl
  | revoking id =>
    simp only [step] at h
    split at h
    · next hTold =>
      cases h
      obtain ⟨x, -, hId, -, -, rfl, -⟩ := Realm.transition_eq_ok _ _ hTold
      exact hId
    · cases h
      rfl
    · cases h
  | unqueueing record =>
    cases h
    rfl
  | marking id =>
    simp only [step] at h
    split at h
    · next hTold =>
      cases h
      obtain ⟨-, store, hStore, -⟩ := (Realm.tell_eq_ok _ _).mp hTold
      obtain ⟨x, -, hId, rfl, -⟩ := Store.requestCancel_ok hStore
      split
      · rfl
      · exact (Store.marked_id x).trans hId
    · cases h
  | finishing record => cases h
  | signalling record => cases h

/-- Has the thread come to cancel the run, or to shut down the realm? -/
def Thread.Disturbs (id : JobId) : Thread δ → Prop
  | .caller (.made call) => call = .cancel id ∨ call = .shutdown
  | .caller (.canceling point) => point.subject = id
  | .caller (.stopping _) => True
  | _ => False

/-- Is the event none that has the run canceled or the realm shut down? -/
def Event.Spares (id : JobId) (e : Event) : Prop :=
  e ≠ .call (.cancel id) ∧ e ≠ .call .shutdown

/-- A thread disturbs the run only if it came to do so. -/
theorem Thread.disturbs_of_step (h : th.step cue r = some (r', th', crew))
    (hAfter : th'.Disturbs id) : th.Disturbs id := by
  cases th with
  | worker w =>
    obtain ⟨w', -, rfl, -⟩ := step_worker h
    cases hAfter
  | timer t =>
    obtain ⟨t', -, rfl, -⟩ := step_timer h
    cases hAfter
  | answered answer => cases h
  | caller point =>
    rcases step_caller h with ⟨next, hStep, rfl, -⟩ | ⟨answer, -, rfl, -⟩
    · cases point with
      | made call =>
        obtain ⟨-, hOpens⟩ := Call.opens_of_begin hStep
        cases hOpens with
        | shutdown => exact .inr rfl
        | cancel other => exact .inl (congrArg Call.cancel hAfter)
        | submit | start | schedule | declare => cases hAfter
      | canceling point =>
        obtain ⟨q, hPoint, rfl⟩ := CallPoint.lift_eq_at (Option.some.inj hStep)
        exact (Cancellation.subject_of_step hPoint).symm.trans hAfter
      | stopping point => trivial
      | admitting | starting | scheduling | declaring =>
        obtain ⟨x, -, hLift⟩ := Option.map_eq_some_iff.mp hStep
        obtain ⟨q, -, rfl⟩ := CallPoint.lift_eq_at hLift
        cases hAfter
    · cases hAfter

/-- A start does not stop the realm, and changes the lifecycle with its last step only. -/
theorem Startup.kept_of_step {point : Startup} {p : Progress Startup (Except JobError Unit)}
    (h : point.step cue r = some (r', p)) :
    r'.stopping = r.stopping ∧ (point ≠ .opening → r'.lifecycle = r.lifecycle) := by
  cases point with
  | waiting =>
    obtain ⟨-, ⟨_, -, rfl⟩ | ⟨_, -, -, -, rfl⟩⟩ := step_waiting h <;> exact ⟨rfl, fun _ => rfl⟩
  | listing =>
    simp only [step] at h
    split at h <;> cases h <;> exact ⟨rfl, fun _ => rfl⟩
  | recovering rest =>
    cases rest with
    | nil =>
      cases h
      exact ⟨rfl, fun _ => rfl⟩
    | cons record rest =>
      simp only [step] at h
      split at h
      · cases h
        exact ⟨rfl, fun _ => rfl⟩
      · split at h <;> next hTold =>
          cases h
          have hEffect : Effect cue _ [] r _ := .of_transition hTold
          obtain ⟨hLifecycle, -, hStopping⟩ := hEffect.lifecycle (by decide)
          exact ⟨hStopping, fun _ => hLifecycle⟩
      · cases h
        exact ⟨rfl, fun _ => rfl⟩
  | queueing | finishing =>
    cases h
    exact ⟨rfl, fun _ => rfl⟩
  | opening =>
    cases h
    exact ⟨rfl, fun hNot => absurd rfl hNot⟩

/-- Only a shutdown has a realm stop. -/
theorem Thread.stopping_of_step_of_ne (hStop : ∀ point, th ≠ .caller (.stopping point))
    (h : th.step cue r = some (r', th', crew)) : r'.stopping = r.stopping := by
  by_cases hStart : ∃ point, th = .caller (.starting point)
  · obtain ⟨point, rfl⟩ := hStart
    rcases step_starting h with ⟨_, hPoint, -⟩ | ⟨_, _, hPoint, -⟩ <;>
      exact (Startup.kept_of_step hPoint).1
  · exact ((effect h).lifecycle (lifecycle_not_touched (fun p hEq => hStart ⟨p, hEq⟩) hStop)).2.2

namespace System

variable {s t u : System δ} {e : Event} {events : List Event}

/-- No thread has come to cancel the run or to shut down the realm, which goes on. -/
structure Undisturbed (s : System δ) (id : JobId) : Prop where
  threads : ∀ {i : Nat} {th}, s.threads[i]? = some th → ¬ th.Disturbs id
  goesOn : s.realm.stopping = false

theorem Undisturbed.step (h : s.Undisturbed id) (hSpares : e.Spares id)
    (hStep : s.step e = some u) : u.Undisturbed id := by
  cases e with
  | call call =>
    cases hStep
    refine ⟨fun hAt hDisturbs => ?_, h.goesOn⟩
    rcases threads_of_call hAt with hOld | ⟨-, rfl⟩
    · exact h.threads hOld hDisturbs
    · rcases hDisturbs with rfl | rfl
      · exact hSpares.1 rfl
      · exact hSpares.2 rfl
  | sweep cutoff =>
    cases hStep
    exact ⟨h.threads, h.goesOn⟩
  | advance i cue =>
    obtain ⟨th, r', th', crew, hAt, hThread, rfl⟩ := step_advance hStep
    refine ⟨fun hAt' hDisturbs => ?_, ?_⟩
    · rcases threads_of_advance hAt' with ⟨-, rfl⟩ | ⟨-, hOld⟩ | ⟨-, hMem⟩
      · exact h.threads hAt (Thread.disturbs_of_step hThread hDisturbs)
      · exact h.threads hOld hDisturbs
      · rcases Thread.crew_of_step hThread _ hMem with rfl | rfl <;> cases hDisturbs
    · have hStop : ∀ point, th ≠ .caller (.stopping point) := by
        rintro point rfl
        exact h.threads hAt trivial
      exact (Thread.stopping_of_step_of_ne hStop hThread).trans h.goesOn

variable {settings : RealmSettings} {registry : Registry δ} {store : Store}

theorem undisturbed_of_run (hRun : (initial settings registry store).run events = some u)
    (hSpares : ∀ e ∈ events, e.Spares id) : u.Undisturbed id := by
  refine run_induction (motive := fun events u => (∀ e ∈ events, e.Spares id) → u.Undisturbed id)
    hRun ?_ ?_ hSpares
  · intro _
    exact ⟨nofun, rfl⟩
  · intro before t e v _ hStep ih hSpares
    obtain ⟨hBefore, hLast⟩ := List.forall_mem_append.mp hSpares
    exact (ih hBefore).step (hLast e List.mem_cons_self) hStep

/-- The queue of a realm that goes on is open. -/
theorem open_of_run (hRun : (initial settings registry store).run events = some u)
    (hGoesOn : u.realm.stopping = false) : u.realm.queue.closed = false := by
  cases hClosed : u.realm.queue.closed with
  | false => rfl
  | true => exact absurd ((stopping_of_closed hRun hClosed).symm.trans hGoesOn) nofun

-- ---------------------------------------------------------------------------
-- Running runs and their workers
-- ---------------------------------------------------------------------------

/-- While a worker is in an attempt of a run, and the realm goes on, the run goes on. -/
theorem running_of_busy {i : Nat} {w : Worker δ} {record : JobRecord} (h : s.Attended)
    (hGoesOn : s.realm.stopping = false) (hBusy : s.Busy i w record) :
    ∃ x ∈ s.realm.store.records, x.id = record.id ∧ x.state = .running := by
  rcases h i w record hBusy with hRunning | ⟨hStops, -⟩
  · exact hRunning
  · rw [hStops] at hGoesOn
    cases hGoesOn

/-- A run that was admitted and goes on was claimed. -/
theorem claimed_of_running {r : Realm δ} (hRun : (ofRealm r).run events = some u)
    (hNew : id ∉ r.store.ids) {x : JobRecord} (hx : x ∈ u.realm.store.records) (hId : x.id = id)
    (hRunning : x.state = .running) :
    ∃ i record, .claimed i record ∈ (ofRealm r).trail deeds events ∧ record.id = id := by
  refine run_induction (motive := fun events u => ∀ x ∈ u.realm.store.records, x.id = id →
    x.state = .running →
      ∃ i record, .claimed i record ∈ (ofRealm r).trail deeds events ∧ record.id = id)
    hRun ?_ ?_ x hx hId hRunning
  · rintro x hx rfl -
    exact absurd (Store.id_mem_ids hx) hNew
  · intro before t e v hBefore hStep ih x' hx' hId hRunning
    rw [trail_concat hBefore]
    have hOld : ∀ x ∈ t.realm.store.records, x.id = id → x.state = .running →
        ∃ i record, .claimed i record ∈ (ofRealm r).trail deeds before ++ t.deeds e ∧
          record.id = id := by
      intro x hx hId hRunning
      obtain ⟨i, record, hMem, hSame⟩ := ih x hx hId hRunning
      exact ⟨i, record, List.mem_append_left _ hMem, hSame⟩
    cases move_of_step (made_of_run hBefore) hStep with
    | quiet hStore _ _ _ =>
      rcases hStore x' hx' with ⟨x, hx, hFollows⟩ | ⟨a, -, hMade⟩
      · have hSame := hFollows.state_eq (JobRecord.isActive_of_running hRunning)
        exact hOld x hx (hFollows.sameRun.id.symm.trans hId) (hSame.symm.trans hRunning)
      · obtain ⟨_, _, rfl⟩ := hMade
        cases hRunning
    | claim i cue x token _ _ _ _ _ hStore _ hDeeds =>
      rcases (hStore x').mp hx' with rfl | ⟨hx, -⟩
      · refine ⟨i, _, List.mem_append_right _ ?_, hId⟩
        rw [hDeeds]
        exact List.mem_singleton.mpr rfl
      · exact hOld x' hx hId hRunning
    | goOn i cue w w' record _ _ _ _ _ _ hStore _ =>
      rw [hStore] at hx'
      exact hOld x' hx' hId hRunning
    | settle i cue record t' w' result _ _ _ _ hStore _ _ =>
      rcases hStore with ⟨_, -, hSame⟩ | ⟨x, -, -, -, hTarget, -, hStore⟩
      · rw [hSame] at hx'
        exact hOld x' hx' hId hRunning
      · rcases (hStore x').mp hx' with rfl | ⟨hx, -⟩
        · exact absurd hRunning hTarget
        · exact hOld x' hx hId hRunning

/-- As long as the store is in no trouble, a run that was admitted and goes on has a worker in an
attempt of it. -/
theorem busy_of_running {r : Realm δ} (hRun : (ofRealm r).run events = some u)
    (hCalm : ∀ e ∈ events, e.Untroubled) (hNew : id ∉ r.store.ids) {x : JobRecord}
    (hx : x ∈ u.realm.store.records) (hId : x.id = id) (hRunning : x.state = .running) :
    ∃ i w record, u.Busy i w record ∧ record.id = id := by
  obtain ⟨i, record, hMem, hSame⟩ := claimed_of_running hRun hNew hx hId hRunning
  rw [← hId] at hSame ⊢
  exact tended_of_run hRun hCalm x hx hRunning ⟨i, record, hMem, hSame⟩

end System

-- ---------------------------------------------------------------------------
-- What becomes of the record
-- ---------------------------------------------------------------------------

/-- Who has the store change or mark the record of a run, unless the thread came to disturb it: a
worker, or a start that takes up runs. -/
theorem Thread.changes_of_op? {op : Store.Op} (h : th.op? cue r = some op)
    (hSubject : op.subject? = some id) (hCalm : ¬ th.Disturbs id) :
    (∃ token, th = .worker (.claiming id token) ∧ op = .transition id .queued .start) ∨
      (∃ record t, th = .worker (.recording record t) ∧ record.id = id ∧
        op = .transition id .running t) ∨
      (∃ record, th = .worker (.withdrawing record) ∧ record.id = id ∧
        op = .transition id .queued .cancel) ∨
      ∃ rest, th = .caller (.starting (.recovering rest)) ∧
        op = .transition id .running .interrupt := by
  have hPoint : ∀ {point : AdmissionPoint}, point.op? ≠ some op := by
    intro point hOp
    cases point <;> cases hOp
    cases hSubject
  cases th with
  | answered answer => cases h
  | timer timer => cases timer <;> first | exact absurd h hPoint | cases h
  | worker w =>
    cases w <;> cases h <;> cases hSubject
    · exact .inl ⟨_, rfl, rfl⟩
    · exact .inr (.inl ⟨_, _, rfl, rfl, rfl⟩)
    · exact .inr (.inr (.inl ⟨_, rfl, rfl, rfl⟩))
  | caller callPoint =>
    cases callPoint with
    | made call =>
      cases call with
      | purge =>
        obtain ⟨cutoff, -, rfl⟩ := Option.map_eq_some_iff.mp h
        cases hSubject
      | delete ids =>
        cases h
        cases hSubject
      | _ => cases h
    | admitting a point => exact absurd h hPoint
    | starting point =>
      cases point with
      | recovering rest =>
        cases rest with
        | nil => cases h
        | cons record rest =>
          simp only [op?, CallPoint.op?, Startup.op?] at h
          split at h <;> cases h
          cases hSubject
          exact .inr (.inr (.inr ⟨_, rfl, rfl⟩))
      | _ => cases h
    | stopping point => exact absurd trivial hCalm
    | canceling point =>
      cases point <;> cases h <;> cases hSubject <;> exact absurd rfl hCalm
    | scheduling point => cases h
    | declaring point => cases h

namespace System

variable {s u : System δ} {e : Event}

/-- Where the record of an undisturbed run comes from, after an event. -/
inductive Dealing (s : System δ) (e : Event) (x' : JobRecord) : Prop where
  | kept (stored : x' ∈ s.realm.store.records)
  | admitted (a : Admission) (admits : (a, x') ∈ s.admissions e)
  | claimed (i : Nat) (cue : Cue) (x : JobRecord) (token : Token) (event : e = .advance i cue)
    (before : s.threads[i]? = some (.worker (.claiming x.id token)))
    (stored : x ∈ s.realm.store.records) (queued : x.state = .queued)
    (change : x' = Transition.start.apply x cue.now)
  | settled (i : Nat) (cue : Cue) (record x : JobRecord) (t : Transition)
    (event : e = .advance i cue)
    (before : s.threads[i]? = some (.worker (.recording record t)))
    (stored : x ∈ s.realm.store.records) (same : x.id = record.id) (running : x.state = .running)
    (ends : t.target ≠ .running) (change : x' = t.apply x cue.now)
  /-- The run was put back while it was marked. -/
  | withdrawn (i : Nat) (record : JobRecord)
    (before : s.threads[i]? = some (.worker (.withdrawing record))) (same : record.id = x'.id)

theorem dealing_of_step (hUndisturbed : s.Undisturbed id) (hGoverned : Governed s)
    (hWorked : ∀ x ∈ s.realm.store.records, x.id = id → x.state = .running →
      ∃ i w record, s.Busy i w record ∧ record.id = id)
    (hStep : s.step e = some u) {x' : JobRecord} (hx' : x' ∈ u.realm.store.records)
    (hId : x'.id = id) : Dealing s e x' := by
  rw [store_of_step hStep] at hx'
  cases hOp : s.op? e with
  | none =>
    rw [hOp] at hx'
    exact .kept hx'
  | some asked =>
    obtain ⟨op, now⟩ := asked
    rw [hOp] at hx'
    -- a change or a mark is asked for by a thread that does not disturb the run
    have hAsked : op.subject? = some id → ∃ i cue th, e = .advance i cue ∧ now = cue.now ∧
        s.threads[i]? = some th ∧ th.op? cue s.realm = some op := by
      intro hSubject
      cases e with
      | call call => cases hOp
      | sweep cutoff =>
        cases hOp
        cases hSubject
      | advance i cue =>
        obtain ⟨-, hNow, th, hAt, hAsks⟩ := op?_advance_eq_some.mp hOp
        exact ⟨i, cue, th, rfl, hNow, hAt, hAsks⟩
    cases Store.origin_of_mem_perform hx' with
    | kept hOld => exact .kept hOld
    | created hCreate hNew =>
      subst hCreate
      obtain ⟨a, hAdmits⟩ := mem_admissions_of_create hOp hNew
      exact .admitted a hAdmits
    | moved x t hx hMoves hEdge hChange =>
      subst hMoves hChange
      subst hId
      obtain ⟨i, cue, th, rfl, rfl, hAt, hAsks⟩ := hAsked rfl
      rcases Thread.changes_of_op? hAsks rfl (hUndisturbed.threads hAt) with
        ⟨token, rfl, hSame⟩ | ⟨record, t', rfl, hSame, hEq⟩ | ⟨record, rfl, hSame, -⟩ |
          ⟨rest, rfl, hEq⟩
      · obtain ⟨-, hQueued, rfl⟩ := Store.Op.transition.inj hSame
        exact .claimed i cue x token rfl hAt hx hQueued rfl
      · obtain ⟨-, hRunning, rfl⟩ := Store.Op.transition.inj hEq
        refine .settled i cue record x t rfl hAt hx hSame.symm hRunning ?_ rfl
        rcases JobState.canBecome_iff.mp hEdge with ⟨hQueued, -⟩ | ⟨-, hEnds⟩
        · rw [hRunning] at hQueued
          cases hQueued
        · exact hEnds
      · exact .withdrawn i record hAt hSame
      · -- there is no worker while a start takes up runs
        obtain ⟨-, hRunning, -⟩ := Store.Op.transition.inj hEq
        obtain ⟨j, w, record, hBusy, -⟩ := hWorked x hx rfl hRunning
        exact absurd (hGoverned.starting hAt rfl) (hGoverned.working hBusy.1)
    | marked x hx hMarks hChange =>
      subst hMarks hChange
      rw [Store.marked_id] at hId
      subst hId
      obtain ⟨i, cue, th, rfl, rfl, hAt, hAsks⟩ := hAsked rfl
      rcases Thread.changes_of_op? hAsks rfl (hUndisturbed.threads hAt) with
        ⟨_, -, hEq⟩ | ⟨_, _, -, -, hEq⟩ | ⟨_, -, -, hEq⟩ | ⟨_, -, hEq⟩ <;> cases hEq

-- ---------------------------------------------------------------------------
-- Known definitions
-- ---------------------------------------------------------------------------

variable {events : List Event}

theorem registry_of_step (h : s.step e = some u) : u.realm.registry = s.realm.registry := by
  cases e with
  | call call =>
    cases h
    rfl
  | sweep cutoff =>
    cases h
    rfl
  | advance i cue =>
    obtain ⟨th, r', th', crew, -, hThread, rfl⟩ := step_advance h
    exact (Thread.effect hThread).registry

theorem registry_of_run (hRun : s.run events = some u) : u.realm.registry = s.realm.registry :=
  run_induction (motive := fun _ u => u.realm.registry = s.realm.registry) hRun rfl
    fun _ _ _ _ _ hStep ih => (registry_of_step hStep).trans ih

end System

/-- An admission is of a job that the realm knows. -/
theorem Admission.known_of_make {request : JobRequest} {triggerId : Option TriggerId}
    {a : Admission} (h : make r request triggerId = .ok a) :
    ∃ definition, r.registry.lookup a.request.jobKey = .ok definition := by
  unfold make at h
  cases hLookup : r.registry.lookup request.jobKey with
  | error e =>
    rw [hLookup] at h
    cases h
  | ok definition =>
    rw [hLookup] at h
    cases hGroup : r.resolveGroup request.group <;> rw [hGroup] at h <;> cases h
    exact ⟨definition, hLookup⟩

namespace System

variable {s t u : System δ} {e : Event} {events : List Event} {settings : RealmSettings}
  {registry : Registry δ} {store : Store}

/-- The definition of every admitted run is known. -/
theorem known_of_run (hRun : (initial settings registry store).run events = some u)
    {p : Admission × JobRecord}
    (hp : p ∈ (initial settings registry store).trail admissions events) :
    ∃ definition, u.realm.registry.lookup p.2.jobKey = .ok definition := by
  obtain ⟨before, e, t, -, hBefore, hAdmitted⟩ := exists_of_mem_trail hp
  obtain ⟨i, cue, th, -, hAt, hCreating, -⟩ := creating_of_mem_admissions hAdmitted
  obtain ⟨_, _, hMade⟩ := made_of_run hBefore hAt p.1 _ p.2 hCreating rfl
  have hKnown : ∀ i : Nat, ∀ th, t.threads[i]? = some th → ∀ a point,
      th.admission? = some (a, point) →
        ∃ definition, t.realm.registry.lookup a.request.jobKey = .ok definition := by
    refine forall_threads_of_run (P := fun r th => ∀ a point, th.admission? = some (a, point) →
      ∃ definition, r.registry.lookup a.request.jobKey = .ok definition) ?_ ?_ ?_ ?_ ?_ hBefore
    · intro r call a point hNone
      cases hNone
    · intro cue r th r' th' crew hStep h
      rw [(Thread.effect hStep).registry]
      refine ⟨fun a point hAdmission => ?_, fun x hx a point hAdmission => ?_⟩
      · rcases Thread.admission_of_step hStep hAdmission with
          ⟨-, ⟨_, hMake, -⟩ | ⟨_, _, _, _, hMake, -⟩⟩ | ⟨point', hBefore, -⟩
        · exact Admission.known_of_make hMake
        · exact Admission.known_of_make hMake
        · exact h a point' hBefore
      · rcases Thread.crew_of_step hStep _ hx with rfl | rfl <;> cases hAdmission
    · intro cue r th r' th' crew hStep other h
      rw [(Thread.effect hStep).registry]
      exact h
    · intro r cutoff other h
      exact h
    · intro i th hAt
      cases hAt
  rw [registry_of_run hRun, ← registry_of_run hBefore, hMade]
  exact hKnown i th hAt p.1 _ hCreating

end System

-- ---------------------------------------------------------------------------
-- Tokens that were raised
-- ---------------------------------------------------------------------------

/-- Who raises a token: a worker that has claimed a marked run, a cancellation that signals, or a
shutdown. -/
theorem Thread.raised_of_step {token : Token} (h : th.step cue r = some (r', th', crew))
    (hAfter : r'.tokens.isRaised token = true) (hBefore : r.tokens.isRaised token = false) :
    (∃ record, th = .worker (.claimed record token) ∧ record.cancelRequested = true) ∨
      (∃ record, th = .caller (.canceling (.signalling record)) ∧
        r.tokens.find? record.id = some token) ∨
      ∃ point, th = .caller (.stopping point) := by
  have hTouched : Part.signals ∈ th.touched := by
    by_contra hNot
    have hSame := (effect h).signals hNot
    rw [Tokens.isRaised, hSame] at hAfter
    exact Bool.eq_false_iff.mp hBefore hAfter
  cases th with
  | answered answer => cases h
  | timer t => obtain ⟨hPart | hPart, -⟩ := Timer.mem_touched hTouched <;> cases hPart
  | worker w =>
    rcases Worker.mem_touched hTouched with
      ⟨hPart, -⟩ | ⟨hPart, -⟩ | ⟨-, record, other, rfl⟩ | ⟨hPart, -⟩
    · cases hPart
    · cases hPart
    · have hRaised : (if record.cancelRequested then
          { r with tokens := r.tokens.raise other } else r).tokens.isRaised token = true := by
        obtain ⟨w', hStep, -, -⟩ := step_worker h
        simp only [Worker.step] at hStep
        split at hStep <;> cases hStep <;> exact hAfter
      cases hMark : record.cancelRequested with
      | true =>
        rw [hMark, if_pos rfl] at hRaised
        simp only [Tokens.isRaised, Tokens.raise, List.contains_cons, Bool.or_eq_true,
          beq_iff_eq] at hRaised hBefore
        rcases hRaised with rfl | hOld
        · exact .inl ⟨record, rfl, hMark⟩
        · exact absurd hOld (Bool.eq_false_iff.mp hBefore)
      | false =>
        rw [hMark, if_neg Bool.false_ne_true] at hRaised
        exact absurd hRaised (Bool.eq_false_iff.mp hBefore)
    · cases hPart
  | caller point =>
    rcases CallPoint.mem_touched hTouched with
      hPart | ⟨hPart, -⟩ | ⟨hPart, -⟩ | ⟨-, ⟨record, rfl⟩ | ⟨at', rfl⟩⟩
    · cases hPart
    · cases hPart
    · cases hPart
    · refine .inr (.inl ⟨record, rfl, ?_⟩)
      cases h
      simp only [Tokens.signal] at hAfter
      split at hAfter
      · next other hBound =>
        simp only [Tokens.isRaised, Tokens.raise, List.contains_cons, Bool.or_eq_true,
          beq_iff_eq] at hAfter hBefore
        rcases hAfter with rfl | hOld
        · exact hBound
        · exact absurd hOld (Bool.eq_false_iff.mp hBefore)
      · exact absurd hAfter (Bool.eq_false_iff.mp hBefore)
    · exact .inr (.inr ⟨at', rfl⟩)

namespace System

variable {s t u : System δ} {e : Event} {log : List Visit}

/-- Every token that was raised was handed out for another run. -/
def Unraised (s : System δ) (log : List Visit) (id : JobId) : Prop :=
  ∀ token, s.realm.tokens.isRaised token = true → ∃ i other, .came i other token ∈ log ∧ other ≠ id

/-- The token of an attempt of the run is not raised. -/
theorem Unraised.isRaised_eq_false (h : s.Unraised log id) (hRegistered : s.Registered log)
    {i : Nat} {w : Worker δ} {token : Token} (hAt : s.threads[i]? = some (.worker w))
    (hToken : w.token? = some (id, token)) : s.realm.tokens.isRaised token = false := by
  by_contra hRaised
  obtain ⟨j, other, hCame, hNe⟩ := h token (by simpa using hRaised)
  exact hNe (hRegistered.once hCame (hRegistered.came hAt hToken)).2

theorem Unraised.step (h : s.Unraised log id) (hRegistered : s.Registered log)
    (hUndisturbed : s.Undisturbed id)
    (hUnmarked : ∀ {i : Nat} {record token},
      s.threads[i]? = some (.worker (.claimed record token)) → record.id = id →
        record.cancelRequested = false)
    (hStep : s.step e = some u) : u.Unraised (log ++ s.visits e) id := by
  intro token hRaised
  cases hBefore : s.realm.tokens.isRaised token with
  | true =>
    obtain ⟨i, other, hCame, hNe⟩ := h token hBefore
    exact ⟨i, other, List.mem_append_left _ hCame, hNe⟩
  | false =>
    cases e with
    | call call =>
      cases hStep
      exact absurd (hRaised.symm.trans hBefore) nofun
    | sweep cutoff =>
      cases hStep
      exact absurd (hRaised.symm.trans hBefore) nofun
    | advance i cue =>
      obtain ⟨th, r', th', crew, hAt, hThread, rfl⟩ := step_advance hStep
      rcases Thread.raised_of_step hThread hRaised hBefore with
        ⟨record, rfl, hMark⟩ | ⟨record, rfl, hBound⟩ | ⟨point, rfl⟩
      · refine ⟨i, record.id, List.mem_append_left _ (hRegistered.came hAt rfl), fun hId => ?_⟩
        rw [hUnmarked hAt hId] at hMark
        cases hMark
      · rw [hRegistered.bound] at hBound
        obtain ⟨v, hLast, hv⟩ := Option.bind_eq_some_iff.mp hBound
        obtain ⟨hMem, hId⟩ := Visit.mem_of_last? hLast
        cases v with
        | came j other token' =>
          cases hv
          refine ⟨j, other, List.mem_append_left _ hMem, ?_⟩
          rintro rfl
          exact hUndisturbed.threads hAt hId.symm
        | left => cases hv
      · exact absurd trivial (hUndisturbed.threads hAt)

end System

end BackgroundJobs
