import Mathlib.Algebra.GroupWithZero.Nat
import BackgroundJobs.Proofs.Realm.Census
import BackgroundJobs.Proofs.Realm.Scripts

/-!
# Proofs — the work of a realm comes to an end

Workers work as long as there is something to do, and so does an admission that
has created its run and has to queue and to count it. How much work is left can
be told from where the threads are, from the length of the queue and from the
attempts that the stored runs have left: a worker that takes an entry out of the
queue has a bounded number of steps to take before it is idle again, and what it
puts back into the queue has one attempt less.

So without new calls the work comes to an end, whatever its order. And it does
not stop before: while a realm is running, not paused and not stopping, its
workers are there and wait for nothing but entries of the queue.

Main results:

* `Thread.labor_lt_of_step` — every step of the work leaves less of it.
* `working_or_done`         — a running realm has work that can be done, or none.
* `Toils.length_le`         — how long the work can go on.
-/

namespace BackgroundJobs

variable {δ : Type} {cue : Cue} {r r' : Realm δ}

-- ---------------------------------------------------------------------------
-- How much work is left
-- ---------------------------------------------------------------------------

/-- The number of attempts that a run has left. -/
def JobRecord.remaining (x : JobRecord) : Nat :=
  x.retryPolicy.maxAttempts - x.attempts

/-- The number of attempts that the stored runs have left. -/
def Store.remaining (s : Store) : Nat :=
  (s.records.map (·.remaining)).sum

/-- The work that may follow the attempt of a record, apart from the next attempt: to queue the run
again. -/
def JobRecord.aftermath (x : JobRecord) : Nat :=
  if x.attempts < x.retryPolicy.maxAttempts then 10 else 0

/-- The work that a worker has before it before it is idle again. An entry of the queue counts for
eleven, which is what a worker that has taken it has to do, and an attempt that is left for ten. -/
def Worker.labor : Worker δ → Nat
  | .retired => 0
  | .idle => 1
  | .leaving _ => 2
  | .finishing _ => 3
  | .withdrawing _ => 4
  | .recording record _ => 5 + record.aftermath
  | .judging record _ _ => 6 + record.aftermath
  | .executing record _ _ => 7 + record.aftermath
  | .claimed record _ => 8 + record.aftermath
  | .claiming _ _ => 9
  | .entering _ => 10
  | .taken _ => 11
  | .requeueing _ => 14

/-- The work that an admission has before it once it has created its run. -/
def AdmissionPoint.labor : AdmissionPoint → Nat
  | .queueing _ => 13
  | .counting _ => 1
  | _ => 0

namespace Thread

/-- The work that a thread has before it. -/
def labor : Thread δ → Nat
  | worker w => w.labor
  | th => th.admission?.elim 0 (·.2.labor)

/-- Does the thread do the work of the realm? Then it is a worker, or has created a run. -/
def Works (th : Thread δ) : Prop :=
  (∃ w, th = .worker w) ∨ th.joining ≠ []

end Thread

/-- The work that is left in a realm, apart from that of its threads. -/
def Realm.labor (r : Realm δ) : Nat :=
  11 * r.queue.size + 10 * r.store.remaining

/-- The work that is left. -/
def System.labor (s : System δ) : Nat :=
  (s.threads.map Thread.labor).sum + s.realm.labor

-- ---------------------------------------------------------------------------
-- One step
-- ---------------------------------------------------------------------------

/-- A change of state changes the number of attempts that one run has left. -/
theorem Realm.remaining_of_transition {id : JobId} {expected : JobState} {t : Transition}
    {after : JobRecord} (h : r.transition cue id expected t = (.ok after, r')) :
    r'.queue = r.queue ∧ ∃ x others, after = t.apply x cue.now ∧
      r.store.remaining = x.remaining + others ∧ r'.store.remaining = after.remaining + others := by
  obtain ⟨-, store, hStore, rfl⟩ := (tell_eq_ok r cue).mp h
  obtain ⟨x, hx, rfl, -, -, rfl, rfl⟩ := Store.transition_ok hStore
  obtain ⟨others, hBefore, hAfter⟩ := Store.perm_modify hx fun x => t.apply x cue.now
  refine ⟨rfl, x, (others.map (·.remaining)).sum, rfl, ?_, ?_⟩
  · exact (hBefore.map _).sum_nat
  · exact (hAfter.map _).sum_nat

/-- Only the beginning of an attempt takes from the attempts that are left. -/
theorem Realm.labor_of_transition {id : JobId} {expected : JobState} {t : Transition}
    {after : JobRecord} (h : r.transition cue id expected t = (.ok after, r'))
    (ht : t.target ≠ .running) : r'.labor = r.labor := by
  obtain ⟨hQueue, x, others, rfl, hBefore, hAfter⟩ := remaining_of_transition h
  have hSame : (t.apply x cue.now).remaining = x.remaining := by
    simp only [JobRecord.remaining, Transition.apply, if_neg ht]
  rw [labor, labor, hQueue, hBefore, hAfter, hSame]

theorem Queue.size_push_le (q : Queue) (id : JobId) (notBefore : Option Instant) :
    (q.push id notBefore).size ≤ q.size + 1 := by
  unfold push
  split
  · exact Nat.le_succ _
  · simp [size]

/-- A step that asks nothing of the store and leaves the queue alone changes only the work of its
own thread. -/
theorem Effect.labor {touched : List Part} (h : Effect cue none touched r r')
    (hQueue : .queue ∉ touched) : r'.labor = r.labor := by
  have hStore : r'.store = r.store := h.store
  rw [Realm.labor, Realm.labor, hStore, h.queue hQueue]

namespace Worker

variable {w w' : Worker δ}

/-- An idle worker goes, or takes an entry out of the queue. -/
theorem labor_lt_of_idle (h : (idle : Worker δ).step cue r = some (r', w')) :
    w'.labor + r'.labor < 1 + r.labor := by
  simp only [step] at h
  split at h
  · cases h
    exact Nat.add_lt_add_right Nat.zero_lt_one _
  · obtain ⟨⟨id, queue⟩, hTake, hEq⟩ := Option.map_eq_some_iff.mp h
    cases hEq
    obtain ⟨-, -, entry, before, after, -, hEntries, hRest⟩ := Queue.take?_eq_some hTake
    have hSize : r.queue.size = queue.size + 1 := by
      simp only [Queue.size, hEntries, hRest, List.length_append, List.length_cons]
      omega
    simp only [labor, Realm.labor, hSize]
    omega

/-- The attempt that a claim begins is one of those that the run had left, unless it had none. -/
theorem labor_lt_of_claiming {id : JobId} {token : Token}
    (h : (claiming id token : Worker δ).step cue r = some (r', w')) :
    w'.labor + r'.labor < 9 + r.labor := by
  simp only [step] at h
  split at h
  · next record _ hTold =>
    cases h
    obtain ⟨hQueue, x, others, rfl, hBefore, hAfter⟩ := Realm.remaining_of_transition hTold
    have hAttempts : (Transition.start.apply x cue.now).attempts = x.attempts + 1 := rfl
    have hPolicy : (Transition.start.apply x cue.now).retryPolicy = x.retryPolicy := rfl
    simp only [labor, Realm.labor, hQueue, hBefore, hAfter, JobRecord.aftermath,
      JobRecord.remaining, hAttempts, hPolicy]
    split <;> omega
  · next hTold =>
    cases h
    cases Realm.tell_eq_error _ _ hTold
    exact Nat.add_lt_add_right (by decide : 2 < 9) _

/-- A run is put back if it has attempts left. -/
theorem labor_lt_of_recording {record : JobRecord} {t : Transition}
    (h : (recording record t).step cue r = some (r', w'))
    (hAllowed : t.target = .queued → record.attempts < record.retryPolicy.maxAttempts) :
    w'.labor + r'.labor < 5 + record.aftermath + r.labor := by
  simp only [step] at h
  split at h
  · next updated _ hTold =>
    obtain ⟨x, -, -, -, hEdge, rfl, -⟩ := Realm.transition_eq_ok _ _ hTold
    have hEnds : t.target ≠ .running := by
      rintro hRuns
      rw [hRuns] at hEdge
      cases hEdge
    cases h
    rw [Realm.labor_of_transition hTold hEnds, Transition.apply_state]
    refine Nat.add_lt_add_right ?_ _
    split
    · next hQueued =>
      rw [JobRecord.aftermath, if_pos (hAllowed hQueued)]
      split <;> simp only [labor] <;> omega
    · simp only [labor]
      omega
  · next hTold =>
    cases h
    cases Realm.tell_eq_error _ _ hTold
    simp only [labor]
    omega

/-- Every step of a worker leaves less work, if no attempt is put back that was the last one
allowed. -/
theorem labor_lt_of_step (h : w.step cue r = some (r', w'))
    (hAllowed : ∀ record t, w = .recording record t → t.target = .queued →
      record.attempts < record.retryPolicy.maxAttempts) :
    w'.labor + r'.labor < w.labor + r.labor := by
  have hEffect := effect h
  cases w with
  | retired => cases h
  | idle => exact labor_lt_of_idle h
  | claiming id token => exact labor_lt_of_claiming h
  | recording record t => exact labor_lt_of_recording h (hAllowed record t rfl)
  | withdrawing record =>
    simp only [step] at h
    split at h
    · next hTold =>
      cases h
      rw [Realm.labor_of_transition hTold (by decide)]
      exact Nat.add_lt_add_right (by decide : 3 < 4) _
    · next hTold =>
      cases h
      cases Realm.tell_eq_error _ _ hTold
      exact Nat.add_lt_add_right (by decide : 2 < 4) _
  | requeueing record =>
    cases h
    have hSize := r.queue.size_push_le record.id (some (retryTime record cue.now))
    simp only [labor, Realm.labor]
    omega
  | taken | entering | claimed | executing | judging | finishing | leaving =>
    -- only the worker itself has less to do
    rw [hEffect.labor (by simp [touched])]
    refine Nat.add_lt_add_right ?_ _
    cases goes_of_step h <;> simp only [labor] <;> omega

end Worker

namespace Thread

variable {th th' : Thread δ} {crew : List (Thread δ)} {a : Admission} {point : AdmissionPoint}

theorem labor_of_not_worker (hNot : ∀ w, th ≠ .worker w) :
    th.labor = th.admission?.elim 0 (·.2.labor) := by
  cases th with
  | worker w => exact absurd rfl (hNot w)
  | caller | timer | answered => rfl

theorem not_worker_of_admission (h : th.admission? = some (a, point)) : ∀ w, th ≠ .worker w := by
  rintro w rfl
  cases h

theorem labor_of_admission (h : th.admission? = some (a, point)) : th.labor = point.labor := by
  rw [labor_of_not_worker (not_worker_of_admission h), h]
  rfl

/-- A thread that has created a run queues it and then counts it. -/
theorem admission_of_joining (h : th.joining ≠ []) :
    ∃ a record, th.admission? = some (a, .queueing record) ∨
      th.admission? = some (a, .counting record) := by
  unfold joining at h
  cases hAdmission : th.admission? with
  | none =>
    rw [hAdmission] at h
    exact absurd rfl h
  | some busy =>
    obtain ⟨a, point⟩ := busy
    rw [hAdmission] at h
    cases point with
    | queueing record => exact ⟨a, record, .inl rfl⟩
    | counting record => exact ⟨a, record, .inr rfl⟩
    | waiting | checking | creating => exact absurd rfl h

/-- Every step of the work leaves less of it, if no attempt is put back that was the last one
allowed. -/
theorem labor_lt_of_step (hWorks : th.Works) (h : th.step cue r = some (r', th', crew))
    (hAllowed : ∀ record t, th = .worker (.recording record t) → t.target = .queued →
      record.attempts < record.retryPolicy.maxAttempts) :
    crew = [] ∧ th'.labor + r'.labor < th.labor + r.labor := by
  rcases hWorks with ⟨w, rfl⟩ | hJoins
  · obtain ⟨w', hStep, rfl, rfl⟩ := step_worker h
    exact ⟨rfl, Worker.labor_lt_of_step hStep fun record t hw => hAllowed record t (by rw [hw])⟩
  · obtain ⟨a, record, hAdmission | hAdmission⟩ := admission_of_joining hJoins <;>
      obtain ⟨hCrew, ⟨next, hStep, hNext⟩ | ⟨result, hStep, hNone⟩⟩ :=
        admission_step hAdmission h <;>
      cases hStep
    · have hSize := r.queue.size_push_le record.id none
      rw [labor_of_admission hAdmission, labor_of_admission hNext]
      refine ⟨hCrew, ?_⟩
      simp only [AdmissionPoint.labor, Realm.labor]
      omega
    · have hNot : ∀ w, th' ≠ .worker w := by
        rintro w rfl
        obtain ⟨w₀, rfl, -⟩ := worker_of_step h
        exact not_worker_of_admission hAdmission w₀ rfl
      rw [labor_of_admission hAdmission, labor_of_not_worker hNot, hNone]
      exact ⟨hCrew, Nat.add_lt_add_right Nat.zero_lt_one _⟩

end Thread

namespace System

variable {s t u : System δ} {e : Event} {events more : List Event} {i : Nat} {th : Thread δ}

/-- Does the event do some of the work? -/
def IsWork (s : System δ) (e : Event) : Prop :=
  ∃ i cue th, e = .advance i cue ∧ s.threads[i]? = some th ∧ th.Works

/-- The work of the other threads stays as it is when one of them takes a step. -/
theorem labor_of_set (hAt : s.threads[i]? = some th) (r' : Realm δ) (th' : Thread δ) :
    ∃ rest, s.labor = th.labor + rest + s.realm.labor ∧
      labor ⟨r', s.threads.set i th'⟩ = th'.labor + rest + r'.labor := by
  obtain ⟨hi, rfl⟩ := List.getElem?_eq_some_iff.mp hAt
  refine ⟨((s.threads.eraseIdx i).map Thread.labor).sum, ?_, ?_⟩
  · rw [labor, ((List.getElem_cons_eraseIdx_perm hi).symm.map _).sum_nat]
    rfl
  · rw [labor, ((List.set_perm_cons_eraseIdx hi th').map _).sum_nat]
    rfl

theorem labor_lt_of_work (hWork : s.IsWork e) (hStep : s.step e = some u)
    (hAllowed : ∀ {i : Nat} {record t}, s.threads[i]? = some (.worker (.recording record t)) →
      t.target = .queued → record.attempts < record.retryPolicy.maxAttempts) :
    u.labor < s.labor := by
  obtain ⟨i, cue, th, rfl, hAt, hWorks⟩ := hWork
  obtain ⟨r', th', crew, hThread, rfl⟩ := step_advance_at hAt hStep
  obtain ⟨rfl, hLess⟩ := Thread.labor_lt_of_step hWorks hThread
    fun record t hRecords => hAllowed (hRecords ▸ hAt)
  obtain ⟨rest, hBefore, hAfter⟩ := labor_of_set hAt r' th'
  rw [List.append_nil, hBefore, hAfter]
  omega

end System

-- ---------------------------------------------------------------------------
-- What the work leaves as it is
-- ---------------------------------------------------------------------------

namespace Thread

variable {th th' : Thread δ} {crew : List (Thread δ)}

/-- Who works does not start or shut down the realm. -/
theorem Works.lifecycle_not_touched (h : th.Works) : Part.lifecycle ∉ th.touched := by
  refine Thread.lifecycle_not_touched ?_ ?_ <;> rintro point rfl
  all_goals
    rcases h with ⟨w, hEq⟩ | hJoins
    · cases hEq
    · exact hJoins rfl

/-- The work does not pause the queue. -/
theorem paused_of_works (hWorks : th.Works) (h : th.step cue r = some (r', th', crew)) :
    r'.queue.paused = r.queue.paused := by
  by_cases hTouched : Part.queue ∈ th.touched
  · rcases hWorks with ⟨w, rfl⟩ | hJoins
    · rcases Worker.mem_touched hTouched with
        ⟨-, rfl | ⟨record, rfl⟩⟩ | ⟨hPart, -⟩ | ⟨hPart | hPart, -⟩ | ⟨hPart, -⟩
      · obtain ⟨w', hStep, -, -⟩ := step_worker h
        simp only [Worker.step] at hStep
        split at hStep
        · cases hStep
          rfl
        · obtain ⟨⟨id, queue⟩, hTake, hEq⟩ := Option.map_eq_some_iff.mp hStep
          cases hEq
          exact Queue.paused_of_take? hTake
      · cases h
        exact Queue.paused_push _ _ _
      all_goals cases hPart
    · obtain ⟨a, record, hAdmission | hAdmission⟩ := admission_of_joining hJoins <;>
        obtain ⟨-, ⟨next, hStep, -⟩ | ⟨result, hStep, -⟩⟩ := admission_step hAdmission h <;>
        cases hStep
      · exact Queue.paused_push _ _ _
      · rfl
  · rw [(effect h).queue hTouched]

end Thread

namespace System

variable {s t u : System δ} {e : Event}

theorem kept_of_work (hWork : s.IsWork e) (hStep : s.step e = some u) :
    u.realm.lifecycle = s.realm.lifecycle ∧ u.realm.queue.paused = s.realm.queue.paused := by
  obtain ⟨i, cue, th, rfl, hAt, hWorks⟩ := hWork
  obtain ⟨r', th', crew, hThread, rfl⟩ := step_advance_at hAt hStep
  exact ⟨((Thread.effect hThread).lifecycle hWorks.lifecycle_not_touched).1,
    Thread.paused_of_works hWorks hThread⟩

/-- The work admits nothing. -/
theorem admissions_of_work (hWork : s.IsWork e) : s.admissions e = [] := by
  obtain ⟨i, cue, th, rfl, hAt, hWorks⟩ := hWork
  refine List.eq_nil_iff_forall_not_mem.mpr fun ⟨a, record⟩ hMem => ?_
  obtain ⟨_, _, _, hEvent, hThread, hCreating, -⟩ := creating_of_mem_admissions hMem
  cases hEvent
  rw [hAt] at hThread
  cases hThread
  rcases hWorks with ⟨w, rfl⟩ | hJoins
  · cases hCreating
  · rw [Thread.joining, hCreating] at hJoins
    exact hJoins rfl

-- ---------------------------------------------------------------------------
-- There are workers
-- ---------------------------------------------------------------------------

/-- A worker stays a worker. -/
theorem worker_stays {i : Nat} {w : Worker δ} (hStep : s.step e = some u)
    (hAt : s.threads[i]? = some (.worker w)) : ∃ w', u.threads[i]? = some (.worker w') := by
  by_cases hOwn : ∃ cue, e = .advance i cue
  · obtain ⟨cue, rfl⟩ := hOwn
    obtain ⟨r', th', crew, hThread, rfl⟩ := step_advance_at hAt hStep
    obtain ⟨w', -, rfl, -⟩ := Thread.step_worker hThread
    exact ⟨w', thread_of_advance_self hAt⟩
  · exact ⟨w, thread_of_step_of_ne hStep hAt fun cue hEq => hOwn ⟨cue, hEq⟩⟩

/-- Only the last step of a start makes a realm one that is running. -/
theorem opening_of_running {th th' : Thread δ} {crew : List (Thread δ)}
    (h : th.step cue r = some (r', th', crew)) (hAfter : r'.lifecycle = .running)
    (hBefore : r.lifecycle ≠ .running) : th = .caller (.starting .opening) := by
  by_contra hNot
  by_cases hStart : ∃ point, th = .caller (.starting point)
  · obtain ⟨point, rfl⟩ := hStart
    have hOther : point ≠ .opening := fun hEq => hNot (by rw [hEq])
    rcases Thread.step_starting h with ⟨_, hPoint, -⟩ | ⟨_, _, hPoint, -⟩ <;>
      exact hBefore (((Startup.kept_of_step hPoint).2 hOther).symm.trans hAfter)
  · by_cases hStop : ∃ point, th = .caller (.stopping point)
    · obtain ⟨point, rfl⟩ := hStop
      have hSame : r'.lifecycle = r.lifecycle ∨ r'.lifecycle = .shutDown := by
        cases hLocked : point.locked with
        | true =>
          rcases Thread.step_stopping h with ⟨_, hPoint, -⟩ | ⟨_, _, hPoint, -⟩ <;>
            exact .inl (Shutdown.step_locked hLocked hPoint).1
        | false =>
          cases point with
          | waiting =>
            rcases Thread.step_stopping h with ⟨_, hPoint, -⟩ | ⟨_, _, hPoint, -⟩ <;>
              obtain ⟨-, ⟨_, -, rfl⟩ | ⟨_, -, rfl⟩⟩ := Shutdown.step_waiting hPoint <;>
              first
              | exact .inl rfl
              | exact .inr rfl
          | marking | closing | draining | striking | interrupting | finishing => cases hLocked
      rcases hSame with hSame | hShutDown
      · exact hBefore (hSame.symm.trans hAfter)
      · rw [hShutDown] at hAfter
        cases hAfter
    · obtain ⟨hSame, -⟩ := (Thread.effect h).lifecycle (Thread.lifecycle_not_touched
        (fun p hEq => hStart ⟨p, hEq⟩) fun p hEq => hStop ⟨p, hEq⟩)
      exact hBefore (hSame.symm.trans hAfter)

variable {settings : RealmSettings} {registry : Registry δ} {store : Store} {events : List Event}

/-- A realm that is running has a worker. -/
theorem worker_of_running (hRun : (initial settings registry store).run events = some u)
    (hRunning : u.realm.lifecycle = .running) : ∃ (i : Nat) (w : Worker δ),
      u.threads[i]? = some (.worker w) := by
  refine run_induction (motive := fun _ u => u.realm.lifecycle = .running →
    ∃ (i : Nat) (w : Worker δ), u.threads[i]? = some (.worker w)) hRun nofun ?_ hRunning
  intro before t e v _ hStep ih hRunning
  by_cases hBefore : t.realm.lifecycle = .running
  · obtain ⟨i, w, hAt⟩ := ih hBefore
    exact ⟨i, worker_stays hStep hAt⟩
  · cases e with
    | call call =>
      cases hStep
      exact absurd hRunning hBefore
    | sweep cutoff =>
      cases hStep
      exact absurd hRunning hBefore
    | advance i cue =>
      obtain ⟨th, r', th', crew, hAt, hThread, rfl⟩ := step_advance hStep
      obtain rfl := opening_of_running hThread hRunning hBefore
      have hCrew : Thread.worker .idle ∈ crew := by
        cases hThread
        exact List.mem_append_left _ (List.mem_replicate.mpr
          ⟨Nat.pos_iff_ne_zero.mp (Nat.le_max_right _ 1), rfl⟩)
      obtain ⟨j, hj⟩ := List.mem_iff_getElem?.mp (List.mem_append_right (t.threads.set i th') hCrew)
      exact ⟨j, .idle, hj⟩

/-- A worker retires only when the realm stops. -/
theorem stopping_of_retired (hRun : (initial settings registry store).run events = some u)
    {i : Nat} (hAt : u.threads[i]? = some (.worker .retired)) : u.realm.stopping = true := by
  refine run_induction (motive := fun _ u => u.threads[i]? = some (.worker .retired) →
    u.realm.stopping = true) hRun nofun ?_ hAt
  intro before t e v hBefore hStep ih hAt
  refine stopping_of_step hStep ?_
  rcases worker_of_step hStep hAt with hOld | hIdle | ⟨cue, w, -, -, hWorker⟩
  · exact ih hOld
  · cases hIdle
  · cases Worker.goes_of_step hWorker with
    | rests =>
      simp only [Worker.step] at hWorker
      split at hWorker
      · next hClosed => exact stopping_of_closed hBefore hClosed
      · obtain ⟨_, -, hEq⟩ := Option.map_eq_some_iff.mp hWorker
        cases (Prod.mk.inj hEq).2
    | halts id hStopping => exact hStopping
    | settles record t' _ next =>
      rcases next with ⟨updated, hEq | hEq | hEq⟩ | hEq <;> cases hEq

-- ---------------------------------------------------------------------------
-- There is work until it is done
-- ---------------------------------------------------------------------------

end System

/-- A worker that is not idle waits for nothing. -/
theorem Worker.exists_step {w : Worker δ} (hIdle : w ≠ .idle) (hRetired : w ≠ .retired)
    (cue : Cue) (r : Realm δ) : ∃ x, w.step cue r = some x := by
  cases w with
  | idle => exact absurd rfl hIdle
  | retired => exact absurd rfl hRetired
  | claiming | claimed | recording | withdrawing =>
    simp only [step]
    split <;> exact ⟨_, rfl⟩
  | taken | entering | executing | judging | requeueing | finishing | leaving => exact ⟨_, rfl⟩

/-- Who works waits for nothing but entries of the queue. -/
theorem Thread.exists_step {th : Thread δ} (hWorks : th.Works) (hIdle : th ≠ .worker .idle)
    (hRetired : th ≠ .worker .retired) (cue : Cue) (r : Realm δ) : ∃ x, th.step cue r = some x := by
  rcases hWorks with ⟨w, rfl⟩ | hJoins
  · obtain ⟨x, hStep⟩ := Worker.exists_step (fun hEq => hIdle (congrArg Thread.worker hEq))
      (fun hEq => hRetired (congrArg Thread.worker hEq)) cue r
    exact ⟨_, Option.map_eq_some_iff.mpr ⟨x, hStep, rfl⟩⟩
  · obtain ⟨a, record, hAdmission | hAdmission⟩ := admission_of_joining hJoins <;>
      unfold admission? at hAdmission <;> split at hAdmission <;> cases hAdmission <;>
      exact ⟨_, rfl⟩

namespace System

variable {s t u : System δ} {events more : List Event} {settings : RealmSettings}
  {registry : Registry δ} {store : Store}

/-- Nothing waits in the queue, and whoever works is an idle worker. -/
structure Done (s : System δ) : Prop where
  entries : s.realm.queue.entries = []
  threads : ∀ {i : Nat} {th}, s.threads[i]? = some th → th.Works → th = .worker .idle

theorem exists_step_advance {i : Nat} {th : Thread δ} {cue : Cue} (hAt : s.threads[i]? = some th)
    (hThread : ∃ x, th.step cue s.realm = some x) : ∃ v, s.step (.advance i cue) = some v := by
  obtain ⟨x, hx⟩ := hThread
  exact ⟨⟨x.1, s.threads.set i x.2.1 ++ x.2.2⟩, by simp [step, hAt, hx]⟩

/-- In a realm that is running and neither paused nor stopping the work is done, or there is a
thread that can go on with it, now or later. -/
theorem working_or_done (hRun : (initial settings registry store).run events = some u)
    (hRunning : u.realm.lifecycle = .running) (hGoes : u.realm.queue.paused = false)
    (hGoesOn : u.realm.stopping = false) :
    (∃ i now, ∀ cue : Cue, cue.now = now →
      u.IsWork (.advance i cue) ∧ ∃ v, u.step (.advance i cue) = some v) ∨ u.Done := by
  by_cases hBusy : ∃ (i : Nat) (th : Thread δ),
      u.threads[i]? = some th ∧ th.Works ∧ th ≠ .worker .idle
  · obtain ⟨i, th, hAt, hWorks, hIdle⟩ := hBusy
    have hRetired : th ≠ .worker .retired := by
      rintro rfl
      exact absurd ((stopping_of_retired hRun hAt).symm.trans hGoesOn) nofun
    exact .inl ⟨i, default, fun cue _ => ⟨⟨i, cue, th, rfl, hAt, hWorks⟩,
      exists_step_advance hAt (Thread.exists_step hWorks hIdle hRetired cue u.realm)⟩⟩
  · have hOnlyIdle : ∀ {i : Nat} {th}, u.threads[i]? = some th → th.Works →
        th = .worker .idle := by
      intro i th hAt hWorks
      by_contra hIdle
      exact hBusy ⟨i, th, hAt, hWorks, hIdle⟩
    by_cases hEntries : u.realm.queue.entries = []
    · exact .inr ⟨hEntries, hOnlyIdle⟩
    · obtain ⟨i, w, hAt⟩ := worker_of_running hRun hRunning
      obtain rfl : w = .idle := by cases hOnlyIdle hAt (.inl ⟨w, rfl⟩); rfl
      have hOpen := open_of_run hRun hGoesOn
      obtain ⟨now, x, hTake⟩ := Queue.exists_take? hOpen hGoes hEntries
      refine .inl ⟨i, now, fun cue hNow => ⟨⟨i, cue, _, rfl, hAt, .inl ⟨_, rfl⟩⟩,
        exists_step_advance hAt ?_⟩⟩
      subst hNow
      simp [Thread.step, Worker.step, hOpen, hTake]

-- ---------------------------------------------------------------------------
-- Runs of work
-- ---------------------------------------------------------------------------

/-- A run in which nothing happens but the work. -/
inductive Toils : System δ → List Event → System δ → Prop
  | nil (s : System δ) : Toils s [] s
  | cons {s t u : System δ} {e : Event} {events : List Event} (work : s.IsWork e)
    (step : s.step e = some t) (more : Toils t events u) : Toils s (e :: events) u

namespace Toils

theorem run (h : s.Toils more u) : s.run more = some u := by
  induction h with
  | nil => rfl
  | cons _ hStep _ ih => rw [System.run, hStep, Option.bind_some, ih]

theorem append {rest : List Event} (h : s.Toils more t) (h' : t.Toils rest u) :
    s.Toils (more ++ rest) u := by
  induction h with
  | nil => exact h'
  | cons hWork hStep _ ih => exact .cons hWork hStep (ih h')

theorem kept (h : s.Toils more u) :
    u.realm.lifecycle = s.realm.lifecycle ∧ u.realm.queue.paused = s.realm.queue.paused := by
  induction h with
  | nil => exact ⟨rfl, rfl⟩
  | cons hWork hStep _ ih =>
    obtain ⟨hLifecycle, hPaused⟩ := kept_of_work hWork hStep
    exact ⟨ih.1.trans hLifecycle, ih.2.trans hPaused⟩

/-- Nobody calls while nothing happens but the work. -/
theorem spares (h : s.Toils more u) (id : JobId) : ∀ e ∈ more, e.Spares id := by
  induction h with
  | nil => exact nofun
  | cons hWork _ _ ih =>
    rintro e (_ | ⟨_, hMem⟩)
    · obtain ⟨_, _, _, rfl, -⟩ := hWork
      exact ⟨nofun, nofun⟩
    · exact ih e hMem

/-- The work admits nothing. -/
theorem admissions_eq (h : s.Toils more u) : s.trail admissions more = [] := by
  induction h with
  | nil => rfl
  | cons hWork hStep _ ih =>
    rw [trail, admissions_of_work hWork, hStep]
    exact ih

theorem runIds_eq (h : t.Toils more u) (hRun : s.run events = some t) :
    s.runIds (events ++ more) = s.runIds events := by
  rw [runIds_append hRun, h.admissions_eq, List.map_nil, List.append_nil]

/-- The work does not go on for longer than there is any. -/
theorem length_le (h : t.Toils more u)
    (hRun : (initial settings registry store).run events = some t)
    (hIds : ((initial settings registry store).runIds events).Nodup) :
    more.length + u.labor ≤ t.labor := by
  induction h generalizing events with
  | nil => rw [List.length_nil, Nat.zero_add]
  | @cons s t u e rest hWork hStep _ ih =>
    have hLess : t.labor < s.labor := labor_lt_of_work hWork hStep fun hAt hQueued =>
      ((accounted_of_run hRun hIds).busy ⟨hAt, rfl⟩ hQueued).2.1
    have hLater := ih (run_concat_of_run hRun hStep) (by
      rw [runIds_concat hRun, admissions_of_work hWork, List.map_nil, List.append_nil]
      exact hIds)
    rw [List.length_cons]
    omega

end Toils

end System

end BackgroundJobs
