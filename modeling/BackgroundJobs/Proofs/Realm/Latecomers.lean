import BackgroundJobs.Proofs.Realm.Dispatch
import BackgroundJobs.Proofs.Realm.Firing
import BackgroundJobs.Proofs.Realm.Recovery

/-!
# Proofs — who is still admitted by a realm that stops

A shutdown sets the mark that the realm stops, and closes the queue. A submission
looks at the mark with its first step, and the timer before each of its passes;
neither looks again. So whoever looks after the mark was set makes no run any
more, and whoever has looked before goes on: it may create a record long after
the shutdown has returned, and report it, although the closed queue has ignored
the run, so that nobody will ever take it up.

Main results:

* `mayAdmit_of_run`      — once the mark is set, nobody else comes to make runs.
* `assured_of_run`       — what was reported was put into the queue, or is late.
* `latecomers_of_run`    — what a shutdown stops, and what it does not.
* `admitted_after_shutdown` — a submission and a trigger that come through.
-/

namespace BackgroundJobs

variable {δ : Type} {cue : Cue} {r r' : Realm δ} {th th' : Thread δ} {crew : List (Thread δ)}
  {a : Admission}

-- ---------------------------------------------------------------------------
-- Who may still make runs
-- ---------------------------------------------------------------------------

/-- Has the timer looked at the mark of its realm, and not come back to rest since? -/
def Timer.underWay : Timer → Bool
  | .resting | .retired => false
  | .waiting _ | .passing .. | .checking .. | .firing .. | .noting .. => true

/-- May a thread make the run of an admission without another look at the mark of its realm? A
submission may make its own, and the timer, while it is under way, those of triggers. -/
def Thread.MayAdmit (a : Admission) : Thread δ → Prop
  | .caller (.admitting b _) => b = a
  | .timer w => w.underWay = true ∧ a.triggerId.isSome = true
  | _ => False

namespace Thread

/-- Whoever is busy with an admission may make its run. -/
theorem mayAdmit_of_admission {point : AdmissionPoint} (hBound : th.Bound)
    (h : th.admission? = some (a, point)) : th.MayAdmit a := by
  cases th with
  | caller callPoint =>
    cases callPoint with
    | admitting b p =>
      cases h
      rfl
    | _ => cases h
  | timer w =>
    have hTrigger := hBound a point h
    cases w with
    | firing now id rest b p => exact ⟨rfl, by rw [hTrigger]; rfl⟩
    | _ => cases h
  | worker w => cases h
  | answered answer => cases h

/-- In a realm that stops, nobody comes to make runs who could not make them before. -/
theorem mayAdmit_of_step (hStops : r.stopping = true)
    (h : th.step cue r = some (r', th', crew)) :
    (th'.MayAdmit a → th.MayAdmit a) ∧ ∀ x ∈ crew, ¬x.MayAdmit a := by
  refine ⟨fun hMay => ?_, fun x hx hMay => ?_⟩
  · cases th with
    | caller point =>
      rcases step_caller h with ⟨next, hStep, rfl, -⟩ | ⟨answer, -, rfl, -⟩
      · cases point with
        | made call =>
          obtain ⟨-, hOpens⟩ := Call.opens_of_begin hStep
          cases hOpens with
          | submit request b =>
            -- the mark turns the submission away
            simp [CallPoint.step, Call.begin, hStops, Call.finish] at hStep
          | start | shutdown | cancel | schedule | declare => exact hMay.elim
        | admitting b p =>
          obtain ⟨x, -, hLift⟩ := Option.map_eq_some_iff.mp hStep
          obtain ⟨q, -, rfl⟩ := CallPoint.lift_eq_at hLift
          exact hMay
        | canceling p =>
          obtain ⟨q, -, rfl⟩ := CallPoint.lift_eq_at (Option.some.inj hStep)
          exact hMay.elim
        | starting p | stopping p | scheduling p | declaring p =>
          obtain ⟨x, -, hLift⟩ := Option.map_eq_some_iff.mp hStep
          obtain ⟨q, -, rfl⟩ := CallPoint.lift_eq_at hLift
          exact hMay.elim
      · exact hMay.elim
    | timer w =>
      obtain ⟨w', hStep, rfl, -⟩ := step_timer h
      refine ⟨?_, hMay.2⟩
      cases w with
      | resting =>
        -- the mark sends the timer away
        simp only [Timer.step, hStops, if_true, Option.some.injEq, Prod.mk.injEq] at hStep
        obtain ⟨-, rfl⟩ := hStep
        exact hMay.1
      | retired => cases hStep
      | waiting | passing | checking | firing | noting => rfl
    | worker w =>
      obtain ⟨w', -, rfl, -⟩ := step_worker h
      exact hMay.elim
    | answered answer => cases h
  · rcases crew_of_step h x hx with rfl | rfl
    · exact hMay
    · cases hMay.1

end Thread

namespace System

variable {s t u : System δ} {e : Event} {events more : List Event}

/-- Is there someone who may make the run of an admission without another look at the mark? -/
def MayAdmit (s : System δ) (a : Admission) : Prop :=
  ∃ th ∈ s.threads, th.MayAdmit a

theorem mayAdmit_of_step (hStops : s.realm.stopping = true) (hStep : s.step e = some u)
    (h : u.MayAdmit a) : s.MayAdmit a := by
  obtain ⟨x, hx, hMay⟩ := h
  obtain ⟨j, hAt⟩ := List.getElem?_of_mem hx
  cases e with
  | call call =>
    cases hStep
    rcases threads_of_call hAt with hOld | ⟨-, rfl⟩
    · exact ⟨x, List.mem_of_getElem? hOld, hMay⟩
    · exact hMay.elim
  | sweep cutoff =>
    cases hStep
    exact ⟨x, hx, hMay⟩
  | advance i cue =>
    obtain ⟨th, r', th', crew, hThread, hAdvance, rfl⟩ := step_advance hStep
    obtain ⟨hOwn, hCrew⟩ := Thread.mayAdmit_of_step (a := a) hStops hAdvance
    rcases threads_of_advance hAt with ⟨-, rfl⟩ | ⟨-, hOld⟩ | ⟨-, hMem⟩
    · exact ⟨th, List.mem_of_getElem? hThread, hOwn hMay⟩
    · exact ⟨x, List.mem_of_getElem? hOld, hMay⟩
    · exact (hCrew x hMem hMay).elim

/-- Once the mark is set, it stays, and whoever may make runs could make them at that time. -/
theorem mayAdmit_of_run (hStops : t.realm.stopping = true) (hMore : t.run more = some u) :
    u.realm.stopping = true ∧ ∀ a, u.MayAdmit a → t.MayAdmit a :=
  run_induction (motive := fun _ u => u.realm.stopping = true ∧ ∀ a, u.MayAdmit a → t.MayAdmit a)
    hMore ⟨hStops, fun _ h => h⟩ fun _ _ _ _ _ hStep ih =>
      ⟨stopping_of_step hStep ih.1, fun a h => ih.2 a (mayAdmit_of_step ih.1 hStep h)⟩

-- ---------------------------------------------------------------------------
-- What was put into the queue
-- ---------------------------------------------------------------------------

/-- The ids that an event puts into the queue. -/
def enqueued (s : System δ) (e : Event) : List JobId :=
  (s.step e).elim [] fun u => u.realm.queue.ids.drop s.realm.queue.ids.length

/-- The runs that an event counts as made by a trigger. -/
def spawns (s : System δ) : Event → List JobId
  | .advance i _ =>
    match s.threads[i]? with
    | some (.timer (.noting _ _ _ (some id))) => [id]
    | _ => []
  | _ => []

end System

-- ---------------------------------------------------------------------------
-- What is reported
-- ---------------------------------------------------------------------------

/-- The run that a thread has made and tried to put into the queue: it is about to report it, or has
just done so. -/
def Thread.made? : Thread δ → Option JobId
  | .caller (.admitting _ (.counting record)) => some record.id
  | .timer (.firing _ _ _ _ (.counting record)) => some record.id
  | .timer (.noting _ _ _ made) => made
  | .answered (.ok (.job id)) => some id
  | _ => none

namespace Admission

variable {point : AdmissionPoint} {record : JobRecord}

theorem queueing_of_step (h : a.step cue r point = some (r', .at (.counting record))) :
    point = .queueing record := by
  cases point with
  | waiting => simp only [step] at h; split at h <;> cases h
  | checking =>
    obtain ⟨-, -, hNext⟩ := step_checking h
    cases hNext
  | creating made => simp only [step] at h; split at h <;> cases h
  | queueing made =>
    cases h
    rfl
  | counting made => cases h

theorem counting_of_step (h : a.step cue r point = some (r', .done (.ok record))) :
    point = .counting record := by
  cases point with
  | waiting => simp only [step] at h; split at h <;> cases h
  | checking =>
    simp only [step] at h
    split at h
    · cases h
    · split at h <;> cases h
  | creating made => simp only [step] at h; split at h <;> cases h
  | queueing made => cases h
  | counting made =>
    cases h
    rfl

end Admission

/-- Only a submission is answered with the id of a run. -/
theorem Call.begin_ne_job {call : Call} {id : JobId} :
    call.begin cue r ≠ some (r', .done (.ok (.job id))) := by
  intro h
  cases call with
  | submit request =>
    simp only [begin] at h
    split at h
    · cases h
    · split at h
      · cases h
      · split at h <;> cases h
  | status other =>
    cases hFound : r.find cue other <;> simp [begin, finish, hFound, Except.map] at h
  | list filter =>
    cases hAsked : r.ask cue (·.list filter) <;> simp [begin, finish, hAsked, storeAnswer] at h
  | listGroup group =>
    cases hGroup : r.resolveGroup (some group) with
    | error e => simp [begin, finish, hGroup, bind, Except.bind] at h
    | ok group =>
      cases hAsked : r.ask cue (·.list { groups := [group] }) <;>
        simp [begin, finish, hGroup, hAsked, storeAnswer, bind, Except.bind] at h
  | delete ids =>
    cases hTold : (r.tell cue fun s => .ok (s.deleteTerminal ids)).1 <;>
      simp [begin, finish, hTold, storeAnswer] at h
  | purge =>
    simp only [begin] at h
    split at h
    · cases h
    · next cutoff _ =>
      cases hTold : (r.tell cue fun s => .ok (s.deleteFinishedBefore cutoff)).1 <;>
        simp [finish, hTold, storeAnswer] at h
  | reschedule other times | unschedule other =>
    simp only [begin, onTrigger] at h
    split at h
    · cases h
    · split at h <;> cases h
  | triggers => simp only [begin] at h; split at h <;> cases h
  | start | shutdown | pause | unpause | cancel | schedule | declare | stats => cases h

theorem CallPoint.counting_of_done {point : CallPoint} {id : JobId}
    (h : point.step cue r = some (r', .done (.ok (.job id)))) :
    ∃ a record, point = .admitting a (.counting record) ∧ record.id = id := by
  cases point with
  | made call => exact absurd h Call.begin_ne_job
  | admitting a p =>
    obtain ⟨x, hStep, hLift⟩ := Option.map_eq_some_iff.mp h
    obtain ⟨result, rfl, hAnswer⟩ := lift_eq_done hLift
    cases result with
    | error e => cases hAnswer
    | ok record =>
      cases hAnswer
      cases Admission.counting_of_step hStep
      exact ⟨a, record, rfl, rfl⟩
  | canceling p =>
    obtain ⟨result, -, hAnswer⟩ := lift_eq_done (Option.some.inj h)
    cases result <;> cases hAnswer
  | starting p | stopping p | scheduling p | declaring p =>
    obtain ⟨x, -, hLift⟩ := Option.map_eq_some_iff.mp h
    obtain ⟨result, -, hAnswer⟩ := lift_eq_done hLift
    first | cases hAnswer | (cases result <;> cases hAnswer)

namespace Thread

/-- A thread reports what it reported before, or what it has just tried to put into the queue. -/
theorem made_of_step {id : JobId} (h : th.step cue r = some (r', th', crew))
    (hMade : th'.made? = some id) :
    th.made? = some id ∨
      ∃ a record, th.admission? = some (a, .queueing record) ∧ record.id = id := by
  cases th with
  | caller point =>
    rcases step_caller h with ⟨next, hStep, rfl, -⟩ | ⟨answer, hStep, rfl, -⟩
    · cases point with
      | made call =>
        obtain ⟨-, hOpens⟩ := Call.opens_of_begin hStep
        cases hOpens <;> cases hMade
      | admitting b p =>
        obtain ⟨x, hAdmission, hLift⟩ := Option.map_eq_some_iff.mp hStep
        obtain ⟨q, rfl, rfl⟩ := CallPoint.lift_eq_at hLift
        cases q with
        | counting record =>
          cases hMade
          cases Admission.queueing_of_step hAdmission
          exact .inr ⟨b, record, rfl, rfl⟩
        | waiting | checking | creating | queueing => cases hMade
      | canceling p =>
        obtain ⟨q, -, rfl⟩ := CallPoint.lift_eq_at (Option.some.inj hStep)
        cases hMade
      | starting p | stopping p | scheduling p | declaring p =>
        obtain ⟨x, -, hLift⟩ := Option.map_eq_some_iff.mp hStep
        obtain ⟨q, -, rfl⟩ := CallPoint.lift_eq_at hLift
        cases hMade
    · cases answer with
      | error e => cases hMade
      | ok reply =>
        cases reply with
        | job made =>
          cases hMade
          obtain ⟨b, record, rfl, rfl⟩ := CallPoint.counting_of_done hStep
          exact .inl rfl
        | _ => cases hMade
  | timer w =>
    obtain ⟨w', hStep, rfl, -⟩ := step_timer h
    have hFire : ∀ (r₁ : Realm δ) now trigger rest e,
        (timer (Timer.fire cue r₁ now trigger rest e) : Thread δ).made? = none := by
      intro r₁ now trigger rest e
      unfold Timer.fire
      split <;> rfl
    cases w with
    | firing now trigger rest b p =>
      obtain ⟨⟨r₁, progress⟩, hAdmission, hEq⟩ := Option.map_eq_some_iff.mp hStep
      cases progress with
      | «at» q =>
        cases hEq
        cases q with
        | counting record =>
          cases hMade
          cases Admission.queueing_of_step hAdmission
          exact .inr ⟨b, record, rfl, rfl⟩
        | waiting | checking | creating | queueing => cases hMade
      | done result =>
        cases result <;> cases hEq
        · cases hMade
        · cases Admission.counting_of_step hAdmission
          exact .inl hMade
    | resting =>
      cases hStep
      split at hMade <;> cases hMade
    | waiting now =>
      simp only [Timer.step] at hStep
      split at hStep <;> cases hStep
      cases hMade
    | passing now rest =>
      cases rest with
      | nil =>
        cases hStep
        cases hMade
      | cons trigger rest =>
        simp only [Timer.step] at hStep
        split at hStep
        · cases hStep
          cases hMade
        · split at hStep
          · split at hStep <;> cases hStep
            · cases hMade
            · rw [hFire] at hMade
              cases hMade
          · cases hStep
            cases hMade
    | checking now trigger last rest =>
      simp only [Timer.step] at hStep
      split at hStep <;> cases hStep
      · rw [hFire] at hMade
        cases hMade
      · cases hMade
    | noting now trigger rest made =>
      cases made <;> cases hStep <;> cases hMade
    | retired => cases hStep
  | worker w =>
    obtain ⟨w', -, rfl, -⟩ := step_worker h
    cases hMade
  | answered answer => cases h

end Thread

-- ---------------------------------------------------------------------------
-- What was reported was put into the queue
-- ---------------------------------------------------------------------------

namespace System

variable {s t u : System δ} {e : Event} {events more : List Event} {id : JobId}
  {late : Admission → Prop}

/-- Was a run put into the queue, or else made by an admission that is excused? -/
def Assured (late : Admission → Prop) (s : System δ) (events : List Event) (id : JobId) : Prop :=
  id ∈ s.trail enqueued events ∨ ∃ x ∈ s.trail admissions events, late x.1 ∧ x.2.id = id

theorem Assured.append (h : s.Assured late events id) (hRun : s.run events = some t)
    (more : List Event) : s.Assured late (events ++ more) id := by
  rw [Assured, trail_append hRun, trail_append hRun]
  exact h.imp (List.mem_append_left _) fun ⟨x, hx, hLate⟩ => ⟨x, List.mem_append_left _ hx, hLate⟩

/-- Whoever puts a run into the queue has created it, and what is reported is assured. -/
structure Vouched (late : Admission → Prop) (s : System δ) (events : List Event)
    (u : System δ) : Prop where
  created : ∀ th ∈ u.threads, ∀ a record, th.admission? = some (a, .queueing record) →
    (a, record) ∈ s.trail admissions events
  made : ∀ th ∈ u.threads, ∀ id, th.made? = some id → s.Assured late events id
  spawned : ∀ id ∈ s.trail spawns events, s.Assured late events id

theorem mem_admissions_of_queueing {i : Nat} {record : JobRecord} (hAt : s.threads[i]? = some th)
    (h : th.step cue s.realm = some (r', th', crew))
    (hAfter : th'.admission? = some (a, .queueing record)) :
    (a, record) ∈ s.admissions (.advance i cue) := by
  rcases Thread.admission_of_step h hAfter with ⟨hWaiting, -⟩ | ⟨before, hBefore, hStep⟩
  · cases hWaiting
  · cases before with
    | waiting => simp only [Admission.step] at hStep; split at hStep <;> cases hStep
    | checking =>
      obtain ⟨-, -, hNext⟩ := Admission.step_checking hStep
      cases hNext
    | creating made =>
      simp only [Admission.step] at hStep
      split at hStep
      · next hTold =>
        cases hStep
        simp [admissions, hAt, hBefore, hTold]
      · cases hStep
    | queueing made | counting made => cases hStep

/-- A run is put into the queue, if that is open. -/
theorem queue_of_queueing {record : JobRecord} (h : th.step cue r = some (r', th', crew))
    (hBefore : th.admission? = some (a, .queueing record)) (hOpen : r.queue.closed = false) :
    r'.queue.ids = r.queue.ids ++ [record.id] := by
  obtain ⟨-, ⟨next, hStep, -⟩ | ⟨result, hStep, -⟩⟩ := Thread.admission_step hBefore h
  · cases hStep
    exact Queue.ids_push_of_open hOpen record.id none
  · cases hStep

theorem Vouched.step (h : Vouched late s events t) (hRun : s.run events = some t)
    (hStep : t.step e = some u)
    (hLate : t.realm.queue.closed = true → ∀ th ∈ t.threads, ∀ a record,
      th.admission? = some (a, .queueing record) → late a) :
    Vouched late s (events ++ [e]) u where
  created x hx a record hQueueing := by
    rw [trail_concat hRun, List.mem_append]
    obtain ⟨j, hj⟩ := List.getElem?_of_mem hx
    cases e with
    | call call =>
      cases hStep
      rcases threads_of_call hj with hOld | ⟨-, rfl⟩
      · exact .inl (h.created x (List.mem_of_getElem? hOld) a record hQueueing)
      · cases hQueueing
    | sweep cutoff =>
      cases hStep
      exact .inl (h.created x hx a record hQueueing)
    | advance i cue =>
      obtain ⟨th, r', th', crew, hAt, hThread, rfl⟩ := step_advance hStep
      rcases threads_of_advance hj with ⟨-, rfl⟩ | ⟨-, hOld⟩ | ⟨-, hMem⟩
      · exact .inr (mem_admissions_of_queueing hAt hThread hQueueing)
      · exact .inl (h.created x (List.mem_of_getElem? hOld) a record hQueueing)
      · rcases Thread.crew_of_step hThread x hMem with rfl | rfl <;> cases hQueueing
  made x hx id hMade := by
    obtain ⟨j, hj⟩ := List.getElem?_of_mem hx
    cases e with
    | call call =>
      cases hStep
      rcases threads_of_call hj with hOld | ⟨-, rfl⟩
      · exact (h.made x (List.mem_of_getElem? hOld) id hMade).append hRun _
      · cases hMade
    | sweep cutoff =>
      cases hStep
      exact (h.made x hx id hMade).append hRun _
    | advance i cue =>
      obtain ⟨th, r', th', crew, hAt, hThread, rfl⟩ := step_advance hStep
      rcases threads_of_advance hj with ⟨-, rfl⟩ | ⟨-, hOld⟩ | ⟨-, hMem⟩
      · have hTh := List.mem_of_getElem? hAt
        rcases Thread.made_of_step hThread hMade with hBefore | ⟨a, record, hQueueing, rfl⟩
        · exact (h.made th hTh id hBefore).append hRun _
        · cases hClosed : t.realm.queue.closed with
          | false =>
            have hIds := queue_of_queueing hThread hQueueing hClosed
            rw [Assured, trail_concat hRun]
            refine .inl (List.mem_append_right _ ?_)
            simp [enqueued, hStep, hIds]
          | true =>
            have hCreated := h.created th hTh a record hQueueing
            rw [Assured, trail_concat hRun, trail_concat hRun]
            exact .inr ⟨(a, record), List.mem_append_left _ hCreated,
              hLate hClosed th hTh a record hQueueing, rfl⟩
      · exact (h.made x (List.mem_of_getElem? hOld) id hMade).append hRun _
      · rcases Thread.crew_of_step hThread x hMem with rfl | rfl <;> cases hMade
  spawned id hId := by
    rw [trail_concat hRun, List.mem_append] at hId
    rcases hId with hOld | hNew
    · exact (h.spawned id hOld).append hRun _
    · cases e with
      | call call => cases hNew
      | sweep cutoff => cases hNew
      | advance i cue =>
        simp only [spawns] at hNew
        split at hNew
        · next hAt =>
          cases List.mem_singleton.mp hNew
          exact (h.made _ (List.mem_of_getElem? hAt) id rfl).append hRun _
        · cases hNew

/-- A queue that was closed stays closed. -/
theorem closed_of_step (hStep : s.step e = some u) (hOpen : u.realm.queue.closed = false) :
    s.realm.queue.closed = false := by
  cases e with
  | call call =>
    cases hStep
    exact hOpen
  | sweep cutoff =>
    cases hStep
    exact hOpen
  | advance i cue =>
    obtain ⟨th, r', th', crew, -, hThread, rfl⟩ := step_advance hStep
    cases Thread.handling_of_step hThread with
    | leaves _ hSame => rw [← hSame]; exact hOpen
    | pushes other notBefore hQueue =>
      have hOpen : r'.queue.closed = false := hOpen
      rwa [hQueue, Queue.closed_push] at hOpen
    | removes record _ hQueue =>
      have hOpen : r'.queue.closed = false := hOpen
      rwa [hQueue] at hOpen
    | takes other now _ _ hTake => exact (Queue.take?_eq_some hTake).1
    | closes drain _ hQueue =>
      have hOpen : r'.queue.closed = false := hOpen
      rw [hQueue] at hOpen
      cases hOpen

variable {settings : RealmSettings} {registry : Registry δ} {store : Store}

/-- While the queue is open, and as long afterwards as only excused admissions come to it, whatever
is reported is assured. -/
theorem vouched_of_open (late : Admission → Prop)
    (hRun : (initial settings registry store).run events = some t)
    (hOpen : t.realm.queue.closed = false) :
    Vouched late (initial settings registry store) events t := by
  refine run_induction (motive := fun events t => t.realm.queue.closed = false →
    Vouched late (initial settings registry store) events t) hRun (fun _ => ?_) ?_ hOpen
  · exact ⟨fun _ hx => absurd hx List.not_mem_nil, fun _ hx => absurd hx List.not_mem_nil,
      fun _ hx => absurd hx List.not_mem_nil⟩
  · intro before v e w hBefore hStep ih hOpen
    have hOpen' := closed_of_step hStep hOpen
    exact (ih hOpen').step hBefore hStep fun hClosed => by rw [hOpen'] at hClosed; cases hClosed

/-- A realm is marked while its queue is open. From the beginning until long after the mark, every
run that is reported was put into the queue, but for those of admissions that were under way at
the mark. -/
theorem vouched_of_run (hRun : (initial settings registry store).run events = some t)
    (hOpen : t.realm.queue.closed = false) (hStops : t.realm.stopping = true)
    (hMore : t.run more = some u) :
    Vouched t.MayAdmit (initial settings registry store) (events ++ more) u := by
  refine run_induction (motive := fun more u =>
    Vouched t.MayAdmit (initial settings registry store) (events ++ more) u) hMore ?_ ?_
  · rw [List.append_nil]
    exact vouched_of_open t.MayAdmit hRun hOpen
  · intro before v e w hBefore hStep ih
    have hAll : (initial settings registry store).run (events ++ before) = some v := by
      rw [run_append_of_run hRun, hBefore]
    rw [← List.append_assoc]
    refine ih.step hAll hStep fun _ th hTh a record hQueueing => ?_
    obtain ⟨i, hAt⟩ := List.getElem?_of_mem hTh
    exact (mayAdmit_of_run hStops hBefore).2 a
      ⟨th, hTh, Thread.mayAdmit_of_admission (bound_of_run hAll hAt) hQueueing⟩

/-- A submission that looks at the mark when it is set is turned away. -/
theorem refused_of_run {i : Nat} {request : JobRequest} (hStops : s.realm.stopping = true)
    (hAt : s.threads[i]? = some (.caller (.made (.submit request))))
    (hRun : s.run events = some u) :
    u.threads[i]? = some (.caller (.made (.submit request))) ∨
      u.threads[i]? = some (.answered (.error (.shutDown s.realm.settings.name))) := by
  refine run_induction (motive := fun _ u =>
    u.threads[i]? = some (.caller (.made (.submit request))) ∨
      u.threads[i]? = some (.answered (.error (.shutDown s.realm.settings.name))))
    hRun (.inl hAt) ?_
  intro before t e v hBefore hStep ih
  by_cases hOwn : ∃ cue, e = .advance i cue
  · obtain ⟨cue, rfl⟩ := hOwn
    rcases ih with hWaits | hAnswered
    · obtain ⟨r', th', crew, hThread, rfl⟩ := step_advance_at hWaits hStep
      have hMarked := (mayAdmit_of_run hStops hBefore).1
      have hName := settings_of_run hBefore
      simp only [Thread.step, CallPoint.step, Call.begin, hMarked, if_true, Call.finish, hName,
        Option.map_some, Option.some.injEq, Prod.mk.injEq] at hThread
      obtain ⟨-, rfl, -⟩ := hThread
      exact .inr (thread_of_advance_self hWaits)
    · obtain ⟨r', th', crew, hThread, -⟩ := step_advance_at hAnswered hStep
      cases hThread
  · exact ih.imp
      (fun h => thread_of_step_of_ne hStep h fun cue hEq => hOwn ⟨cue, hEq⟩)
      (fun h => thread_of_step_of_ne hStep h fun cue hEq => hOwn ⟨cue, hEq⟩)

-- ---------------------------------------------------------------------------
-- What a shutdown stops
-- ---------------------------------------------------------------------------

/-- What comes of a realm once the mark that it stops is set. Submissions that come later are
turned away and make nothing. Records are created only for those that had looked at the mark
before, and if the queue was open then, every run that is reported before or after, to a caller or
by the count of a trigger, was put into the queue unless it is one of theirs. -/
theorem latecomers_of_run (hRun : (initial settings registry store).run events = some t)
    (hStops : t.realm.stopping = true) (hMore : t.run more = some u) :
    (∀ before request after v, more = before ++ .call (.submit request) :: after →
      t.run before = some v →
        u.threads[v.threads.length]? = some (.caller (.made (.submit request))) ∨
          u.threads[v.threads.length]? = some (.answered (.error (.shutDown settings.name)))) ∧
      (∀ x ∈ t.trail admissions more, t.MayAdmit x.1) ∧
      (t.realm.queue.closed = false →
        ∀ id, .answered (.ok (.job id)) ∈ u.threads ∨
            id ∈ (initial settings registry store).trail spawns (events ++ more) →
          id ∈ (initial settings registry store).trail enqueued (events ++ more) ∨
            ∃ x ∈ (initial settings registry store).trail admissions (events ++ more),
              t.MayAdmit x.1 ∧ x.2.id = id) := by
  refine ⟨fun before request after v hMoreEq hBefore => ?_, fun x hx => ?_, fun hOpen id hId => ?_⟩
  · -- the submission comes, and finds the mark
    subst hMoreEq
    rw [run_append_of_run hBefore] at hMore
    obtain ⟨w, hCall, hAfter⟩ := Option.bind_eq_some_iff.mp hMore
    cases hCall
    have hMarked := (mayAdmit_of_run hStops hBefore).1
    have hName : v.realm.settings = settings :=
      (settings_of_run hBefore).trans (settings_of_run hRun)
    rw [← hName]
    exact refused_of_run (s := ⟨v.realm, v.threads ++ [.caller (.made (.submit request))]⟩)
      hMarked List.getElem?_concat_length hAfter
  · obtain ⟨before, e, v, -, hBefore, hAdmits⟩ := exists_of_mem_trail hx
    obtain ⟨i, cue, th, -, hAt, hCreating, -⟩ := creating_of_mem_admissions hAdmits
    have hAll : (initial settings registry store).run (events ++ before) = some v := by
      rw [run_append_of_run hRun, hBefore]
    exact (mayAdmit_of_run hStops hBefore).2 x.1
      ⟨th, List.mem_of_getElem? hAt, Thread.mayAdmit_of_admission (bound_of_run hAll hAt) hCreating⟩
  · have hVouched := vouched_of_run hRun hOpen hStops hMore
    rcases hId with hAnswered | hSpawned
    · exact hVouched.made _ hAnswered id rfl
    · exact hVouched.spawned id hSpawned

/-- A request for a run, at once or again and again. -/
def requestFor (trigger : Trigger) : JobRequest :=
  { jobKey := "job", name := "job", group := none, arguments := Dict.empty,
    metadata := Dict.empty, constraints := [], retryPolicy := none, trigger }

/-- A step of a thread at a time, which also makes the identifiers different. -/
def advance (i n : Nat) : Event :=
  .advance i { now := ⟨n, 0⟩, fresh := ⟨BitVec.ofNat 128 n⟩ }

/-- The realm is started and a trigger is registered. A submission has looked at the mark, and the
timer is about to check the constraints of a run of the trigger, when a shutdown sets the mark. -/
def lookedBefore : List Event :=
  [.call .start, advance 0 1, advance 0 2, advance 0 3, advance 0 4, advance 0 5,
    .call (.schedule (requestFor (.recurring (.every (.ofSeconds 1))))),
    advance 3 6, advance 3 7, advance 3 8,
    .call (.submit (requestFor .immediate)), advance 4 9,
    advance 2 10, advance 2 11, advance 2 12, advance 2 13,
    .call .shutdown, advance 5 14, advance 5 15, advance 5 16]

/-- The shutdown goes on until it returns. -/
def shutDown : List Event :=
  [advance 5 17, advance 5 18, advance 5 19]

/-- Another submission comes. Then the timer goes on, and the first submission. -/
def comeThrough : List Event :=
  [.call (.submit (requestFor .immediate)), advance 6 20,
    advance 2 21, advance 2 22, advance 2 23, advance 2 24, advance 2 25,
    advance 4 26, advance 4 27, advance 4 28, advance 4 29, advance 4 30]

theorem latecomers_of_run_comeThrough :
    ∃ t u : System Unit,
      (initial { workers := 1 } ⟨Dict.empty.insert "job" ()⟩ Store.empty).run lookedBefore =
        some t ∧
      t.realm.stopping = true ∧ t.realm.queue.closed = false ∧
      t.run (shutDown ++ comeThrough) = some u ∧
      u.threads[6]? = some (.answered (.error (.shutDown "async"))) ∧
      (∀ x ∈ t.trail admissions (shutDown ++ comeThrough), t.MayAdmit x.1) ∧
      ∀ id, .answered (.ok (.job id)) ∈ u.threads →
        ∃ x ∈ (initial { workers := 1 } ⟨Dict.empty.insert "job" ()⟩ Store.empty :
          System Unit).trail admissions (lookedBefore ++ (shutDown ++ comeThrough)),
            t.MayAdmit x.1 ∧ x.2.id = id := by
  have hMark : ((initial { workers := 1 } ⟨Dict.empty.insert "job" ()⟩ Store.empty).run
      lookedBefore).map (fun t : System Unit => (t.realm.stopping, t.realm.queue.closed)) =
        some (true, false) := by
    decide +kernel
  have hEnd : (((initial { workers := 1 } ⟨Dict.empty.insert "job" ()⟩ Store.empty).run
      (lookedBefore ++ (shutDown ++ comeThrough))).bind fun u : System Unit => u.threads[6]?) =
        some (.answered (.error (.shutDown "async"))) := by
    with_unfolding_all rfl
  have hNothing : (initial { workers := 1 } ⟨Dict.empty.insert "job" ()⟩ Store.empty :
      System Unit).trail enqueued (lookedBefore ++ (shutDown ++ comeThrough)) = [] := by
    decide +kernel
  obtain ⟨t, hRun, hMarked⟩ := Option.map_eq_some_iff.mp hMark
  obtain ⟨hStops, hOpen⟩ := Prod.mk.inj hMarked
  rw [run_append_of_run hRun] at hEnd
  obtain ⟨u, hMore, hRefused⟩ := Option.bind_eq_some_iff.mp hEnd
  obtain ⟨-, hAdmits, hReports⟩ := latecomers_of_run hRun hStops hMore
  refine ⟨t, u, hRun, hStops, hOpen, hMore, hRefused, hAdmits, fun id hId => ?_⟩
  rcases hReports hOpen id (.inl hId) with hQueued | hLate
  · rw [hNothing] at hQueued
    cases hQueued
  · exact hLate

/-- A shutdown does not stop everybody: after it has returned, a trigger and a submission that have
looked at the mark before create two records, which wait in no queue. The trigger counts its run
as made, and the caller gets an id. -/
theorem admitted_after_shutdown :
    ∃ t u : System Unit,
      (initial { workers := 1 } ⟨Dict.empty.insert "job" ()⟩ Store.empty).run
        (lookedBefore ++ shutDown) = some t ∧
      t.threads[5]? = some (.answered (.ok (.report ⟨true, []⟩))) ∧
      t.run comeThrough = some u ∧
      (t.trail admissions comeThrough).map (·.2.id) = [⟨⟨21⟩⟩, ⟨⟨27⟩⟩] ∧
      t.trail spawns comeThrough = [⟨⟨21⟩⟩] ∧
      u.threads[4]? = some (.answered (.ok (.job ⟨⟨27⟩⟩))) ∧
      u.realm.store.idsIn .queued = [⟨⟨21⟩⟩, ⟨⟨27⟩⟩] ∧
      (initial { workers := 1 } ⟨Dict.empty.insert "job" ()⟩ Store.empty :
        System Unit).trail enqueued (lookedBefore ++ shutDown ++ comeThrough) = [] := by
  have hShut : ((initial { workers := 1 } ⟨Dict.empty.insert "job" ()⟩ Store.empty).run
      (lookedBefore ++ shutDown)).map (fun t : System Unit =>
        ((t.trail admissions comeThrough).map (·.2.id), t.trail spawns comeThrough)) =
        some ([⟨⟨21⟩⟩, ⟨⟨27⟩⟩], [⟨⟨21⟩⟩]) := by
    decide +kernel
  have hReturned : (((initial { workers := 1 } ⟨Dict.empty.insert "job" ()⟩ Store.empty).run
      (lookedBefore ++ shutDown)).bind fun t : System Unit => t.threads[5]?) =
        some (.answered (.ok (.report ⟨true, []⟩))) := by
    with_unfolding_all rfl
  have hStored : ((initial { workers := 1 } ⟨Dict.empty.insert "job" ()⟩ Store.empty).run
      (lookedBefore ++ shutDown ++ comeThrough)).map
        (fun u : System Unit => u.realm.store.idsIn .queued) = some [⟨⟨21⟩⟩, ⟨⟨27⟩⟩] := by
    decide +kernel
  have hAnswered : (((initial { workers := 1 } ⟨Dict.empty.insert "job" ()⟩ Store.empty).run
      (lookedBefore ++ shutDown ++ comeThrough)).bind fun u : System Unit => u.threads[4]?) =
        some (.answered (.ok (.job ⟨⟨27⟩⟩))) := by
    with_unfolding_all rfl
  obtain ⟨t, hRun, hSeen⟩ := Option.map_eq_some_iff.mp hShut
  obtain ⟨hAdmitted, hSpawned⟩ := Prod.mk.inj hSeen
  rw [hRun] at hReturned
  rw [run_append_of_run hRun] at hStored hAnswered
  obtain ⟨u, hMore, hWaiting⟩ := Option.map_eq_some_iff.mp hStored
  rw [hMore] at hAnswered
  exact ⟨t, u, hRun, hReturned, hMore, hAdmitted, hSpawned, hAnswered, hWaiting,
    by decide +kernel⟩

end System

end BackgroundJobs
