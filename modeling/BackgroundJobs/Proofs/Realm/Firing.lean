import BackgroundJobs.Proofs.Realm.Admissions
import BackgroundJobs.Proofs.Realm.Table

/-!
# Proofs — triggers that fire

The timer makes runs of the triggers that are in the table, and nobody else
makes runs of triggers. A trigger that was dropped makes no further run.

Main results:

* `triggerId_of_admissions`  — a record is admitted for the trigger at hand.
* `Registration.entry_eq_ok` — which requests are registered, and as what.
* `listed_of_run`            — the timer works on triggers that are in the table.
* `tableChange_of_step`      — what an event does to the table of triggers.
* `absent_of_run`            — a trigger that is not in the table makes no run.
* `unborn_of_run`            — nothing is known of a trigger before it is registered.
-/

namespace BackgroundJobs

variable {δ : Type} {cue : Cue} {r r' : Realm δ} {th th' : Thread δ} {crew : List (Thread δ)}
  {t : TriggerId}

-- ---------------------------------------------------------------------------
-- The trigger at hand
-- ---------------------------------------------------------------------------

/-- The trigger that the timer is working on. -/
def Timer.trigger? (w : Timer) : Option TriggerId :=
  w.pass?.bind (·.2.1)

def Thread.trigger? : Thread δ → Option TriggerId
  | .timer w => w.trigger?
  | _ => none

theorem Thread.patrols_of_trigger? (h : th.trigger? = some t) : th.patrols = true := by
  cases th with
  | timer w => cases w <;> first | rfl | cases h
  | caller | worker | answered => cases h

theorem Admission.triggerId_of_make {request : JobRequest} {triggerId : Option TriggerId}
    {a : Admission} (h : Admission.make r request triggerId = .ok a) : a.triggerId = triggerId := by
  simp only [make, bind, Except.bind] at h
  split at h
  · cases h
  · split at h <;> cases h
    rfl

/-- A thread that is busy with an admission stays with its trigger. -/
theorem Thread.trigger?_of_admission {busy : Admission × AdmissionPoint}
    (hBusy : th.admission? = some busy) (h : th.step cue r = some (r', th', crew)) :
    th'.trigger? = th.trigger? := by
  cases th with
  | caller callPoint =>
    rcases step_caller h with ⟨_, -, rfl, -⟩ | ⟨_, -, rfl, -⟩ <;> rfl
  | timer w =>
    obtain ⟨w', hStep, rfl, -⟩ := step_timer h
    cases w with
    | firing now id rest a point =>
      obtain ⟨x, -, hEq⟩ := Option.map_eq_some_iff.mp hStep
      split at hEq <;> cases hEq <;> rfl
    | resting | waiting | passing | checking | noting | retired => cases hBusy
  | worker | answered => cases hBusy

/-- An admission is made for the trigger that its thread works on, and for none otherwise. -/
def Thread.Bound (th : Thread δ) : Prop :=
  ∀ a point, th.admission? = some (a, point) → a.triggerId = th.trigger?

theorem Thread.bound_step (h : th.step cue r = some (r', th', crew)) (hBound : th.Bound) :
    th'.Bound ∧ ∀ x ∈ crew, x.Bound := by
  refine ⟨fun a point hAfter => ?_, fun x hx a point hAfter => ?_⟩
  · rcases admission_of_step h hAfter with
      ⟨-, ⟨_, hMake, rfl⟩ | ⟨_, _, _, _, hMake, rfl⟩⟩ | ⟨before, hBefore, -⟩
    · exact Admission.triggerId_of_make hMake
    · exact Admission.triggerId_of_make hMake
    · rw [trigger?_of_admission hBefore h]
      exact hBound a before hBefore
  · rcases crew_of_step h x hx with rfl | rfl <;> cases hAfter

namespace System

variable {s u v : System δ} {e : Event} {events more : List Event} {settings : RealmSettings}
  {registry : Registry δ} {store : Store}

theorem bound_of_run {r : Realm δ} (hRun : (ofRealm r).run events = some u) {i : Nat}
    (hAt : u.threads[i]? = some th) : th.Bound := by
  refine forall_threads_of_run (P := fun _ th => th.Bound) ?_ ?_ ?_ ?_ ?_ hRun i th hAt
  · intro _ call a point hNone
    cases hNone
  · intro cue r th r' th' crew hStep hBound
    exact Thread.bound_step hStep hBound
  · intro _ _ _ _ _ _ _ other hBound
    exact hBound
  · intro _ _ other hBound
    exact hBound
  · intro j x hx
    cases hx

/-- A record is admitted for the trigger that its thread works on. -/
theorem triggerId_of_admissions {r : Realm δ} (hRun : (ofRealm r).run events = some u) {i : Nat}
    {x : Admission × JobRecord} (hAt : u.threads[i]? = some th)
    (h : x ∈ u.admissions (.advance i cue)) : x.2.triggerId = th.trigger? := by
  obtain ⟨a, record⟩ := x
  obtain ⟨j, _, th₁, hEq, hAt₁, hCreating, -⟩ := creating_of_mem_admissions h
  cases hEq
  rw [hAt] at hAt₁
  cases hAt₁
  obtain ⟨id, now, rfl⟩ := made_of_run hRun hAt a _ record hCreating rfl
  exact bound_of_run hRun hAt a _ hCreating

end System

-- ---------------------------------------------------------------------------
-- Registered triggers
-- ---------------------------------------------------------------------------

/-- Could the realm make runs of the request: does it know the job and serve the group? -/
def Realm.Takes (r : Realm δ) (request : JobRequest) : Prop :=
  (∃ definition, r.registry.lookup request.jobKey = .ok definition) ∧
    ∃ group, r.resolveGroup request.group = .ok group

theorem Realm.takes_congr {request : JobRequest} (hSettings : r'.settings = r.settings)
    (hRegistry : r'.registry = r.registry) : r'.Takes request ↔ r.Takes request := by
  have hGroup : r'.resolveGroup request.group = r.resolveGroup request.group := by
    unfold resolveGroup
    rw [hSettings]
  rw [Takes, Takes, hRegistry, hGroup]

/-- A recurring request is registered by an open realm that could make runs of it. -/
theorem Registration.entry_eq_ok {request : JobRequest} {now : Instant} {entry : TriggerEntry} :
    Registration.entry r request now = .ok entry ↔ r.stopping = false ∧ r.Takes request ∧
      ∃ schedule, request.trigger = .recurring schedule ∧ entry = .make request schedule now := by
  unfold Registration.entry Realm.Takes
  cases r.stopping with
  | true => simp
  | false =>
    cases request.trigger with
    | immediate => simp
    | recurring schedule =>
      cases r.registry.lookup request.jobKey <;> cases r.resolveGroup request.group <;>
        simp [bind, Except.bind, pure, Except.pure, eq_comm]

theorem Registration.pending_of_step {point next : Registration} {entry : TriggerEntry}
    (h : point.step cue r = some (r', .at next)) (hNext : next.pending? = some (t, entry)) :
    ∃ request, Registration.entry r request cue.now = .ok entry := by
  cases point with
  | opening request =>
    simp only [step] at h
    split at h
    · cases h
    · next e hEntry =>
      cases h
      cases hNext
      exact ⟨request, hEntry⟩
  | inserting id e =>
    simp only [step] at h
    split at h <;> cases h

/-- A thread that is about to put a trigger into the table has just made it of a request that the
realm takes. -/
theorem Thread.pending_of_step {entry : TriggerEntry} (h : th.step cue r = some (r', th', crew))
    (hPending : th'.pending? = some (t, entry)) :
    ∃ request, Registration.entry r request cue.now = .ok entry := by
  cases th with
  | caller point =>
    rcases step_caller h with ⟨next, hStep, rfl, -⟩ | ⟨_, -, rfl, -⟩
    · cases point with
      | made call =>
        obtain ⟨-, hOpens⟩ := Call.opens_of_begin hStep
        cases hOpens <;> cases hPending
      | canceling point =>
        obtain ⟨q, -, rfl⟩ := CallPoint.lift_eq_at (Option.some.inj hStep)
        cases hPending
      | admitting | starting | stopping =>
        obtain ⟨x, -, hLift⟩ := Option.map_eq_some_iff.mp hStep
        obtain ⟨q, -, rfl⟩ := CallPoint.lift_eq_at hLift
        cases hPending
      | scheduling point =>
        obtain ⟨x, hPoint, hLift⟩ := Option.map_eq_some_iff.mp hStep
        obtain ⟨q, rfl, rfl⟩ := CallPoint.lift_eq_at hLift
        exact Registration.pending_of_step hPoint hPending
      | declaring point =>
        obtain ⟨x, hPoint, hLift⟩ := Option.map_eq_some_iff.mp hStep
        obtain ⟨q, rfl, rfl⟩ := CallPoint.lift_eq_at hLift
        cases point with
        | next rest made =>
          cases rest with
          | nil => cases hPoint
          | cons settings rest =>
            simp only [Declaration.step] at hPoint
            split at hPoint <;> cases hPoint
            cases hPending
        | registering point rest made =>
          obtain ⟨⟨r₁, p⟩, hInner, hEq⟩ := Option.map_eq_some_iff.mp hPoint
          split at hEq <;> next hPair =>
            cases hPair
            cases hEq <;> first
              | exact Registration.pending_of_step hInner hPending
              | cases hPending
    · cases hPending
  | worker w =>
    obtain ⟨_, -, rfl, -⟩ := step_worker h
    cases hPending
  | timer w =>
    obtain ⟨_, -, rfl, -⟩ := step_timer h
    cases hPending
  | answered answer => cases h

/-- A trigger that is about to be registered has made no run yet. -/
def Thread.Blank (th : Thread δ) : Prop :=
  ∀ id entry, th.pending? = some (id, entry) → entry.spawned = 0 ∧ entry.lastJob = none

theorem Thread.blank_step (h : th.step cue r = some (r', th', crew)) :
    th'.Blank ∧ ∀ x ∈ crew, x.Blank := by
  refine ⟨fun id entry hPending => ?_, fun x hx id entry hPending => ?_⟩
  · obtain ⟨request, hEntry⟩ := pending_of_step h hPending
    obtain ⟨-, -, schedule, -, rfl⟩ := Registration.entry_eq_ok.mp hEntry
    exact ⟨rfl, rfl⟩
  · rcases crew_of_step h x hx with rfl | rfl <;> cases hPending

namespace System

variable {s u v : System δ} {e : Event} {events more : List Event} {settings : RealmSettings}
  {registry : Registry δ} {store : Store}

theorem blank_of_run {r : Realm δ} (hRun : (ofRealm r).run events = some u) {i : Nat}
    (hAt : u.threads[i]? = some th) : th.Blank := by
  refine forall_threads_of_run (P := fun _ th => th.Blank) ?_ ?_ ?_ ?_ ?_ hRun i th hAt
  · intro _ call id entry hNone
    cases hNone
  · intro cue r th r' th' crew hStep _
    exact Thread.blank_step hStep
  · intro _ _ _ _ _ _ _ other hBlank
    exact hBlank
  · intro _ _ other hBlank
    exact hBlank
  · intro j x hx
    cases hx

end System

theorem Triggers.isSome_find?_modify (table : Triggers) (id : TriggerId)
    (change : TriggerEntry → TriggerEntry) (t : TriggerId) :
    ((table.modify id change).find? t).isSome = (table.find? t).isSome := by
  rw [find?_modify]
  split <;> simp

/-- The timer works on triggers that are in the table, and puts none there. -/
theorem Timer.listed_step {w w' : Timer} (hLocked : w.locked = true)
    (h : w.step cue r = some (r', w')) (t : TriggerId) :
    (r'.triggers.find? t).isSome = (r.triggers.find? t).isSome ∧
      (w'.trigger? = some t → w.trigger? = some t ∨ (r.triggers.find? t).isSome = true) := by
  cases stride_of_step hLocked h with
  | ends now before after free table =>
    subst after
    exact ⟨by rw [table], nofun⟩
  | passes now id rest before after early same =>
    subst after
    exact ⟨by rw [same.1], nofun⟩
  | comes now id rest e before after found due held table =>
    refine ⟨by rw [table, Triggers.isSome_find?_modify], fun hAfter => ?_⟩
    rw [trigger?, after] at hAfter
    cases hAfter
    exact .inr (by rw [found]; rfl)
  | works now id rest before after same =>
    refine ⟨by rw [same.1], fun hAfter => ?_⟩
    rw [trigger?, after] at hAfter
    rw [trigger?, before]
    exact .inl hAfter
  | notes now id rest made before after held table =>
    subst after
    exact ⟨by rw [table, Triggers.isSome_find?_modify], nofun⟩

namespace System

variable {s u v : System δ} {e : Event} {events more : List Event} {settings : RealmSettings}
  {registry : Registry δ} {store : Store}

/-- While the table of triggers is free, nobody goes through it. -/
theorem patrols_eq_false_of_free {r : Realm δ} (hRun : (ofRealm r).run events = some u)
    (hFree : u.realm.triggersHeld = false) : ∀ x ∈ u.threads, x.patrols = false := by
  intro x hx
  obtain ⟨i, hAt⟩ := List.getElem?_of_mem hx
  by_contra hPatrols
  have hOwns : x.patrols = true := by simpa using hPatrols
  have hHeld : u.realm.triggersHeld = true :=
    (Lock.kept_of_run triggersLock_lawful hRun).held hAt hOwns
  rw [hFree] at hHeld
  cases hHeld

/-- Every trigger that the timer works on is in the table. -/
theorem listed_of_run {r : Realm δ} (hRun : (ofRealm r).run events = some u) {i : Nat}
    (hAt : u.threads[i]? = some th) (hTrigger : th.trigger? = some t) :
    (u.realm.triggers.find? t).isSome = true := by
  refine run_induction (motive := fun _ u => ∀ (i : Nat) (th : Thread δ) (t : TriggerId),
    u.threads[i]? = some th → th.trigger? = some t → (u.realm.triggers.find? t).isSome = true)
    hRun ?_ ?_ i th t hAt hTrigger
  · intro i th t hAt
    cases hAt
  · intro before s e v hBefore hStep ih j x t hx hTrigger
    cases e with
    | call call =>
      cases hStep
      rcases threads_of_call hx with hOld | ⟨-, rfl⟩
      · exact ih j x t hOld hTrigger
      · cases hTrigger
    | sweep cutoff =>
      cases hStep
      exact ih j x t hx hTrigger
    | advance i cue =>
      obtain ⟨th, r', th', crew, hAt, hThread, rfl⟩ := step_advance hStep
      cases hPatrols : th.patrols with
      | true =>
        obtain ⟨w, rfl, hLocked⟩ := Thread.timer_of_patrols hPatrols
        obtain ⟨w', hTimer, rfl, rfl⟩ := Thread.step_timer hThread
        obtain ⟨hSame, hFrom⟩ := Timer.listed_step hLocked hTimer t
        show (r'.triggers.find? t).isSome = true
        rw [hSame]
        rcases threads_of_advance hx with ⟨-, rfl⟩ | ⟨-, hOld⟩ | ⟨-, hMem⟩
        · rcases hFrom hTrigger with hOld | hRegistered
          · exact ih i _ t hAt hOld
          · exact hRegistered
        · exact ih j x t hOld hTrigger
        · cases hMem
      | false =>
        -- whoever else works on the table does so while the timer works on no trigger
        have hFrom : ∃ k : Nat, s.threads[k]? = some x := by
          rcases threads_of_advance hx with ⟨-, rfl⟩ | ⟨-, hOld⟩ | ⟨-, hMem⟩
          · have hAfter := Thread.patrols_of_trigger? hTrigger
            cases Thread.edit_of_step hPatrols hThread with
            | begins now free held table after =>
              subst after
              cases hTrigger
            | leaves same after | inserts id entry before free held after
            | reschedules id entry times found free held after | drops id free held after =>
              rw [after] at hAfter
              cases hAfter
          · exact ⟨j, hOld⟩
          · rcases Thread.crew_of_step hThread x hMem with rfl | rfl <;> cases hTrigger
        obtain ⟨k, hOld⟩ := hFrom
        have hOldTrigger := ih k x t hOld hTrigger
        have hBusy : s.realm.triggersHeld = false → False := fun hFree => by
          have hNot := patrols_eq_false_of_free hBefore hFree x (List.mem_of_getElem? hOld)
          rw [Thread.patrols_of_trigger? hTrigger] at hNot
          cases hNot
        show (r'.triggers.find? t).isSome = true
        cases Thread.edit_of_step hPatrols hThread with
        | leaves same after =>
          rw [same.1]
          exact hOldTrigger
        | begins now free held table after | inserts id entry before free
        | reschedules id entry times found free | drops id free => exact (hBusy free).elim

/-- The triggers that an event puts into the table. -/
def registrations (s : System δ) : Event → List TriggerId
  | .advance i _ => ((s.threads[i]?.bind (·.pending?)).map (·.1)).toList
  | _ => []

/-- What an event does to the table of triggers. -/
inductive TableChange (s u : System δ) (e : Event) : Prop where
  | leaves (table : u.realm.triggers = s.realm.triggers)
  | modifies (id : TriggerId) (change : TriggerEntry → TriggerEntry)
    (keeps : ∀ x, s.realm.triggers.find? id = some x → (change x).template = x.template)
    (table : u.realm.triggers = s.realm.triggers.modify id change)
  | inserts (id : TriggerId) (entry : TriggerEntry)
    (pending : ∃ i cue th, e = .advance i cue ∧ s.threads[i]? = some th ∧
      th.pending? = some (id, entry))
    (table : u.realm.triggers = Triggers.insert id entry s.realm.triggers)
  | drops (id : TriggerId) (table : u.realm.triggers = s.realm.triggers.erase id)

theorem tableChange_of_step (hStep : s.step e = some u) : TableChange s u e := by
  cases e with
  | call call =>
    cases hStep
    exact .leaves rfl
  | sweep cutoff =>
    cases hStep
    exact .leaves rfl
  | advance i cue =>
    obtain ⟨th, r', th', crew, hAt, hThread, rfl⟩ := step_advance hStep
    cases hPatrols : th.patrols with
    | true =>
      obtain ⟨w, rfl, hLocked⟩ := Thread.timer_of_patrols hPatrols
      obtain ⟨w', hTimer, -⟩ := Thread.step_timer hThread
      cases Timer.stride_of_step hLocked hTimer with
      | ends now before after free table => exact .leaves table
      | passes now id rest before after early same => exact .leaves same.1
      | comes now id rest e before after found due held table =>
        exact .modifies id (·.advance now) (fun _ _ => rfl) table
      | works now id rest before after same => exact .leaves same.1
      | notes now id rest made before after held table =>
        exact .modifies id (·.note made) (fun _ _ => by cases made <;> rfl) table
    | false =>
      cases Thread.edit_of_step hPatrols hThread with
      | leaves same => exact .leaves same.1
      | begins now free held table => exact .leaves table
      | inserts id entry before free held after table =>
        exact .inserts id entry ⟨i, cue, th, rfl, hAt, before⟩ table
      | reschedules id entry times found free held after table =>
        refine .modifies id _ (fun x hFound => ?_) table
        cases found.symm.trans hFound
        rfl
      | drops id free held after table => exact .drops id table

/-- The table of triggers stays in order. -/
theorem sorted_of_run (hRun : (initial settings registry store).run events = some u) :
    u.realm.triggers.Sorted := by
  refine run_induction (motive := fun _ u => u.realm.triggers.Sorted) hRun List.Pairwise.nil ?_
  intro before s e v hBefore hStep ih
  cases tableChange_of_step hStep with
  | leaves table => rwa [table]
  | modifies id change keeps table =>
    rw [table]
    exact ih.modify id change
  | inserts id entry pending table =>
    rw [table]
    exact ih.insert id entry
  | drops id table =>
    rw [table]
    exact ih.erase id

/-- A trigger that is not in the table stays out of it until it is registered. -/
theorem absent_step (hStep : s.step e = some u) (hNone : s.realm.triggers.find? t = none)
    (hOther : t ∉ s.registrations e) : u.realm.triggers.find? t = none := by
  cases tableChange_of_step hStep with
  | leaves table => rw [table, hNone]
  | modifies id change keeps table =>
    rw [table, Triggers.find?_modify, hNone]
    split <;> rfl
  | inserts id entry pending table =>
    obtain ⟨i, cue, th, rfl, hAt, hPending⟩ := pending
    have hNe : t ≠ id := by
      rintro rfl
      exact hOther (by simp [registrations, hAt, hPending])
    rw [table, Triggers.find?_insert_of_ne hNe, hNone]
  | drops id table =>
    rw [table, Triggers.find?_erase, hNone]
    split <;> rfl

/-- No run is made of a trigger that is not in the table. -/
theorem triggerId_ne_of_absent {r : Realm δ} (hRun : (ofRealm r).run events = some s)
    (hNone : s.realm.triggers.find? t = none) : ∀ x ∈ s.admissions e, x.2.triggerId ≠ some t := by
  intro x hx hTrigger
  obtain ⟨a, record⟩ := x
  obtain ⟨i, cue, th, rfl, hAt, -⟩ := creating_of_mem_admissions hx
  rw [triggerId_of_admissions hRun hAt hx] at hTrigger
  have hSome := listed_of_run hRun hAt hTrigger
  rw [hNone] at hSome
  cases hSome

/-- A trigger that is not in the table, and is not registered any more, makes no further run. -/
theorem absent_of_run {r : Realm δ} (hRun : (ofRealm r).run events = some s)
    (hMore : s.run more = some u) (hNone : s.realm.triggers.find? t = none)
    (hOnce : t ∉ s.trail registrations more) :
    u.realm.triggers.find? t = none ∧ ∀ x ∈ s.trail admissions more, x.2.triggerId ≠ some t := by
  refine run_induction (motive := fun more u => t ∉ s.trail registrations more →
    u.realm.triggers.find? t = none ∧ ∀ x ∈ s.trail admissions more, x.2.triggerId ≠ some t)
    hMore (fun _ => ⟨hNone, fun x hx => (List.not_mem_nil hx).elim⟩) ?_ hOnce
  intro before v e w hBefore hStep ih hOnce
  rw [trail_concat hBefore, List.mem_append, not_or] at hOnce
  obtain ⟨hAbsent, hNever⟩ := ih hOnce.1
  have hUpTo : (ofRealm r).run (events ++ before) = some v := by
    rw [run_append_of_run hRun, hBefore]
  refine ⟨absent_step hStep hAbsent hOnce.2, fun x hx => ?_⟩
  rw [trail_concat hBefore, List.mem_append] at hx
  rcases hx with hOld | hNew
  · exact hNever x hOld
  · exact triggerId_ne_of_absent hUpTo hAbsent x hNew

/-- A stored record was there at the beginning, or was admitted, for the trigger that it names. -/
theorem triggerId_of_run (hRun : s.run events = some u) {x : JobRecord}
    (hx : x ∈ u.realm.store.records) :
    (∃ y ∈ s.realm.store.records, y.triggerId = x.triggerId) ∨
      ∃ y ∈ s.trail admissions events, y.2.triggerId = x.triggerId := by
  refine run_induction (motive := fun events u => ∀ x ∈ u.realm.store.records,
    (∃ y ∈ s.realm.store.records, y.triggerId = x.triggerId) ∨
      ∃ y ∈ s.trail admissions events, y.2.triggerId = x.triggerId)
    hRun (fun x hx => .inl ⟨x, hx, rfl⟩) ?_ x hx
  intro before v e w hBefore hStep ih x' hx'
  rw [trail_concat hBefore]
  rcases changes_of_step hStep hx' with ⟨x, hx, hChanges⟩ | ⟨a, hAdmitted⟩
  · rw [hChanges.sameRun.triggerId]
    rcases ih x hx with hOld | ⟨y, hy, hSame⟩
    · exact .inl hOld
    · exact .inr ⟨y, List.mem_append_left _ hy, hSame⟩
  · exact .inr ⟨_, List.mem_append_right _ hAdmitted, rfl⟩

/-- Nothing is known of a trigger before it is registered. -/
theorem unborn_of_run (hRun : (initial settings registry store).run events = some u)
    (hNew : ∀ x ∈ store.records, x.triggerId ≠ some t)
    (hUnborn : t ∉ (initial settings registry store).trail registrations events) :
    u.realm.triggers.find? t = none ∧
      (∀ x ∈ (initial settings registry store).trail admissions events, x.2.triggerId ≠ some t) ∧
      ∀ x ∈ u.realm.store.records, x.triggerId ≠ some t := by
  have hStart : (initial settings registry store).run [] = some (initial settings registry store) :=
    rfl
  obtain ⟨hAbsent, hNever⟩ := absent_of_run hStart hRun rfl hUnborn
  refine ⟨hAbsent, hNever, fun x hx hTrigger => ?_⟩
  rcases triggerId_of_run hRun hx with ⟨y, hy, hSame⟩ | ⟨y, hy, hSame⟩
  · exact hNew y hy (hSame.trans hTrigger)
  · exact hNever y hy (hSame.trans hTrigger)

end System

end BackgroundJobs
