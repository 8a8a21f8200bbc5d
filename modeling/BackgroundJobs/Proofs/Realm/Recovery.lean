import BackgroundJobs.Proofs.Realm.Admissions
import BackgroundJobs.Proofs.Realm.Dispatch
import BackgroundJobs.Proofs.Store.Soundness
import BackgroundJobs.Proofs.Store.States

/-!
# Proofs — starting again

Of a realm that is gone, at whatever point of whatever operation, nothing stays
but its store. A realm that starts on that store takes up every run in it: a
request is admitted in a group that the realm serves, so that no run falls
through the filter by groups, and each record is sound, so that a run that goes
on has an attempt to end.

Main results:

* `groups_of_run`     — every record that a realm makes is in a group that it serves.
* `spared_of_run`     — a start leaves alone the records of all other groups.
* `recovered_of_run`  — what a start makes of the store of a realm that is gone.
-/

namespace BackgroundJobs

variable {δ : Type} {cue : Cue} {r r' : Realm δ} {settings : RealmSettings}
  {registry registry' : Registry δ}

-- ---------------------------------------------------------------------------
-- The groups of a realm
-- ---------------------------------------------------------------------------

namespace RealmSettings

/-- Settings that pass their check serve a group. -/
theorem groups_ne_nil_of_check (h : settings.check = .ok ()) : settings.groups ≠ [] := by
  intro hNone
  simp only [check, hNone, List.isEmpty_nil, faultIf, if_true, bind, Except.bind] at h
  repeat' split at h
  all_goals cases h

theorem defaultGroup_mem (h : settings.groups ≠ []) : settings.defaultGroup ∈ settings.groups := by
  unfold defaultGroup
  cases hGroups : settings.groups with
  | nil => exact absurd hGroups h
  | cons group rest => exact List.mem_cons_self

end RealmSettings

theorem Realm.resolveGroup_mem {wanted : Option String} {group : String}
    (hServes : r.settings.groups ≠ []) (h : r.resolveGroup wanted = .ok group) :
    group ∈ r.settings.groups := by
  cases wanted with
  | none =>
    cases h
    exact RealmSettings.defaultGroup_mem hServes
  | some name =>
    simp only [resolveGroup] at h
    split at h
    · next hServed =>
      cases h
      exact List.contains_iff_mem.mp hServed
    · cases h

/-- A request is admitted in a group that the realm serves. -/
theorem Admission.group_mem_of_make {request : JobRequest} {triggerId : Option TriggerId}
    {a : Admission} (hServes : r.settings.groups ≠ [])
    (h : Admission.make r request triggerId = .ok a) : a.group ∈ r.settings.groups := by
  simp only [make, bind, Except.bind] at h
  split at h
  · cases h
  · split at h
    · cases h
    · next group hGroup =>
      cases h
      exact Realm.resolveGroup_mem hServes hGroup

namespace System

variable {s t u : System δ} {e : Event} {events : List Event}

theorem settings_of_step (h : s.step e = some u) : u.realm.settings = s.realm.settings := by
  cases e with
  | call call =>
    cases h
    rfl
  | sweep cutoff =>
    cases h
    rfl
  | advance i cue =>
    obtain ⟨th, r', th', crew, -, hThread, rfl⟩ := step_advance h
    exact (Thread.effect hThread).settings

theorem settings_of_run (hRun : s.run events = some u) : u.realm.settings = s.realm.settings :=
  run_induction (motive := fun _ u => u.realm.settings = s.realm.settings) hRun rfl
    fun _ _ _ _ _ hStep ih => (settings_of_step hStep).trans ih

/-- Every admission under way is in a group that the realm serves. -/
theorem group_mem_of_admission {store : Store} (hServes : settings.groups ≠ [])
    (hRun : (initial settings registry store).run events = some u) {i : Nat} {th : Thread δ}
    {a : Admission} {point : AdmissionPoint} (hAt : u.threads[i]? = some th)
    (hAdmission : th.admission? = some (a, point)) : a.group ∈ settings.groups := by
  have hServed : settings.groups = u.realm.settings.groups := by rw [settings_of_run hRun]; rfl
  rw [hServed]
  refine forall_threads_of_run (P := fun r th => r.settings.groups ≠ [] →
    ∀ a point, th.admission? = some (a, point) → a.group ∈ r.settings.groups)
    ?_ ?_ ?_ ?_ ?_ hRun i th hAt (hServed ▸ hServes) a point hAdmission
  · intro _ call _ a point hNone
    cases hNone
  · intro cue r th r' th' crew hStep hOld
    rw [(Thread.effect hStep).settings]
    refine ⟨fun hServes a point hAdmission => ?_, fun x hx _ a point hAdmission => ?_⟩
    · rcases Thread.admission_of_step hStep hAdmission with
        ⟨-, ⟨_, hMake, -⟩ | ⟨_, _, _, _, hMake, -⟩⟩ | ⟨before, hBefore, -⟩
      · exact Admission.group_mem_of_make hServes hMake
      · exact Admission.group_mem_of_make hServes hMake
      · exact hOld hServes a before hBefore
    · rcases Thread.crew_of_step hStep x hx with rfl | rfl <;> cases hAdmission
  · intro _ _ _ _ _ _ hStep other hOther
    rw [(Thread.effect hStep).settings]
    exact hOther
  · intro _ _ other hOther
    exact hOther
  · intro j x hx
    cases hx

/-- A record that an event admits is in a group that the realm serves. -/
theorem group_mem_of_admissions {store : Store} (hServes : settings.groups ≠ [])
    (hRun : (initial settings registry store).run events = some u) {a : Admission}
    {record : JobRecord} (h : (a, record) ∈ u.admissions e) : record.group ∈ settings.groups := by
  obtain ⟨i, cue, th, -, hAt, hCreating, -⟩ := creating_of_mem_admissions h
  obtain ⟨id, now, rfl⟩ := made_of_run hRun hAt a _ record hCreating rfl
  exact group_mem_of_admission hServes hRun hAt hCreating

/-- Every record that a realm makes is in a group that it serves. -/
theorem groups_of_run (hServes : settings.groups ≠ [])
    (hRun : (initial settings registry Store.empty).run events = some u) :
    ∀ x ∈ u.realm.store.records, x.group ∈ settings.groups := by
  refine run_induction (motive := fun _ u => ∀ x ∈ u.realm.store.records,
    x.group ∈ settings.groups) hRun ?_ ?_
  · intro x hx
    cases hx
  · intro before t e v hBefore hStep ih x' hx'
    rcases changes_of_step hStep hx' with ⟨x, hx, hChanges⟩ | ⟨a, hAdmitted⟩
    · rw [hChanges.sameRun.group]
      exact ih x hx
    · exact group_mem_of_admissions hServes hBefore hAdmitted

/-- Every record that a realm makes is sound. -/
theorem sound_of_run (hRun : (initial settings registry Store.empty).run events = some u) :
    ∀ x ∈ u.realm.store.records, x.Sound := by
  refine run_induction (motive := fun _ u => ∀ x ∈ u.realm.store.records, x.Sound) hRun ?_ ?_
  · intro x hx
    cases hx
  · intro before t e v hBefore hStep ih x hx
    rw [store_of_step hStep] at hx
    cases hOp : t.op? e with
    | none =>
      rw [hOp] at hx
      exact ih x hx
    | some asked =>
      rw [hOp] at hx
      refine Store.sound_perform ?_ ih hx
      unfold Store.Op.Fresh
      split
      · next record hCreate =>
        obtain ⟨op, now⟩ := asked
        subst hCreate
        cases e with
        | call call => cases hOp
        | sweep cutoff => cases hOp
        | advance i cue =>
          obtain ⟨-, -, th, hAt, hAsks⟩ := op?_advance_eq_some.mp hOp
          obtain ⟨a, hCreating⟩ := Thread.creating_of_op? hAsks
          obtain ⟨id, now, rfl⟩ := made_of_run hBefore hAt a _ record hCreating rfl
          exact ⟨_, _, _, _, _, _, rfl⟩
      · trivial

end System

-- ---------------------------------------------------------------------------
-- The other groups
-- ---------------------------------------------------------------------------

namespace Startup

variable {point next : Startup} {x : JobRecord}

/-- The runs that a start still has before it. -/
def taken : Startup → List JobId
  | .recovering rest | .finishing _ rest => rest.map (·.id)
  | .queueing id rest => id :: rest.map (·.id)
  | _ => []

/-- A start has before it what it listed. -/
theorem taken_of_step {id : JobId} (h : point.step cue r = some (r', .at next))
    (hId : id ∈ next.taken) :
    id ∈ point.taken ∨ ∃ x ∈ r.store.list (backlog r.settings), x.id = id := by
  cases point with
  | waiting =>
    simp only [step] at h
    split at h
    · cases h
    · split at h <;> cases h
      split at hId <;> cases hId
  | listing =>
    simp only [step] at h
    split at h
    · cases h
    · next records hAsk =>
      cases h
      obtain ⟨x, hx, rfl⟩ := List.mem_map.mp hId
      unfold Realm.ask at hAsk
      split at hAsk <;> cases hAsk
      exact .inr ⟨x, hx, rfl⟩
  | recovering rest =>
    cases rest with
    | nil =>
      cases h
      cases hId
    | cons record rest =>
      simp only [step] at h
      split at h
      · cases h
        split at hId
        · exact .inl (List.mem_cons_of_mem _ hId)
        · exact .inl hId
      · split at h <;> cases h <;> exact .inl (List.mem_cons_of_mem _ hId)
      · cases h
        exact .inl (List.mem_cons_of_mem _ hId)
  | queueing id rest =>
    cases h
    exact .inl (List.mem_cons_of_mem _ hId)
  | finishing record rest =>
    cases h
    exact .inl hId
  | opening => cases h

/-- A start changes no record, and queues no run, but those that it has before it. -/
theorem spares {p : Progress Startup (Except JobError Unit)}
    (h : point.step cue r = some (r', p)) (hx : x ∈ r.store.records) (hApart : x.id ∉ point.taken) :
    x ∈ r'.store.records ∧ (x.id ∈ r'.queue.ids → x.id ∈ r.queue.ids) := by
  have hTold : ∀ {id result r₁}, r.transition cue id .running .interrupt = (result, r₁) →
      x.id ≠ id → x ∈ r₁.store.records ∧ r₁.queue = r.queue := by
    intro id result r₁ hTold hNe
    cases result with
    | error e =>
      cases Realm.tell_eq_error _ _ hTold
      exact ⟨hx, rfl⟩
    | ok after =>
      obtain ⟨-, store, hStore, rfl⟩ := (Realm.tell_eq_ok _ _).mp hTold
      exact ⟨(Store.mem_of_transition_ok hStore).mpr (.inr ⟨hx, hNe⟩), rfl⟩
  cases point with
  | waiting =>
    obtain ⟨-, ⟨_, -, rfl⟩ | ⟨_, -, -, -, rfl⟩⟩ := step_waiting h <;> exact ⟨hx, fun h => h⟩
  | listing =>
    simp only [step] at h
    split at h <;> cases h <;> exact ⟨hx, fun h => h⟩
  | recovering rest =>
    cases rest with
    | nil =>
      cases h
      exact ⟨hx, fun h => h⟩
    | cons record rest =>
      have hNe : x.id ≠ record.id := fun hEq => hApart (hEq ▸ List.mem_cons_self)
      simp only [step] at h
      split at h
      · cases h
        exact ⟨hx, fun h => h⟩
      · split at h <;> next hResult =>
          cases h
          obtain ⟨hStays, hQueue⟩ := hTold hResult hNe
          exact ⟨hStays, fun hMem => hQueue ▸ hMem⟩
      · cases h
        exact ⟨hx, fun h => h⟩
  | queueing id rest =>
    cases h
    refine ⟨hx, fun hMem => ?_⟩
    rcases Queue.mem_ids_of_push hMem with hOld | hEq
    · exact hOld
    · exact absurd (hEq ▸ List.mem_cons_self) hApart
  | finishing record rest | opening =>
    cases h
    exact ⟨hx, fun h => h⟩

end Startup

/-- The point of the start that a thread is busy with. -/
def Thread.starting? : Thread δ → Option Startup
  | .caller (.starting point) => some point
  | _ => none

theorem Thread.starting?_eq_some {th : Thread δ} {point : Startup}
    (h : th.starting? = some point) : th = .caller (.starting point) := by
  unfold starting? at h
  split at h <;> cases h
  rfl

/-- A thread that is starting the realm began just now, or was at it before. -/
theorem Thread.starting_of_step {th : Thread δ} {crew : List (Thread δ)} {next : Startup}
    (h : th.step cue r = some (r', .caller (.starting next), crew)) :
    next = .waiting ∨
      ∃ point, th = .caller (.starting point) ∧ point.step cue r = some (r', .at next) := by
  cases th with
  | caller callPoint =>
    rcases step_caller h with ⟨q, hStep, hNext, -⟩ | ⟨_, -, hNext, -⟩
    · cases hNext
      cases callPoint with
      | made call =>
        obtain ⟨-, hOpens⟩ := Call.opens_of_begin hStep
        cases hOpens
        exact .inl rfl
      | starting point =>
        obtain ⟨x, hPoint, hLift⟩ := Option.map_eq_some_iff.mp hStep
        obtain ⟨q, rfl, hEq⟩ := CallPoint.lift_eq_at hLift
        cases hEq
        exact .inr ⟨point, rfl, hPoint⟩
      | canceling point =>
        obtain ⟨_, -, hEq⟩ := CallPoint.lift_eq_at (Option.some.inj hStep)
        cases hEq
      | admitting | stopping | scheduling | declaring =>
        obtain ⟨_, -, hLift⟩ := Option.map_eq_some_iff.mp hStep
        obtain ⟨_, -, hEq⟩ := CallPoint.lift_eq_at hLift
        cases hEq
    · cases hNext
  | worker w =>
    obtain ⟨_, -, hEq, -⟩ := step_worker h
    cases hEq
  | timer t =>
    obtain ⟨_, -, hEq, -⟩ := step_timer h
    cases hEq
  | answered answer => cases h

namespace System

variable {s t u v : System δ} {e : Event} {events : List Event} {store : Store} {i : Nat}
  {point : Startup}

theorem group_mem_of_admits {x : JobRecord} (hServes : settings.groups ≠ [])
    (h : Filter.admits settings.groups x.group = true) : x.group ∈ settings.groups := by
  simp only [Filter.admits, Bool.or_eq_true, List.isEmpty_iff, List.contains_iff_mem] at h
  exact h.resolve_left hServes

/-- The runs that a start has before it are of the groups of the realm. -/
theorem groups_of_taken (hServes : settings.groups ≠ [])
    (hRun : (initial settings registry store).run events = some u)
    (hAt : u.threads[i]? = some (.caller (.starting point))) :
    ∀ x ∈ u.realm.store.records, x.id ∈ point.taken → x.group ∈ settings.groups := by
  refine run_induction (motive := fun _ u => ∀ (i : Nat) (point : Startup),
    u.threads[i]? = some (.caller (.starting point)) → ∀ x ∈ u.realm.store.records,
      x.id ∈ point.taken → x.group ∈ settings.groups) hRun ?_ ?_ i point hAt
  · intro i point hAt
    cases hAt
  · intro before t e v hBefore hStep ih i point hAt x' hx' hTaken
    rcases changes_of_step hStep hx' with ⟨x, hx, hChanges⟩ | ⟨a, hAdmitted⟩
    · rw [hChanges.sameRun.group]
      rw [hChanges.sameRun.id] at hTaken
      -- the start was at this point before, or it has just taken the step that led there
      have hOwn : (∃ j : Nat, t.threads[j]? = some (.caller (.starting point))) ∨
          ∃ (j : Nat) (q : Startup) (cue : Cue) (r' : Realm δ),
            t.threads[j]? = some (.caller (.starting q)) ∧
              q.step cue t.realm = some (r', .at point) := by
        cases e with
        | call call =>
          cases hStep
          rcases threads_of_call hAt with hOld | ⟨-, hEq⟩
          · exact .inl ⟨i, hOld⟩
          · cases hEq
        | sweep cutoff =>
          cases hStep
          exact .inl ⟨i, hAt⟩
        | advance j cue =>
          obtain ⟨th, r', th', crew, hThread, hThreadStep, rfl⟩ := step_advance hStep
          rcases threads_of_advance hAt with ⟨-, rfl⟩ | ⟨-, hOld⟩ | ⟨-, hCrew⟩
          · rcases Thread.starting_of_step hThreadStep with rfl | ⟨q, rfl, hPoint⟩
            · cases hTaken
            · exact .inr ⟨j, q, cue, r', hThread, hPoint⟩
          · exact .inl ⟨i, hOld⟩
          · rcases Thread.crew_of_step hThreadStep _ hCrew with hEq | hEq <;> cases hEq
      rcases hOwn with ⟨j, hOld⟩ | ⟨j, q, cue, r', hOld, hPoint⟩
      · exact ih j point hOld x hx hTaken
      · rcases Startup.taken_of_step hPoint hTaken with hTaken | ⟨y, hListed, hId⟩
        · exact ih j q hOld x hx hTaken
        · obtain ⟨hy, -, hAdmits⟩ := Startup.mem_backlog.mp hListed
          cases Store.eq_of_mem_of_id_eq hy hx hId
          rw [settings_of_run hBefore] at hAdmits
          exact group_mem_of_admits hServes hAdmits
    · exact group_mem_of_admissions hServes hBefore hAdmitted

/-- Whatever else goes on, no step of a start changes a record of a group that the realm does not
serve, or queues its run. -/
theorem spared_of_run (hServes : settings.groups ≠ [])
    (hRun : (initial settings registry store).run events = some u)
    (hAt : u.threads[i]? = some (.caller (.starting point)))
    (hStep : u.step (.advance i cue) = some v) :
    ∀ x ∈ u.realm.store.records, x.group ∉ settings.groups →
      x ∈ v.realm.store.records ∧ (x.id ∈ v.realm.queue.ids → x.id ∈ u.realm.queue.ids) := by
  intro x hx hOther
  have hApart : x.id ∉ point.taken :=
    fun hTaken => hOther (groups_of_taken hServes hRun hAt x hx hTaken)
  obtain ⟨r', th', crew, hThread, rfl⟩ := step_advance_at hAt hStep
  rcases Thread.step_starting hThread with ⟨_, hPoint, -⟩ | ⟨_, _, hPoint, -⟩ <;>
    exact Startup.spares hPoint hx hApart

end System

-- ---------------------------------------------------------------------------
-- Taking up a store
-- ---------------------------------------------------------------------------

/-- A start lists no run twice. -/
theorem Startup.nodup_backlog (s : Store) (settings : RealmSettings) :
    ((s.list (backlog settings)).map (·.id)).Nodup :=
  Store.nodup_ids_listing s _

/-- A run that a start interrupted: its record as it was found, when that happened, and the answers
to the offers of its event. -/
structure Interruption where
  record : JobRecord
  now : Instant
  answers : List Bool

/-- The record of an interrupted run. -/
def Interruption.result (e : Interruption) : JobRecord :=
  Transition.interrupt.apply e.record e.now

/-- Is the attempt that was going on ended, and the run with it? -/
structure Interruption.Recorded (e : Interruption) (s : Store) : Prop where
  stored : e.result ∈ s.records
  state : e.result.state = .interrupted
  finishedAt : e.result.finishedAt = some e.now
  history : ∃ start, e.record.startedAt = some start ∧
    e.result.history = e.record.history ++ [Transition.interrupt.closing e.record start e.now]

/-- A run that goes on is interrupted, unless the store is in trouble. -/
theorem Realm.interrupt_eq {record : JobRecord} (hCalm : cue.fault = none)
    (hStored : record ∈ r.store.records) (hState : record.state = .running) :
    r.transition cue record.id .running .interrupt =
      (.ok (Transition.interrupt.apply record cue.now),
        { r with
          store := r.store.modify record.id fun x => Transition.interrupt.apply x cue.now }) := by
  have hEdge : record.state.canBecome Transition.interrupt.target = true := by
    rw [hState]
    rfl
  have hDone := Store.transition_of_mem hStored hEdge cue.now
  rw [hState] at hDone
  simp only [Realm.transition, Realm.tell, hCalm, hDone]

/-- What a start has made of a store when it is through with some of its records, and has
interrupted some of them. -/
structure Startup.Took (old : Store) (through : List JobRecord) (ends : List Interruption)
    (r : Realm δ) : Prop where
  queue : r.queue.ids = (through.filter (·.state = .queued)).map (·.id)
  opened : r.queue.closed = false
  ended : ends.map (·.record) = through.filter (·.state = .running)
  stored : ∀ e ∈ ends, e.result ∈ r.store.records
  others : ∀ x ∈ old.records, (x.state = .running → x ∉ through) → x ∈ r.store.records
  ids : r.store.ids = old.ids
  counters : r.counters = { interrupted := ends.length }
  offers : r.offers = ends.flatMap fun e => Offer.make (.ofRecord e.result) e.answers

namespace Startup.Took

variable {old : Store} {through : List JobRecord} {ends : List Interruption} {record : JobRecord}

theorem queued (h : Took old through ends r) (hState : record.state = .queued) :
    Took old (through ++ [record]) ends { r with queue := r.queue.push record.id none } where
  queue := by
    show (r.queue.push record.id none).ids = _
    rw [Queue.ids_push_of_open h.opened, h.queue, List.filter_append, List.map_append]
    simp [hState]
  opened := by
    show (r.queue.push record.id none).closed = false
    rw [Queue.closed_push, h.opened]
  ended := by
    rw [h.ended, List.filter_append]
    simp [hState]
  stored := h.stored
  others x hx hApart := h.others x hx fun hRunning hMem =>
    hApart hRunning (List.mem_append_left _ hMem)
  ids := h.ids
  counters := h.counters
  offers := h.offers

/-- The change of state that interrupts a run which is still before a start. -/
theorem transition_eq (h : Took old through ends r) (hCalm : cue.fault = none)
    (hMem : record ∈ old.records) (hState : record.state = .running) (hNew : record ∉ through) :
    r.transition cue record.id .running .interrupt =
      (.ok (Transition.interrupt.apply record cue.now),
        { r with
          store := r.store.modify record.id fun x => Transition.interrupt.apply x cue.now }) :=
  Realm.interrupt_eq hCalm (h.others record hMem fun _ => hNew) hState

theorem running (h : Took old through ends r) (hMem : record ∈ old.records)
    (hListed : through ⊆ old.records) (hState : record.state = .running) (hNew : record ∉ through)
    (now : Instant) (answers : List Bool) :
    Took old (through ++ [record]) (ends ++ [⟨record, now, answers⟩])
      (Realm.noteFinal { r with
        store := r.store.modify record.id fun x => Transition.interrupt.apply x now }
          (Transition.interrupt.apply record now) answers) where
  queue := by
    show r.queue.ids = _
    rw [h.queue, List.filter_append]
    simp [hState]
  opened := h.opened
  ended := by
    rw [List.map_append, h.ended, List.filter_append]
    simp [hState]
  stored e he := by
    have hStored : record ∈ r.store.records := h.others record hMem fun _ => hNew
    rcases List.mem_append.mp he with hOld | hLast
    · have hRecord : e.record ∈ through.filter (·.state = .running) :=
        h.ended ▸ List.mem_map_of_mem hOld
      have hThrough := List.mem_of_mem_filter hRecord
      refine Store.mem_modify.mpr (.inl ⟨h.stored e hOld, fun hId => hNew ?_⟩)
      rw [← Store.eq_of_mem_of_id_eq (hListed hThrough) hMem hId]
      exact hThrough
    · cases List.mem_singleton.mp hLast
      exact Store.mem_modify.mpr (.inr ⟨record, hStored, rfl, rfl⟩)
  others x hx hApart := by
    have hNe : x.id ≠ record.id := by
      intro hId
      cases Store.eq_of_mem_of_id_eq hx hMem hId
      exact hApart hState (List.mem_append_right _ List.mem_cons_self)
    refine Store.mem_modify.mpr (.inl ⟨h.others x hx fun hRunning hThrough => ?_, hNe⟩)
    exact hApart hRunning (List.mem_append_left _ hThrough)
  ids := (Store.ids_modify _ _ _).trans h.ids
  counters := by
    show r.counters.addFinal .interrupted = _
    rw [h.counters, List.length_append]
    rfl
  offers := by
    show r.offers ++ _ = _
    rw [h.offers, List.flatMap_append]
    simp [Interruption.result]

end Startup.Took

namespace System

variable {cues : Nat → Cue}

/-- So many steps of the first thread. -/
def firstSteps (cues : Nat → Cue) (n : Nat) : List Event :=
  (List.range n).map fun k => .advance 0 (cues k)

theorem run_firstSteps_succ {s t : System δ} {n : Nat} (h : s.step (.advance 0 (cues 0)) = some t) :
    s.run (firstSteps cues (n + 1)) = t.run (firstSteps (fun k => cues (k + 1)) n) := by
  rw [firstSteps, List.range_succ_eq_map, List.map_cons, run, h, List.map_map]
  rfl

theorem step_starting {point next : Startup} (h : point.step cue r = some (r', .at next)) :
    (⟨r, [.caller (.starting point)]⟩ : System δ).step (.advance 0 cue) =
      some ⟨r', [.caller (.starting next)]⟩ := by
  simp [System.step, Thread.step, CallPoint.step, h, CallPoint.lift]

/-- A start goes through all that it has listed. -/
theorem takes_all {old : Store} {through rest : List JobRecord} {ends : List Interruption}
    (cues : Nat → Cue) (hCalm : ∀ k, (cues k).fault = none)
    (hTook : Startup.Took old through ends r)
    (hListed : through ++ rest ⊆ old.records) (hOnce : ((through ++ rest).map (·.id)).Nodup)
    (hActive : ∀ x ∈ rest, x.state = .queued ∨ x.state = .running) :
    ∃ n r' ends',
      (⟨r, [.caller (.starting (.recovering rest))]⟩ : System δ).run (firstSteps cues n) =
        some ⟨r', [.caller (.starting .opening)]⟩ ∧
      Startup.Took old (through ++ rest) ends' r' := by
  induction rest generalizing through ends r cues with
  | nil =>
    refine ⟨1, r, ends, ?_, by rwa [List.append_nil]⟩
    rw [run_firstSteps_succ (step_starting rfl)]
    rfl
  | cons record rest ih =>
    have hMem : record ∈ old.records := hListed (List.mem_append_right _ List.mem_cons_self)
    have hThrough : through ⊆ old.records := fun x hx => hListed (List.mem_append_left _ hx)
    rw [List.map_append, List.map_cons] at hOnce
    have hFresh : record.id ∉ through.map (·.id) := fun hOld =>
      (List.nodup_append.mp hOnce).2.2 _ hOld _ List.mem_cons_self rfl
    have hNew : record ∉ through := fun hOld => hFresh (List.mem_map_of_mem hOld)
    have hSplit : through ++ record :: rest = through ++ [record] ++ rest := by simp
    -- two steps lead on to the rest
    have hNext : ∃ r₂ ends₂, Startup.Took old (through ++ [record]) ends₂ r₂ ∧
        ∃ r₁ between,
          (Startup.recovering (record :: rest)).step (cues 0) r = some (r₁, .at between) ∧
            between.step (cues 1) r₁ = some (r₂, .at (.recovering rest)) := by
      rcases hActive record List.mem_cons_self with hQueued | hRunning
      · have hOut : r.queue.contains record.id = false := by
          rw [Bool.eq_false_iff, Ne, Queue.contains_iff, hTook.queue]
          exact fun hIn => hFresh ((List.filter_sublist.map _).subset hIn)
        refine ⟨_, _, hTook.queued hQueued, r, .queueing record.id rest, ?_, rfl⟩
        simp [Startup.step, hQueued, hOut]
      · have hDone := hTook.transition_eq (hCalm 0) hMem hRunning hNew
        refine ⟨_, _, hTook.running hMem hThrough hRunning hNew (cues 0).now (cues 1).answers, _,
          .finishing (Transition.interrupt.apply record (cues 0).now) rest, ?_, rfl⟩
        simp only [Startup.step, hRunning, hDone]
    obtain ⟨r₂, ends₂, hTook₂, r₁, between, hFirst, hSecond⟩ := hNext
    rw [hSplit] at hListed ⊢
    have hOnce' : ((through ++ [record] ++ rest).map (·.id)).Nodup := by
      rwa [List.append_assoc, List.map_append]
    obtain ⟨n, r', ends', hRun, hTook'⟩ := ih (fun k => cues (k + 2))
      (fun k => hCalm (k + 2)) hTook₂ hListed hOnce'
      fun x hx => hActive x (List.mem_cons_of_mem _ hx)
    refine ⟨n + 2, r', ends', ?_, hTook'⟩
    rw [run_firstSteps_succ (step_starting hFirst), run_firstSteps_succ (step_starting hSecond)]
    exact hRun

end System

-- ---------------------------------------------------------------------------
-- Starting on the store of a realm that is gone
-- ---------------------------------------------------------------------------

/-- What a realm that has taken up a store has made of it. -/
structure Recovered (old : Store) (r : Realm δ) : Prop where
  /-- No run is queued twice. -/
  once : r.queue.ids.Nodup
  /-- The runs that waited are queued, by the time of their creation and then by id. -/
  queue : ∃ waiting : List JobRecord, waiting.Perm (old.records.filter (·.state = .queued)) ∧
    waiting.Pairwise (fun a b => a.createdAt < b.createdAt ∨ (a.createdAt = b.createdAt ∧
      a.id ≤ b.id)) ∧ r.queue.ids = waiting.map (·.id)
  /-- The runs that went on are interrupted, and the event of each is offered. -/
  ends : ∃ ends : List Interruption,
    (ends.map (·.record)).Perm (old.records.filter (·.state = .running)) ∧
      (∀ e ∈ ends, e.Recorded r.store) ∧
      r.offers = ends.flatMap fun e => Offer.make (.ofRecord e.result) e.answers
  counters : r.counters = { interrupted := old.countIn .running }
  /-- Every other record stays as it was. -/
  others : ∀ x ∈ old.records, x.state ≠ .running → x ∈ r.store.records
  ids : r.store.ids = old.ids

/-- A start that is through with everything it listed has taken up the whole store, if the realm
serves the groups of all records. -/
theorem Startup.Took.recovered {old : Store} {ends : List Interruption}
    (h : Startup.Took old (old.list (Startup.backlog settings)) ends r)
    (hSound : ∀ x ∈ old.records, x.Sound) (hGroups : ∀ x ∈ old.records, x.group ∈ settings.groups) :
    Recovered old r := by
  have hAll : ∀ x ∈ old.records, x.isActive = true →
      (Startup.backlog settings).selects x = true := by
    intro x hx hActive
    rw [Startup.selects_backlog, hActive, Filter.admits,
      List.contains_iff_mem.mpr (hGroups x hx), Bool.or_true]
    rfl
  have hPerm : ∀ state : JobState, state.isActive = true →
      ((old.list (Startup.backlog settings)).filter (·.state = state)).Perm
        (old.records.filter (·.state = state)) := by
    intro state hActive
    refine ((Store.perm_listing old _).filter _).trans ?_
    rw [List.filter_filter]
    refine List.Perm.of_eq (List.filter_congr fun x hx => ?_)
    by_cases hState : x.state = state
    · rw [hAll x hx (by rw [JobRecord.isActive, hState, hActive]), Bool.and_true]
    · simp [hState]
  have hSorted : (old.list (Startup.backlog settings)).Pairwise fun a b => a.precedes b = true :=
    Store.precedes_listing old _
  have hWaiting := hPerm .queued rfl
  have hEnds : (ends.map (·.record)).Perm (old.records.filter (·.state = .running)) := by
    rw [h.ended]
    exact hPerm .running rfl
  refine ⟨?_, ⟨_, hWaiting, ?_, h.queue⟩, ⟨ends, hEnds, fun e he => ?_, h.offers⟩, ?_, ?_, h.ids⟩
  · rw [h.queue, (hWaiting.map _).nodup_iff]
    exact Store.nodup_idsIn old .queued
  · exact (hSorted.filter _).imp JobRecord.precedes_iff.mp
  · have hMem : e.record ∈ old.records.filter (·.state = .running) :=
      hEnds.subset (List.mem_map_of_mem he)
    obtain ⟨hStored, hState⟩ := List.mem_filter.mp hMem
    have hRunning : e.record.state = .running := of_decide_eq_true hState
    obtain ⟨hStarted, -⟩ := (hSound _ hStored).running hRunning
    obtain ⟨start, hStart⟩ := Option.isSome_iff_exists.mp hStarted
    exact ⟨h.stored e he, rfl, rfl, start, hStart,
      Transition.history_apply_of_running e.now hRunning (by decide) hStart⟩
  · rw [h.counters, ← List.length_map (·.record), hEnds.length_eq, Store.countIn,
      List.countP_eq_length_filter]
  · exact fun x hx hNot => h.others x hx fun hRunning => absurd hRunning hNot

namespace System

variable {store : Store} {cues : Nat → Cue}

/-- A start that nobody interferes with goes through everything that it lists. -/
theorem took_of_start (registry : Registry δ) (store : Store)
    (hRecovers : settings.recoverOnStart = true)
    (hCalm : ∀ k, (cues k).fault = none) :
    ∃ n r ends, (initial settings registry store).run (.call .start :: firstSteps cues n) =
        some ⟨r, [.caller (.starting .opening)]⟩ ∧
      Startup.Took store (store.list (Startup.backlog settings)) ends r := by
  obtain ⟨r₀, hr₀⟩ : ∃ r₀, r₀ = Realm.make settings registry store := ⟨_, rfl⟩
  obtain ⟨listed, hl⟩ : ∃ listed, listed = store.list (Startup.backlog settings) := ⟨_, rfl⟩
  have hMem : ∀ x ∈ listed, x ∈ store.records ∧ (x.state = .queued ∨ x.state = .running) := by
    rw [hl]
    exact fun x hx => (Startup.mem_backlog.mp hx).imp_right And.left
  have hOnce : (listed.map (·.id)).Nodup := hl ▸ Startup.nodup_backlog store settings
  have hTook : Startup.Took store [] [] { r₀ with lifecycleHeld := true } := by
    subst hr₀
    exact ⟨rfl, rfl, rfl, fun e he => (List.not_mem_nil he).elim, fun x hx _ => hx, rfl, rfl, rfl⟩
  have hMade : (⟨r₀, [.caller (.made .start)]⟩ : System δ).step (.advance 0 (cues 0)) =
      some ⟨r₀, [.caller (.starting .waiting)]⟩ := rfl
  have hWaiting : Startup.waiting.step (cues 1) r₀ =
      some ({ r₀ with lifecycleHeld := true }, .at .listing) := by
    subst hr₀
    simp [Startup.step, Realm.make, hRecovers]
  have hListing : Startup.listing.step (cues 2) { r₀ with lifecycleHeld := true } =
      some ({ r₀ with lifecycleHeld := true }, .at (.recovering listed)) := by
    subst hr₀ hl
    simp only [Startup.step, Realm.ask, hCalm 2]
    rfl
  obtain ⟨n, r, ends, hRun, hDone⟩ := takes_all (fun k => cues (k + 3))
    (fun k => hCalm (k + 3)) hTook (fun x hx => (hMem x hx).1) hOnce fun x hx => (hMem x hx).2
  refine ⟨n + 3, r, ends, ?_, hl ▸ hDone⟩
  have hCall : (initial settings registry store).step (.call .start) =
      some ⟨r₀, [.caller (.made .start)]⟩ := by
    rw [hr₀]
    rfl
  rw [run, hCall, Option.bind_some, run_firstSteps_succ hMade,
    run_firstSteps_succ (step_starting hWaiting), run_firstSteps_succ (step_starting hListing)]
  exact hRun

/-- A realm may be gone at any point of any run. When it is started again on the store that it left,
with the same settings, that start goes through and takes up every record; none is in a group that
the realm does not serve. And what a start finds in other groups it leaves alone, whatever the store
holds and whatever else goes on. -/
theorem recovered_of_run (hServes : settings.groups ≠ [])
    (hRecovers : settings.recoverOnStart = true) :
    (∀ (events : List Event) (u : System δ) (cues : Nat → Cue),
      (initial settings registry Store.empty).run events = some u →
      (∀ k, (cues k).fault = none) →
        (∀ x ∈ u.realm.store.records, x.group ∈ settings.groups) ∧
        ∃ n v, (initial settings registry' u.realm.store).run (.call .start :: firstSteps cues n) =
            some v ∧
          v.threads = [.caller (.starting .opening)] ∧ Recovered u.realm.store v.realm) ∧
    (∀ (store : Store) (events : List Event) (u v : System δ) (i : Nat) (point : Startup)
        (cue : Cue),
      (initial settings registry store).run events = some u →
      u.threads[i]? = some (.caller (.starting point)) →
      u.step (.advance i cue) = some v →
        ∀ x ∈ u.realm.store.records, x.group ∉ settings.groups →
          x ∈ v.realm.store.records ∧
            (x.id ∈ v.realm.queue.ids → x.id ∈ u.realm.queue.ids)) := by
  refine ⟨?_, ?_⟩
  · intro events u cues hRun hCalm
    have hGroups := groups_of_run hServes hRun
    obtain ⟨n, r, ends, hStart, hTook⟩ := took_of_start registry' u.realm.store
      hRecovers hCalm
    exact ⟨hGroups, n, _, hStart, rfl, hTook.recovered (sound_of_run hRun) hGroups⟩
  · intro store events u v i point cue hRun hAt hStep
    exact spared_of_run hServes hRun hAt hStep

/-- A realm is gone while one run goes on and the record of another was created, but not yet
queued. -/
def cutShort : List Event :=
  let request : JobRequest :=
    { jobKey := "job", name := "job", group := none, arguments := Dict.empty,
      metadata := Dict.empty, constraints := [], retryPolicy := none, trigger := .immediate }
  let advance (i n : Nat) : Event := .advance i { now := ⟨n, 0⟩, fresh := ⟨BitVec.ofNat 128 n⟩ }
  [.call .start, advance 0 1, advance 0 2, advance 0 3, advance 0 4, advance 0 5,
    .call (.submit request), advance 3 6, advance 3 7, advance 3 8, advance 3 9, advance 3 10,
    advance 3 11, advance 1 12, advance 1 13, advance 1 14, advance 1 15, advance 1 16,
    .call (.submit request), advance 4 17, advance 4 18, advance 4 19, advance 4 20]

/-- A running record of the given id and group. -/
def orphan (id : JobId) (group : String) : JobRecord :=
  let request : JobRequest :=
    { jobKey := "job", name := "job", group := some group, arguments := Dict.empty,
      metadata := Dict.empty, constraints := [], retryPolicy := none, trigger := .immediate }
  Transition.start.apply (request.toRecord id group .standard none ⟨0, 0⟩) ⟨0, 0⟩

/-- A store that two realms work on. -/
def shared : Store :=
  ⟨[orphan ⟨⟨1⟩⟩ "default", orphan ⟨⟨2⟩⟩ "other"], by decide⟩

theorem recovered_of_run_cutShort :
    (∃ u v : System Unit, ∃ n,
      (initial { workers := 1 } ⟨Dict.empty.insert "job" ()⟩ Store.empty).run cutShort = some u ∧
      u.realm.queue.ids = [] ∧ u.realm.store.records.map (·.state) = [.running, .queued] ∧
      (initial { workers := 1 } ⟨Dict.empty⟩ u.realm.store).run
        (.call .start :: firstSteps (fun k => { now := ⟨30 + k, 0⟩, fresh := default }) n) =
          some v ∧
      Recovered u.realm.store v.realm) ∧
    ∃ u v : System Unit,
      (initial { workers := 1 } ⟨Dict.empty⟩ shared).run
        (.call .start :: firstSteps (fun k => { now := ⟨30 + k, 0⟩, fresh := default }) 3) =
          some u ∧
      u.step (.advance 0 { now := ⟨33, 0⟩, fresh := default }) = some v ∧
      v.realm.store.records.map (·.state) = [.interrupted, .running] ∧
      ∀ x ∈ u.realm.store.records, x.group ∉ ["default"] → x ∈ v.realm.store.records := by
  refine ⟨?_, ?_⟩
  · have hEnd : ((initial { workers := 1 } ⟨Dict.empty.insert "job" ()⟩ Store.empty).run
        cutShort).map (fun u : System Unit =>
          (u.realm.queue.ids, u.realm.store.records.map (·.state))) =
            some ([], [.running, .queued]) := by
      decide +kernel
    obtain ⟨u, hRun, hSeen⟩ := Option.map_eq_some_iff.mp hEnd
    obtain ⟨hQueue, hStates⟩ := Prod.mk.inj hSeen
    have hAll := @recovered_of_run Unit { workers := 1 } ⟨Dict.empty.insert "job" ()⟩
      ⟨Dict.empty⟩ (by decide) rfl
    obtain ⟨-, n, v, hStart, -, hDone⟩ := hAll.1 cutShort u
      (fun k => { now := ⟨30 + k, 0⟩, fresh := default }) hRun fun _ => rfl
    exact ⟨u, v, n, hRun, hQueue, hStates, hStart, hDone⟩
  · have hEnd : ((initial { workers := 1 } ⟨Dict.empty⟩ shared).run
        (.call .start :: firstSteps (fun k => { now := ⟨30 + k, 0⟩, fresh := default }) 3)).map
          (fun u : System Unit => ((u.threads[0]?.bind (·.starting?)).isSome,
            (u.step (.advance 0 { now := ⟨33, 0⟩, fresh := default })).map
              fun v => v.realm.store.records.map (·.state))) =
            some (true, some [.interrupted, .running]) := by
      decide +kernel
    obtain ⟨u, hRun, hSeen⟩ := Option.map_eq_some_iff.mp hEnd
    obtain ⟨hStarts, hStepped⟩ := Prod.mk.inj hSeen
    obtain ⟨point, hPoint⟩ := Option.isSome_iff_exists.mp hStarts
    obtain ⟨th, hAt, hStarting⟩ := Option.bind_eq_some_iff.mp hPoint
    cases Thread.starting?_eq_some hStarting
    obtain ⟨v, hStep, hStates⟩ := Option.map_eq_some_iff.mp hStepped
    have hAll := @recovered_of_run Unit { workers := 1 } ⟨Dict.empty⟩ ⟨Dict.empty⟩ (by decide) rfl
    refine ⟨u, v, hRun, hStep, hStates, fun x hx hOther => ?_⟩
    exact (hAll.2 shared _ u v 0 point _ hRun hAt hStep x hx hOther).1

end System

end BackgroundJobs
