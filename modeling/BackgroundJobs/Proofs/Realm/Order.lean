import BackgroundJobs.Proofs.Realm.Agreement
import BackgroundJobs.Proofs.Realm.Recovery

/-!
# Proofs — the order of the queue after a start

Two append to the queue: an admission the run that it has created, and a start
whatever waits in the store and is not in the queue yet. Callers may submit
before the realm is started. What they submitted then stands in front of all
that the store has kept from before, although that is older: each part is in
the order of creation, and the queue as a whole only if one of them is empty or
the fresh runs are the older ones.

Main results:

* `prepared_of_run`  — what callers who submit and cancel make of a realm that is
  not started.
* `queue_of_start`   — the queue that a start leaves behind, and when it is in the
  order of creation.
-/

namespace BackgroundJobs

variable {δ : Type} {cue : Cue} {r r' : Realm δ} {old : Store} {made : List JobRecord}
  {p : Pending}

-- ---------------------------------------------------------------------------
-- The order of creation
-- ---------------------------------------------------------------------------

/-- The order of creation reads nothing of a record that ever changes. -/
theorem JobRecord.SameRun.precedes_eq {x x' y y' : JobRecord} (hx : x.SameRun x')
    (hy : y.SameRun y') : x'.precedes y' = x.precedes y := by
  rw [precedes, precedes, hx.createdAt, hx.id, hy.createdAt, hy.id]

namespace Store

variable {s s' : Store}

/-- Does the record of one run come before that of another, in the order of creation? -/
def Before (s : Store) (i j : JobId) : Prop :=
  ∃ x ∈ s.records, ∃ y ∈ s.records, x.id = i ∧ y.id = j ∧ x.precedes y = true

theorem before_iff {x y : JobRecord} (hx : x ∈ s.records) (hy : y ∈ s.records) :
    s.Before x.id y.id ↔ x.precedes y = true := by
  constructor
  · rintro ⟨x', hx', y', hy', hId, hId', hPrecedes⟩
    rwa [eq_of_mem_of_id_eq hx' hx hId, eq_of_mem_of_id_eq hy' hy hId'] at hPrecedes
  · exact fun hPrecedes => ⟨x, hx, y, hy, rfl, rfl, hPrecedes⟩

theorem before_iff_of_sameRun {x x' y y' : JobRecord} (hx : x' ∈ s.records) (hy : y' ∈ s.records)
    (h : x.SameRun x') (h' : y.SameRun y') : s.Before x.id y.id ↔ x.precedes y = true := by
  rw [← h.id, ← h'.id, before_iff hx hy, h.precedes_eq h']

theorem before_antisymm {i j : JobId} (hij : s.Before i j) (hji : s.Before j i) : i = j := by
  obtain ⟨x, hx, y, hy, rfl, rfl, hPrecedes⟩ := hij
  exact JobRecord.id_eq_of_precedes hPrecedes ((before_iff hy hx).mp hji)

/-- What waits in the groups of a realm depends on the records that wait, and on no other. -/
theorem waiting_of_perm {settings : RealmSettings}
    (h : (s'.records.filter (·.state = .queued)).Perm (s.records.filter (·.state = .queued))) :
    (s'.list (Startup.backlog settings)).filter (·.state = .queued) =
      (s.list (Startup.backlog settings)).filter (·.state = .queued) := by
  rw [Startup.list_backlog, Startup.list_backlog, filter_listing, filter_listing]
  refine JobRecord.eq_of_inOrder (inOrder_listing s' _) (inOrder_listing s _) fun x => ?_
  have hQueued := h.mem_iff (a := x)
  rw [List.mem_filter, List.mem_filter] at hQueued
  rw [mem_listing, mem_listing, Bool.and_eq_true, ← and_assoc, ← and_assoc, hQueued]

/-- Those of the given runs that wait. -/
def waitingOf (s : Store) (made : List JobRecord) : List JobRecord :=
  made.filter fun x => x.id ∈ s.idsIn .queued

theorem waitingOf_append (s : Store) (made more : List JobRecord) :
    s.waitingOf (made ++ more) = s.waitingOf made ++ s.waitingOf more :=
  List.filter_append ..

theorem waitingOf_congr
    (h : ∀ x ∈ made, x.id ∈ s'.idsIn .queued ↔ x.id ∈ s.idsIn .queued) :
    s'.waitingOf made = s.waitingOf made :=
  List.filter_congr fun x hx => by rw [decide_eq_decide.mpr (h x hx)]

/-- A run that is created last is the last that waits. -/
theorem waitingOf_create {record : JobRecord} (h : s.create record = .ok s')
    (hState : record.state = .queued) (hMade : ∀ x ∈ made, x.id ∈ s.ids) :
    s'.waitingOf (made ++ [record]) = s.waitingOf made ++ [record] := by
  have hIds : s'.idsIn .queued = s.idsIn .queued ++ [record.id] := by
    rw [idsIn_of_create h, if_pos hState]
  have hOthers : s'.waitingOf made = s.waitingOf made := waitingOf_congr fun x hx => by
    have hNe : x.id ≠ record.id := fun hEq => (records_of_create_ok h).2 (hEq ▸ hMade x hx)
    simp [hIds, hNe]
  rw [waitingOf_append, hOthers]
  simp [waitingOf, hIds]

/-- A run that is taken out of its state does not wait any more, and all others wait as before. -/
theorem waitingOf_of_transition {id : JobId} {t : Transition} {now : Instant} {after : JobRecord}
    (h : s.transition id .queued t now = .ok (after, s')) (hTarget : t.target ≠ .queued) :
    (s'.waitingOf made).map (·.id) = ((s.waitingOf made).map (·.id)).filter (· ∉ [id]) := by
  obtain ⟨others, hMoved⟩ := idsIn_of_transition h
  obtain ⟨hBefore, hAfter⟩ := hMoved .queued
  rw [if_pos rfl] at hBefore
  rw [if_neg hTarget, List.nil_append] at hAfter
  have hOnce := hBefore.nodup_iff.mp (nodup_idsIn s .queued)
  have hGone : id ∉ others .queued := (List.nodup_cons.mp hOnce).1
  rw [List.filter_map, waitingOf, waitingOf, List.filter_filter]
  congr 1
  refine List.filter_congr fun x _ => ?_
  simp only [Function.comp, hAfter.mem_iff, hBefore.mem_iff, List.mem_append, List.mem_singleton]
  by_cases hId : x.id = id
  · simp [hId, hGone]
  · simp [hId]

end Store

-- ---------------------------------------------------------------------------
-- Callers who submit and cancel
-- ---------------------------------------------------------------------------

namespace Queue

variable {q : Queue}

/-- A queue that hands out its runs one after the other, at any time. -/
structure Ready (q : Queue) : Prop where
  soon : ∀ e ∈ q.entries, e.notBefore = none
  opened : q.closed = false
  unpaused : q.paused = false

namespace Ready

theorem push (h : q.Ready) (id : JobId) : (q.push id none).Ready := by
  rw [Queue.push, if_neg (by simp [h.opened])]
  refine ⟨fun e he => ?_, h.opened, h.unpaused⟩
  rcases List.mem_append.mp he with hOld | hNew
  · exact h.soon e hOld
  · rw [List.mem_singleton.mp hNew]

theorem remove (h : q.Ready) (id : JobId) : (q.remove id).Ready :=
  ⟨fun e he => h.soon e (List.mem_filter.mp he).1, h.opened, h.unpaused⟩

/-- The first of the queue is handed out first, whatever the time. -/
theorem take? (h : q.Ready) (now : Instant) : (q.take? now).map (·.1) = q.ids.head? := by
  have hDue : ∀ e ∈ q.entries, e.isDue now = true := fun e he => by
    rw [QueueEntry.isDue, h.soon e he]
  rw [Queue.take?, h.opened, h.unpaused, ids]
  cases hEntries : q.entries with
  | nil => rfl
  | cons e rest => simp [hDue e (hEntries ▸ List.mem_cons_self)]

end Ready

end Queue

/-- The given runs were added to a store, and the queue holds those of them that wait, in their
order, but for what is in hand. -/
structure Lined (old : Store) (made : List JobRecord) (r : Realm δ) (p : Pending) : Prop where
  ids : r.store.ids = old.ids ++ made.map (·.id)
  line : r.queue.ids.filter (· ∉ p.stale) ++ p.held = (r.store.waitingOf made).map (·.id)
  ready : r.queue.Ready

namespace Lined

/-- A realm that was not started has no run in its queue. -/
theorem of_make (settings : RealmSettings) (registry : Registry δ) (old : Store) :
    Lined old [] (.make settings registry old) {} where
  ids := (List.append_nil _).symm
  line := rfl
  ready := ⟨nofun, rfl, rfl⟩

theorem mem_ids (h : Lined old made r p) {x : JobRecord} (hx : x ∈ made) : x.id ∈ r.store.ids := by
  rw [h.ids]
  exact List.mem_append_right _ (List.mem_map_of_mem hx)

theorem congr (h : Lined old made r p) (hQueue : r'.queue = r.queue)
    (hIds : r'.store.ids = r.store.ids)
    (hStore : r'.store.idsIn .queued = r.store.idsIn .queued) : Lined old made r' p where
  ids := hIds.trans h.ids
  line := by
    rw [hQueue, h.line, Store.waitingOf_congr fun x _ => by rw [hStore]]
  ready := hQueue ▸ h.ready

end Lined

/-- The run that an admission has just created. -/
def AdmissionPoint.entered : AdmissionPoint → List JobRecord
  | .queueing record => [record]
  | _ => []

theorem Admission.lined_step {a : Admission} {point : AdmissionPoint}
    {next : Progress AdmissionPoint (Except JobError JobRecord)}
    (h : a.step cue r point = some (r', next)) (hLined : Lined old made r point.pending)
    (hFirst : ∀ record, point = .creating record → record.state = .queued) :
    Lined old (made ++ next.point?.elim [] AdmissionPoint.entered) r'
      (next.point?.elim {} AdmissionPoint.pending) := by
  have hStays : ∀ r₁ : Realm δ, r₁.queue = r.queue → r₁.store = r.store →
      Lined old (made ++ []) r₁ point.pending := by
    intro r₁ hQueue hStore
    rw [List.append_nil]
    exact hLined.congr hQueue (by rw [hStore]) (by rw [hStore])
  cases point with
  | waiting =>
    simp only [step] at h
    split at h <;> cases h
    exact hStays _ rfl rfl
  | checking =>
    simp only [step] at h
    split at h
    · cases h
      exact hStays _ rfl rfl
    · split at h <;> cases h <;> exact hStays _ rfl rfl
  | creating record =>
    simp only [step] at h
    split at h
    · next hTold =>
      cases h
      obtain ⟨store, hCreated, rfl⟩ := Realm.create_eq_ok r cue hTold
      refine ⟨?_, ?_, hLined.ready⟩
      · show store.records.map (·.id) = old.ids ++ (made ++ [record]).map (·.id)
        rw [(Store.records_of_create_ok hCreated).1, List.map_append, List.map_append,
          ← List.append_assoc, ← hLined.ids]
        rfl
      · show r.queue.ids.filter _ ++ [record.id] = (store.waitingOf (made ++ [record])).map (·.id)
        rw [Store.waitingOf_create hCreated (hFirst record rfl) fun x hx => hLined.mem_ids hx,
          List.map_append, ← hLined.line]
        simp [AdmissionPoint.pending, Progress.point?]
    · next hTold =>
      cases h
      cases Realm.tell_eq_error _ _ hTold
      exact hStays _ rfl rfl
  | queueing record =>
    cases h
    refine ⟨?_, ?_, hLined.ready.push record.id⟩
    · rw [← List.append_nil made] at hLined
      exact hLined.ids
    · show (r.queue.push record.id none).ids.filter (· ∉ []) ++ [] =
        (r.store.waitingOf (made ++ [])).map (·.id)
      rw [Queue.ids_push_of_open hLined.ready.opened, List.append_nil made, ← hLined.line]
      simp [AdmissionPoint.pending]
  | counting record =>
    cases h
    exact hStays _ rfl rfl

theorem Cancellation.lined_step {point : Cancellation}
    {next : Progress Cancellation (Except JobError JobRecord)} (h : point.step cue r = (r', next))
    (hLined : Lined old made r point.pending) :
    Lined old made r' (next.point?.elim {} Cancellation.pending) := by
  cases point with
  | looking id =>
    simp only [step] at h
    split at h
    · cases h
      exact hLined
    · split at h <;> cases h <;> exact hLined
  | revoking id =>
    simp only [step] at h
    split at h
    · next record r₁ hTold =>
      cases h
      obtain ⟨-, store, hStore, rfl⟩ := (Realm.tell_eq_ok r cue).mp hTold
      obtain ⟨x, -, rfl, -, -, rfl, rfl⟩ := Store.transition_ok hStore
      refine ⟨(Store.ids_modify ..).trans hLined.ids, ?_, hLined.ready⟩
      show r.queue.ids.filter (· ∉ [x.id]) ++ [] = (Store.waitingOf _ made).map (·.id)
      rw [Store.waitingOf_of_transition hStore (by decide), ← hLined.line]
      simp [pending]
    all_goals
      next hTold =>
      cases h
      cases Realm.tell_eq_error _ _ hTold
      exact hLined
  | unqueueing record =>
    cases h
    refine ⟨hLined.ids, ?_, hLined.ready.remove record.id⟩
    have hRest : (r.queue.remove record.id).ids = r.queue.ids.filter (· ∉ [record.id]) := by
      rw [Queue.ids, Queue.remove, Queue.ids, List.filter_map]
      congr 1
      exact List.filter_congr fun e _ => by simp [bne, Function.comp, beq_eq_decide]
    show (r.queue.remove record.id).ids.filter (· ∉ []) ++ [] = _
    rw [hRest, ← hLined.line]
    simp [pending]
  | finishing record | signalling record =>
    cases h
    exact hLined.congr rfl rfl rfl
  | marking id =>
    have hEffect := Cancellation.effect h
    simp only [step] at h
    split at h <;> next hTold =>
      cases h
      have hKept : r'.store.ids = r.store.ids ∧
          r'.store.idsIn .queued = r.store.idsIn .queued := by
        rw [hEffect.store]
        unfold Cue.act
        simp only [op?]
        split
        · exact ⟨rfl, rfl⟩
        · exact ⟨(Store.elsewhere_of_subject rfl).1, Store.idsIn_perform_of_tame trivial rfl⟩
      have hMarked : Lined old made r' {} :=
        hLined.congr (hEffect.queue (by simp [touched])) hKept.1 hKept.2
      first
        | exact hMarked
        | split <;> exact hMarked

/-- Is this the thread of a caller who submits a request or cancels a run? -/
def Thread.prepares : Thread δ → Bool
  | .caller (.made (.submit _)) | .caller (.made (.cancel _)) | .caller (.admitting ..)
  | .caller (.canceling _) | .answered _ => true
  | _ => false

/-- Does a caller come who submits a request or cancels a run, or does one go on? -/
def Event.Prepares : Event → Prop
  | .call (.submit _) | .call (.cancel _) | .advance .. => True
  | _ => False

namespace Thread

variable {th th' : Thread δ} {crew : List (Thread δ)}

/-- The run that a thread has just created. -/
def entered (th : Thread δ) : List JobRecord :=
  th.admission?.elim [] (·.2.entered)

theorem not_touched_of_prepares (h : th.prepares = true) : Part.lifecycle ∉ th.touched := by
  intro hTouched
  cases th with
  | caller point =>
    rcases CallPoint.mem_touched hTouched with
      hPart | ⟨hPart, -⟩ | ⟨-, ⟨_, rfl⟩ | ⟨_, rfl⟩⟩ | ⟨hPart, -⟩ <;> first | cases hPart | cases h
  | answered answer => cases hTouched
  | worker w => cases h
  | timer t => cases h

/-- One step of a caller who submits or cancels. -/
theorem lined_step (h : th.step cue r = some (r', th', crew)) (hPrepares : th.prepares = true)
    (hLined : Lined old made r th.pending)
    (hFirst : ∀ a record, th.admission? = some (a, .creating record) → record.state = .queued) :
    Lined old (made ++ th'.entered) r' th'.pending ∧ th'.prepares = true ∧ crew = [] := by
  cases th with
  | caller point =>
    cases point with
    | made call =>
      -- the first step has done nothing yet, whether the call goes on or not
      have hFirstStep : r' = r ∧ th'.pending = {} ∧ th'.entered = [] ∧ th'.prepares = true ∧
          crew = [] := by
        rcases step_caller h with ⟨next, hStep, rfl, rfl⟩ | ⟨answer, hStep, rfl, hCrew, -⟩
        · obtain ⟨rfl, hOpens⟩ := Call.opens_of_begin hStep
          cases hOpens <;> first | exact ⟨rfl, rfl, rfl, rfl, rfl⟩ | cases hPrepares
        · refine ⟨?_, rfl, rfl, rfl, hCrew.resolve_right (by rintro ⟨⟩)⟩
          cases call with
          | submit request =>
            simp only [CallPoint.step, Call.begin] at hStep
            split at hStep
            · cases hStep
              rfl
            · split at hStep
              · cases hStep
                rfl
              · split at hStep <;> cases hStep
                rfl
          | cancel id => cases hStep
          | _ => cases hPrepares
      obtain ⟨rfl, hPending, hEntered, hGoesOn, rfl⟩ := hFirstStep
      rw [hPending, hEntered, List.append_nil]
      exact ⟨hLined, hGoesOn, rfl⟩
    | admitting a point =>
      rcases step_lifted rfl h with ⟨next, hStep, rfl, rfl⟩ | ⟨result, hStep, rfl, hCrew⟩
      · refine ⟨?_, rfl, rfl⟩
        exact Admission.lined_step hStep hLined fun record hEq => hFirst a record (by rw [hEq]; rfl)
      · refine ⟨?_, rfl, hCrew.resolve_right (by rintro ⟨⟩)⟩
        exact Admission.lined_step hStep hLined fun record hEq => hFirst a record (by rw [hEq]; rfl)
    | canceling point =>
      have hOnly : ∀ {next}, point.step cue r = (r', next) →
          Lined old (made ++ []) r' (next.point?.elim {} Cancellation.pending) := by
        intro next hStep
        rw [List.append_nil]
        exact Cancellation.lined_step hStep hLined
      rcases step_caller h with ⟨next, hStep, rfl, rfl⟩ | ⟨answer, hStep, rfl, hCrew, -⟩
      · obtain ⟨q, hPoint, rfl⟩ := CallPoint.lift_eq_at (Option.some.inj hStep)
        exact ⟨hOnly hPoint, rfl, rfl⟩
      · obtain ⟨result, hPoint, rfl⟩ := CallPoint.lift_eq_done (Option.some.inj hStep)
        exact ⟨hOnly hPoint, rfl, hCrew.resolve_right (by rintro ⟨⟩)⟩
    | starting | stopping | scheduling | declaring => cases hPrepares
  | answered answer => cases h
  | worker w => cases hPrepares
  | timer t => cases hPrepares

end Thread

namespace System

variable {s u v : System δ} {e : Event} {events : List Event} {settings : RealmSettings}
  {registry : Registry δ}

/-- The run that an event admits is the one that its thread has created with it. -/
theorem entered_of_step {i : Nat} {th th' : Thread δ} {crew : List (Thread δ)}
    (hAt : s.threads[i]? = some th) (hThread : th.step cue s.realm = some (r', th', crew)) :
    (s.admissions (.advance i cue)).map (·.2) = th'.entered := by
  simp only [Thread.entered, admissions, hAt, Option.bind_some]
  cases hAdmission : th.admission? with
  | none =>
    rcases Thread.admission_begins hAdmission hThread with hNone | ⟨a, hWaiting⟩
    · rw [hNone]
      rfl
    · rw [hWaiting]
      rfl
  | some x =>
    obtain ⟨a, point⟩ := x
    have hGoes := (Thread.admission_step hAdmission hThread).2
    cases point with
    | waiting =>
      rcases hGoes with ⟨next, hStep, hNext⟩ | ⟨result, -, hNone⟩
      · obtain ⟨-, -, hEq⟩ := Admission.step_waiting hStep
        cases hEq
        rw [hNext]
        rfl
      · rw [hNone]
        rfl
    | checking =>
      rcases hGoes with ⟨next, hStep, hNext⟩ | ⟨result, -, hNone⟩
      · obtain ⟨-, -, rfl⟩ := Admission.step_checking hStep
        rw [hNext]
        rfl
      · rw [hNone]
        rfl
    | creating record =>
      rcases hGoes with ⟨next, hStep, hNext⟩ | ⟨result, hStep, hNone⟩
      · simp only [Admission.step] at hStep
        split at hStep
        · next hTold =>
          cases hStep
          simp only [hNext, hTold]
          rfl
        · cases hStep
      · simp only [Admission.step] at hStep
        split at hStep
        · cases hStep
        · next hTold =>
          simp only [hNone, hTold]
          rfl
    | queueing record =>
      rcases hGoes with ⟨next, hStep, hNext⟩ | ⟨result, hStep, -⟩
      · cases hStep
        rw [hNext]
        rfl
      · cases hStep
    | counting record =>
      rcases hGoes with ⟨next, hStep, -⟩ | ⟨result, -, hNone⟩
      · cases hStep
      · rw [hNone]
        rfl

/-- What callers who submit and cancel, one after the other, have made of a realm that was not
started. -/
structure Prepared (old : Store) (made : List JobRecord) (s : System δ) : Prop where
  lined : Lined old made s.realm s.pending
  same : ∀ x ∈ made, ∀ y ∈ s.realm.store.records, y.id = x.id → x.SameRun y
  threads : ∀ i : Nat, ∀ th, s.threads[i]? = some th → th.prepares = true
  created : s.realm.lifecycle = .created
  unlocked : s.realm.lifecycleHeld = false

/-- The records of a run are still those of the run after a step, and what is new is of a run of its
own. -/
theorem same_of_step (hMade : ∀ x ∈ made, x.id ∈ s.realm.store.ids)
    (hStep : s.step e = some u)
    (h : ∀ x ∈ made, ∀ y ∈ s.realm.store.records, y.id = x.id → x.SameRun y) :
    ∀ x ∈ made ++ (s.admissions e).map (·.2), ∀ y ∈ u.realm.store.records, y.id = x.id →
      x.SameRun y := by
  intro x hx y' hy' hId
  rcases List.mem_append.mp hx with hOld | hNew
  · rcases changes_of_step hStep hy' with ⟨y, hy, hChanges⟩ | ⟨a, hAdmitted⟩
    · exact (h x hOld y hy (hChanges.sameRun.id.symm.trans hId)).trans hChanges.sameRun
    · obtain ⟨-, -, -, -, -, -, hFresh, -⟩ := creating_of_mem_admissions hAdmitted
      exact absurd (hId ▸ hMade x hOld) hFresh
  · obtain ⟨⟨a, _⟩, hAdmitted, rfl⟩ := List.mem_map.mp hNew
    rcases changes_of_step hStep hy' with ⟨y, hy, hChanges⟩ | ⟨b, hAdmitted'⟩
    · obtain ⟨-, -, -, -, -, -, hFresh, -⟩ := creating_of_mem_admissions hAdmitted
      rw [← hId, hChanges.sameRun.id] at hFresh
      exact absurd (Store.id_mem_ids hy) hFresh
    · cases eq_of_mem_admissions hAdmitted hAdmitted'
      exact .refl y'

theorem Prepared.advance {i : Nat} {r : Realm δ} (h : Prepared old made s)
    (hRun : (ofRealm r).run events = some s) (hStep : s.step (.advance i cue) = some u)
    (hAlone : s.alone (.advance i cue) = true) :
    Prepared old (made ++ (s.admissions (.advance i cue)).map (·.2)) u := by
  obtain ⟨th, r', th', crew, hAt, hThread, rfl⟩ := step_advance hStep
  have hPrepares := h.threads i th hAt
  have hLined := h.lined
  rw [pending_of_alone hAt fun j x => atRest_of_alone hAlone] at hLined
  obtain ⟨hLined', hPrepares', rfl⟩ := Thread.lined_step hThread hPrepares hLined
    fun a record => queued_of_creating hRun hAt
  have hOthers : ∀ j : Nat, ∀ x, (s.threads.set i th' ++ [])[j]? = some x → j ≠ i →
      s.threads[j]? = some x := by
    intro j x hx hji
    rcases threads_of_advance hx with ⟨hEq, -⟩ | ⟨-, hOld⟩ | ⟨-, hNone⟩
    · exact absurd hEq hji
    · exact hOld
    · cases hNone
  obtain ⟨hLifecycle, hHeld, -⟩ :=
    (Thread.effect hThread).lifecycle (Thread.not_touched_of_prepares hPrepares)
  have hEntered := entered_of_step hAt hThread
  refine ⟨?_, ?_, fun j x hx => ?_, hLifecycle.trans h.created, hHeld.trans h.unlocked⟩
  · rw [pending_of_alone (thread_of_advance_self hAt) fun j x hx hji =>
      atRest_of_alone hAlone (hOthers j x hx hji) hji, hEntered]
    exact hLined'
  · exact same_of_step (fun x hx => h.lined.mem_ids hx) hStep h.same
  · by_cases hji : j = i
    · subst hji
      rw [thread_of_advance_self hAt] at hx
      cases hx
      exact hPrepares'
    · exact h.threads j x (hOthers j x hx hji)

theorem Prepared.call {call : Call} (h : Prepared old made s) (hStep : s.step (.call call) = some u)
    (hPrepares : (Event.call call).Prepares) : Prepared old made u := by
  have hPending : u.pending = s.pending := by
    rw [pending, gather_of_call hStep rfl, gather_of_call hStep rfl, gather_of_call hStep rfl]
    rfl
  cases hStep
  refine ⟨?_, h.same, fun j x hx => ?_, h.created, h.unlocked⟩
  · rw [hPending]
    exact h.lined
  · rcases threads_of_call hx with hOld | ⟨-, rfl⟩
    · exact h.threads j x hOld
    · cases call <;> first | rfl | exact hPrepares.elim

/-- Callers who submit and cancel, one after the other, queue the runs in the order in which they
are admitted. -/
theorem prepared_of_run (hRun : (initial settings registry old).run events = some u)
    (hPrepares : ∀ e ∈ events, e.Prepares)
    (hWhole : (initial settings registry old).OneByOne events) :
    Prepared old (((initial settings registry old).trail admissions events).map (·.2)) u := by
  refine run_induction (motive := fun events u => (∀ e ∈ events, e.Prepares) →
    (initial settings registry old).OneByOne events →
      Prepared old (((initial settings registry old).trail admissions events).map (·.2)) u)
    hRun ?_ ?_ hPrepares hWhole
  · intro _ _
    show Prepared old [] (initial settings registry old)
    refine ⟨.of_make settings registry old, fun x hx => ?_, fun j x hx => ?_, rfl, rfl⟩
    · cases hx
    · cases hx
  · intro before t e v hBefore hStep ih hPrepares hWhole
    rw [OneByOne, trail_concat hBefore] at hWhole
    have hPrepared := ih (fun e he => hPrepares e (List.mem_append_left _ he))
      fun b hb => hWhole b (List.mem_append_left _ hb)
    have hAlone : t.alone e = true := hWhole _ (List.mem_append_right _ List.mem_cons_self)
    have hLast := hPrepares e (List.mem_append_right _ List.mem_cons_self)
    rw [trail_concat hBefore, List.map_append]
    cases e with
    | call call =>
      show Prepared old (_ ++ []) v
      rw [List.append_nil]
      exact hPrepared.call hStep hLast
    | advance i cue => exact hPrepared.advance hBefore hStep hAlone
    | sweep cutoff => exact hLast.elim

end System

-- ---------------------------------------------------------------------------
-- Behind the runs that were there
-- ---------------------------------------------------------------------------

/-- What a start has made of a realm when it is through with some of the records that it has found:
what waited is queued behind the runs that the queue held before. -/
structure Startup.Joined (line : List JobId) (found : Store) (through : List JobRecord)
    (r : Realm δ) : Prop where
  queue : r.queue.ids =
    line ++ ((through.filter (·.state = .queued)).map (·.id)).filter (· ∉ line)
  ready : r.queue.Ready
  others : ∀ x ∈ found.records, (x.state = .running → x ∉ through) → x ∈ r.store.records
  waiting : (r.store.records.filter (·.state = .queued)).Perm
    (found.records.filter (·.state = .queued))

namespace Startup.Joined

variable {line : List JobId} {found : Store} {through : List JobRecord} {record : JobRecord}

/-- A run that waits is queued, unless it is in the queue already. -/
theorem queued (h : Joined line found through r) (hState : record.state = .queued)
    (hQueue : r'.queue.ids = r.queue.ids ++ if record.id ∈ line then [] else [record.id])
    (hReady : r'.queue.Ready) (hStore : r'.store = r.store) :
    Joined line found (through ++ [record]) r' where
  queue := by
    rw [hQueue, h.queue, List.append_assoc, List.filter_append, List.map_append, List.filter_append]
    simp only [List.filter_singleton, hState, decide_true, cond_true, List.map_cons, List.map_nil]
    by_cases hIn : record.id ∈ line <;> simp [hIn]
  ready := hReady
  others x hx hApart := by
    rw [hStore]
    exact h.others x hx fun hRunning hMem => hApart hRunning (List.mem_append_left _ hMem)
  waiting := hStore ▸ h.waiting

/-- A run that goes on is interrupted, and no run that waits is concerned. -/
theorem running (h : Joined line found through r) (hMem : record ∈ found.records)
    (hState : record.state = .running) (hNew : record ∉ through) (now : Instant)
    (answers : List Bool) :
    Joined line found (through ++ [record])
      (Realm.noteFinal { r with
        store := r.store.modify record.id fun x => Transition.interrupt.apply x now }
          (Transition.interrupt.apply record now) answers) where
  queue := by
    show r.queue.ids = _
    rw [h.queue, List.filter_append]
    simp [hState]
  ready := h.ready
  others x hx hApart := by
    have hNe : x.id ≠ record.id := by
      intro hId
      cases Store.eq_of_mem_of_id_eq hx hMem hId
      exact hApart hState (List.mem_append_right _ List.mem_cons_self)
    refine Store.mem_modify.mpr (.inl ⟨h.others x hx fun hRunning hThrough => ?_, hNe⟩)
    exact hApart hRunning (List.mem_append_left _ hThrough)
  waiting := by
    obtain ⟨others, hBefore, hAfter⟩ := Store.perm_modify (h.others record hMem fun _ => hNew)
      fun x => Transition.interrupt.apply x now
    refine (hAfter.filter _).trans (.trans ?_ h.waiting)
    refine .trans (.of_eq ?_) (hBefore.filter _).symm
    rw [List.filter_cons_of_neg (by simp [Transition.apply, Transition.interrupt]),
      List.filter_cons_of_neg (by simp [hState])]

end Startup.Joined

namespace System

variable {cues : Nat → Cue} {i : Nat} {s t : System δ}

/-- So many steps of one thread. -/
def stepsOf (i : Nat) (cues : Nat → Cue) (n : Nat) : List Event :=
  (List.range n).map fun k => .advance i (cues k)

theorem run_stepsOf_succ {n : Nat} (h : s.step (.advance i (cues 0)) = some t) :
    s.run (stepsOf i cues (n + 1)) = t.run (stepsOf i (fun k => cues (k + 1)) n) := by
  rw [stepsOf, List.range_succ_eq_map, List.map_cons, run, h, List.map_map]
  rfl

theorem run_stepsOf_add {m n : Nat} (h : s.run (stepsOf i cues m) = some t) :
    s.run (stepsOf i cues (m + n)) = t.run (stepsOf i (fun k => cues (m + k)) n) := by
  rw [stepsOf, List.range_add, List.map_append, List.map_map]
  exact run_append_of_run h

/-- The last thread goes on with a start. -/
theorem step_starting_last {threads : List (Thread δ)} {point next : Startup}
    (h : point.step cue r = some (r', .at next)) :
    (⟨r, threads ++ [.caller (.starting point)]⟩ : System δ).step (.advance threads.length cue) =
      some ⟨r', threads ++ [.caller (.starting next)]⟩ := by
  simp [System.step, Thread.step, CallPoint.step, h, CallPoint.lift]

/-- A start that nobody interferes with goes through all that it has listed. -/
theorem joins_all (threads : List (Thread δ)) {line : List JobId} {found : Store}
    {through rest : List JobRecord} (cues : Nat → Cue) (hCalm : ∀ k, (cues k).fault = none)
    (hJoined : Startup.Joined line found through r)
    (hListed : through ++ rest ⊆ found.records) (hOnce : ((through ++ rest).map (·.id)).Nodup)
    (hActive : ∀ x ∈ rest, x.state = .queued ∨ x.state = .running) :
    ∃ n r',
      (⟨r, threads ++ [.caller (.starting (.recovering rest))]⟩ : System δ).run
          (stepsOf threads.length cues n) =
        some ⟨r', threads ++ [.caller (.starting .opening)]⟩ ∧
      Startup.Joined line found (through ++ rest) r' := by
  induction rest generalizing through r cues with
  | nil =>
    refine ⟨1, r, ?_, by rwa [List.append_nil]⟩
    rw [run_stepsOf_succ (step_starting_last rfl)]
    rfl
  | cons record rest ih =>
    have hMem : record ∈ found.records := hListed (List.mem_append_right _ List.mem_cons_self)
    rw [List.map_append, List.map_cons] at hOnce
    have hFresh : record.id ∉ through.map (·.id) := fun hOld =>
      (List.nodup_append.mp hOnce).2.2 _ hOld _ List.mem_cons_self rfl
    have hNew : record ∉ through := fun hOld => hFresh (List.mem_map_of_mem hOld)
    have hSplit : through ++ record :: rest = through ++ [record] ++ rest := by simp
    -- one or two steps lead on to the rest
    have hNext : ∃ m r₂, Startup.Joined line found (through ++ [record]) r₂ ∧
        (⟨r, threads ++ [.caller (.starting (.recovering (record :: rest)))]⟩ : System δ).run
            (stepsOf threads.length cues m) =
          some ⟨r₂, threads ++ [.caller (.starting (.recovering rest))]⟩ := by
      rcases hActive record List.mem_cons_self with hQueued | hRunning
      · have hHeld : r.queue.contains record.id = decide (record.id ∈ line) := by
          rw [Bool.eq_iff_iff, Queue.contains_iff, hJoined.queue, List.mem_append,
            decide_eq_true_eq]
          refine or_iff_left fun hIn => hFresh ?_
          exact (List.filter_sublist.map _).subset (List.mem_of_mem_filter hIn)
        by_cases hIn : record.id ∈ line
        · have hStep : (Startup.recovering (record :: rest)).step (cues 0) r =
              some (r, .at (.recovering rest)) := by
            simp [Startup.step, hQueued, hHeld, hIn]
          refine ⟨1, r, hJoined.queued hQueued (by simp [hIn]) hJoined.ready rfl, ?_⟩
          rw [run_stepsOf_succ (step_starting_last hStep)]
          rfl
        · have hStep : (Startup.recovering (record :: rest)).step (cues 0) r =
              some (r, .at (.queueing record.id rest)) := by
            simp [Startup.step, hQueued, hHeld, hIn]
          refine ⟨2, { r with queue := r.queue.push record.id none },
            hJoined.queued hQueued ?_ (hJoined.ready.push record.id) rfl, ?_⟩
          · rw [if_neg hIn]
            exact Queue.ids_push_of_open hJoined.ready.opened record.id none
          · rw [run_stepsOf_succ (step_starting_last hStep),
              run_stepsOf_succ (step_starting_last rfl)]
            rfl
      · have hStored : record ∈ r.store.records := hJoined.others record hMem fun _ => hNew
        have hStep : (Startup.recovering (record :: rest)).step (cues 0) r =
            some ({ r with
                store := r.store.modify record.id fun x =>
                  Transition.interrupt.apply x (cues 0).now },
              .at (.finishing (Transition.interrupt.apply record (cues 0).now) rest)) := by
          simp only [Startup.step, hRunning, Realm.interrupt_eq (hCalm 0) hStored hRunning]
        refine ⟨2, _, hJoined.running hMem hRunning hNew (cues 0).now (cues 1).answers, ?_⟩
        rw [run_stepsOf_succ (step_starting_last hStep), run_stepsOf_succ (step_starting_last rfl)]
        rfl
    obtain ⟨m, r₂, hJoined₂, hFirst⟩ := hNext
    rw [hSplit] at hListed ⊢
    have hOnce' : ((through ++ [record] ++ rest).map (·.id)).Nodup := by
      rwa [List.append_assoc, List.map_append]
    obtain ⟨n, r', hRun, hJoined'⟩ := ih (fun k => cues (m + k)) (fun k => hCalm (m + k)) hJoined₂
      hListed hOnce' fun x hx => hActive x (List.mem_cons_of_mem _ hx)
    exact ⟨m + n, r', (run_stepsOf_add hFirst).trans hRun, hJoined'⟩

end System

-- ---------------------------------------------------------------------------
-- The queue that a start leaves behind
-- ---------------------------------------------------------------------------

namespace Realm

/-- The records that wait in the groups of a realm, by the time of creation and then by id. -/
def waiting (r : Realm δ) : List JobRecord :=
  (r.store.list (Startup.backlog r.settings)).filter (·.state = .queued)

/-- Those that wait and are none of the given runs. -/
def waitingBesides (r : Realm δ) (made : List JobRecord) : List JobRecord :=
  r.waiting.filter (·.id ∉ made.map (·.id))

theorem mem_waiting {x : JobRecord} : x ∈ r.waiting ↔
    x ∈ r.store.records ∧ x.state = .queued ∧
      Filter.admits r.settings.groups x.group = true := by
  rw [waiting, List.mem_filter, Startup.mem_backlog, decide_eq_true_eq]
  constructor
  · rintro ⟨⟨hx, -, hAdmits⟩, hState⟩
    exact ⟨hx, hState, hAdmits⟩
  · rintro ⟨hx, hState, hAdmits⟩
    exact ⟨⟨hx, .inl hState, hAdmits⟩, hState⟩

theorem nodup_waiting (r : Realm δ) : (r.waiting.map (·.id)).Nodup :=
  (Startup.nodup_backlog r.store r.settings).sublist (List.filter_sublist.map _)

theorem before_waiting (r : Realm δ) : (r.waiting.map (·.id)).Pairwise r.store.Before := by
  refine List.pairwise_map.mpr (((Store.precedes_listing _ _).filter _).imp_of_mem ?_)
  intro x y hx hy hPrecedes
  exact (Store.before_iff (mem_waiting.mp hx).1 (mem_waiting.mp hy).1).mpr hPrecedes

end Realm

/-- The queue of a realm that was started after callers came to it; `made` are the records that they
had admitted, in the order of their admission. -/
structure Resumed (made : List JobRecord) (r : Realm δ) : Prop where
  /-- What was admitted before the start stands in front of what the store has kept. -/
  queue : r.queue.ids =
    (r.store.waitingOf made).map (·.id) ++ (r.waitingBesides made).map (·.id)
  /-- The first of the queue is handed out first, whatever the time. -/
  first : ∀ now, (r.queue.take? now).map (·.1) = r.queue.ids.head?
  /-- If the stamps of the admitted runs never go back, the queue is in the order of creation
  exactly if none of them comes after a run that the store has kept. -/
  ordered : made.Pairwise (fun x y => x.precedes y = true) →
    (r.queue.ids = r.waiting.map (·.id) ↔
      ∀ x ∈ r.store.waitingOf made, ∀ y ∈ r.waitingBesides made, x.precedes y = true)

/-- What is put in front of the rest of a list makes another order of the list. -/
theorem perm_in_front {α : Type} [DecidableEq α] {front all : List α} (hFront : front.Nodup)
    (hAll : all.Nodup) (hIn : front ⊆ all) : (front ++ all.filter (· ∉ front)).Perm all := by
  have hSame : front.Perm (all.filter (· ∈ front)) := by
    refine (List.perm_ext_iff_of_nodup hFront (hAll.filter _)).mpr fun x => ?_
    rw [List.mem_filter, decide_eq_true_eq]
    exact ⟨fun hx => ⟨hIn hx, hx⟩, fun hx => hx.2⟩
  have hRest : all.filter (· ∉ front) = all.filter fun x => !decide (x ∈ front) :=
    List.filter_congr fun x _ => decide_not
  rw [hRest]
  exact (hSame.append_right _).trans (List.filter_append_perm _ _)

namespace Resumed

/-- What waits and is not in front are the runs that the store has kept. -/
theorem filter_waiting (made : List JobRecord) (r : Realm δ) :
    (r.waiting.map (·.id)).filter (· ∉ (r.store.waitingOf made).map (·.id)) =
      (r.waitingBesides made).map (·.id) := by
  rw [List.filter_map, Realm.waitingBesides]
  congr 1
  refine List.filter_congr fun y hy => decide_eq_decide.mpr (not_congr ?_)
  constructor
  · exact fun hIn => (List.filter_sublist.map _).subset hIn
  · intro hIn
    obtain ⟨x, hx, hId⟩ := List.mem_map.mp hIn
    obtain ⟨hStored, hState, -⟩ := Realm.mem_waiting.mp hy
    refine List.mem_map.mpr ⟨x, List.mem_filter.mpr ⟨hx, decide_eq_true ?_⟩, hId⟩
    rw [hId]
    exact Store.mem_idsIn_of_mem hStored hState

/-- A queue with the waiting runs of `made` in front of all that waits besides. -/
theorem of_queue
    (hQueue : r.queue.ids = (r.store.waitingOf made).map (·.id) ++
      (r.waiting.map (·.id)).filter (· ∉ (r.store.waitingOf made).map (·.id)))
    (hReady : r.queue.Ready) (hOnce : (made.map (·.id)).Nodup)
    (hWaits : ∀ x ∈ r.store.waitingOf made, ∃ y ∈ r.waiting, x.SameRun y) : Resumed made r := by
  have hParts := hQueue
  rw [filter_waiting] at hParts
  refine ⟨hParts, hReady.take?, fun hStamps => ?_⟩
  have hStored : ∀ y ∈ r.waiting, y ∈ r.store.records := fun y hy => (Realm.mem_waiting.mp hy).1
  have hBetween : ∀ x ∈ r.store.waitingOf made, ∀ y ∈ r.waitingBesides made,
      r.store.Before x.id y.id ↔ x.precedes y = true := by
    intro x hx y hy
    obtain ⟨x', hx', hSame⟩ := hWaits x hx
    exact Store.before_iff_of_sameRun (hStored x' hx') (hStored y (List.mem_filter.mp hy).1) hSame
      (.refl y)
  -- the queue holds all that waits, and so is in that order exactly if it is sorted
  have hAll : r.queue.ids.Perm (r.waiting.map (·.id)) := by
    rw [hQueue]
    refine perm_in_front (hOnce.sublist (List.filter_sublist.map _)) r.nodup_waiting
      fun id hId => ?_
    obtain ⟨x, hx, rfl⟩ := List.mem_map.mp hId
    obtain ⟨y, hy, hSame⟩ := hWaits x hx
    exact List.mem_map.mpr ⟨y, hy, hSame.id⟩
  have hSorted : r.queue.ids = r.waiting.map (·.id) ↔ r.queue.ids.Pairwise r.store.Before := by
    constructor
    · intro hEq
      rw [hEq]
      exact r.before_waiting
    · intro hPairwise
      exact hAll.eq_of_pairwise (fun _ _ _ _ => Store.before_antisymm) hPairwise r.before_waiting
  -- each of the two parts is sorted
  have hFront : ((r.store.waitingOf made).map (·.id)).Pairwise r.store.Before := by
    refine List.pairwise_map.mpr ((hStamps.filter _).imp_of_mem ?_)
    intro x y hx hy hPrecedes
    obtain ⟨x', hx', hSame⟩ := hWaits x hx
    obtain ⟨y', hy', hSame'⟩ := hWaits y hy
    exact (Store.before_iff_of_sameRun (hStored x' hx') (hStored y' hy') hSame hSame').mpr hPrecedes
  have hRest : ((r.waitingBesides made).map (·.id)).Pairwise r.store.Before :=
    r.before_waiting.sublist (List.filter_sublist.map _)
  rw [hSorted, hParts, List.pairwise_append]
  constructor
  · rintro ⟨-, -, hOrder⟩ x hx y hy
    exact (hBetween x hx y hy).mp (hOrder _ (List.mem_map_of_mem hx) _ (List.mem_map_of_mem hy))
  · intro hOrder
    refine ⟨hFront, hRest, fun i hi j hj => ?_⟩
    obtain ⟨x, hx, rfl⟩ := List.mem_map.mp hi
    obtain ⟨y, hy, rfl⟩ := List.mem_map.mp hj
    exact (hBetween x hx y hy).mpr (hOrder x hx y hy)

end Resumed

namespace System

variable {u : System δ} {events : List Event} {settings : RealmSettings} {registry : Registry δ}
  {store : Store} {cues : Nat → Cue}

/-- A start that comes after whole calls goes on to list the store. -/
theorem run_to_listing (threads : List (Thread δ)) (cues : Nat → Cue)
    (hRecovers : r.settings.recoverOnStart = true)
    (hCreated : r.lifecycle = .created) (hUnlocked : r.lifecycleHeld = false)
    (hCalm : ∀ k, (cues k).fault = none) :
    (⟨r, threads⟩ : System δ).run (.call .start :: stepsOf threads.length cues 3) =
      some ⟨{ r with lifecycleHeld := true }, threads ++
        [.caller (.starting (.recovering (r.store.list (Startup.backlog r.settings))))]⟩ := by
  have hCall : (⟨r, threads⟩ : System δ).step (.call .start) =
      some ⟨r, threads ++ [.caller (.made .start)]⟩ := rfl
  have hMade : (⟨r, threads ++ [.caller (.made .start)]⟩ : System δ).step
      (.advance threads.length (cues 0)) = some ⟨r, threads ++ [.caller (.starting .waiting)]⟩ := by
    simp [System.step, Thread.step, CallPoint.step, Call.begin, Call.goOn]
  have hWaiting : Startup.waiting.step (cues 1) r =
      some ({ r with lifecycleHeld := true }, .at .listing) := by
    simp [Startup.step, hCreated, hUnlocked, hRecovers]
  have hListing : Startup.listing.step (cues 2) { r with lifecycleHeld := true } =
      some ({ r with lifecycleHeld := true },
        .at (.recovering (r.store.list (Startup.backlog r.settings)))) := by
    simp only [Startup.step, Realm.ask, hCalm 2]
  rw [run, hCall, Option.bind_some, run_stepsOf_succ hMade,
    run_stepsOf_succ (step_starting_last hWaiting), run_stepsOf_succ (step_starting_last hListing)]
  rfl

/-- Callers submit and cancel, one after the other, before a realm with a valid configuration is
started, on whatever store. The start leaves a queue with their runs in front, in the order of
admission, and behind them those that the store has kept, by the time of creation. -/
theorem queue_of_start (cues : Nat → Cue) (hCheck : settings.check = .ok ())
    (hRecovers : settings.recoverOnStart = true)
    (hRun : (initial settings registry store).run events = some u)
    (hPrepares : ∀ e ∈ events, e.Prepares)
    (hWhole : (initial settings registry store).OneByOne events)
    (hRest : ∀ th ∈ u.threads, th.atRest = true) (hCalm : ∀ k, (cues k).fault = none) :
    ∃ n v, u.run (.call .start :: stepsOf u.threads.length cues n) = some v ∧
      v.threads = u.threads ++ [.caller (.starting .opening)] ∧
      Resumed (((initial settings registry store).trail admissions events).map (·.2)) v.realm := by
  obtain ⟨made, hMade⟩ :
      ∃ made, made = ((initial settings registry store).trail admissions events).map (·.2) :=
    ⟨_, rfl⟩
  have hPrepared := prepared_of_run hRun hPrepares hWhole
  rw [← hMade] at hPrepared ⊢
  have hSettings := settings_of_run hRun
  have hLined := hPrepared.lined
  rw [pending_of_atRest hRest] at hLined
  have hLine : u.realm.queue.ids = (u.realm.store.waitingOf made).map (·.id) := by
    rw [← hLined.line]
    simp
  -- the start goes through what it lists
  have hJoined : Startup.Joined u.realm.queue.ids u.realm.store []
      { u.realm with lifecycleHeld := true } :=
    ⟨(List.append_nil _).symm, hLined.ready, fun x hx _ => hx, .refl _⟩
  have hListed : ∀ x ∈ u.realm.store.list (Startup.backlog u.realm.settings),
      x ∈ u.realm.store.records ∧ (x.state = .queued ∨ x.state = .running) := fun x hx =>
    (Startup.mem_backlog.mp hx).imp_right And.left
  obtain ⟨n, r', hSteps, hDone⟩ := joins_all u.threads (fun k => cues (3 + k))
    (fun k => hCalm (3 + k)) hJoined (fun x hx => (hListed x hx).1)
    (Startup.nodup_backlog u.realm.store u.realm.settings) fun x hx => (hListed x hx).2
  have hFirst := run_to_listing u.threads cues ((congrArg _ hSettings).trans hRecovers)
    hPrepared.created hPrepared.unlocked hCalm
  have hWhole : u.run (.call .start :: stepsOf u.threads.length cues (3 + n)) =
      some ⟨r', u.threads ++ [.caller (.starting .opening)]⟩ := by
    rw [stepsOf, List.range_add, List.map_append, List.map_map, ← List.cons_append]
    exact (run_append_of_run hFirst).trans hSteps
  refine ⟨3 + n, _, hWhole, rfl, ?_⟩
  rw [List.nil_append] at hDone
  have hServed : r'.settings = u.realm.settings := settings_of_run hWhole
  have hWaiting : r'.waiting =
      (u.realm.store.list (Startup.backlog u.realm.settings)).filter (·.state = .queued) := by
    rw [Realm.waiting, hServed, Store.waiting_of_perm hDone.waiting]
  have hSame : r'.store.waitingOf made = u.realm.store.waitingOf made :=
    Store.waitingOf_congr fun x _ => (hDone.waiting.map _).mem_iff
  refine Resumed.of_queue ?_ hDone.ready ?_ fun x hx => ?_
  · rw [hDone.queue, hSame, hWaiting, hLine]
    rfl
  · have hOnce : u.realm.store.ids.Nodup := u.realm.store.nodup
    rw [hLined.ids] at hOnce
    exact (List.nodup_append.mp hOnce).2.1
  · -- a run that the realm has admitted is of a group that it serves
    obtain ⟨hMem, hWaits⟩ := List.mem_filter.mp hx
    obtain ⟨y, hy, hId, hState⟩ := Store.mem_idsIn.mp (of_decide_eq_true hWaits)
    have hOld : y ∈ u.realm.store.records := (List.mem_filter.mp
      (hDone.waiting.subset (List.mem_filter.mpr ⟨hy, decide_eq_true hState⟩))).1
    have hRun' := hPrepared.same x hMem y hOld hId
    refine ⟨y, Realm.mem_waiting.mpr ⟨hy, hState, ?_⟩, hRun'⟩
    rw [hMade] at hMem
    obtain ⟨⟨a, _⟩, hAdmitted, rfl⟩ := List.mem_map.mp hMem
    obtain ⟨before, e, t, -, hBefore, hAdmits⟩ := exists_of_mem_trail hAdmitted
    have hGroup := group_mem_of_admissions (RealmSettings.groups_ne_nil_of_check hCheck) hBefore
      hAdmits
    rw [hServed, hSettings, hRun'.group, Filter.admits]
    exact Bool.or_eq_true_iff.mpr (.inr (List.contains_iff_mem.mpr hGroup))

/-- A run that waits since an earlier life of its realm. -/
def kept : JobRecord :=
  let request : JobRequest :=
    { jobKey := "job", name := "job", group := none, arguments := Dict.empty,
      metadata := Dict.empty, constraints := [], retryPolicy := none, trigger := .immediate }
  request.toRecord ⟨⟨1⟩⟩ "default" .standard none ⟨5, 0⟩

/-- What a step finds at a time: the clock, and an id made of it. -/
def reading (n : Nat) : Cue :=
  { now := ⟨n, 0⟩, fresh := ⟨BitVec.ofNat 128 n⟩ }

/-- A request that is submitted, and admitted, before the realm is started. -/
def submittedEarly : List Event :=
  let request : JobRequest :=
    { jobKey := "job", name := "job", group := none, arguments := Dict.empty,
      metadata := Dict.empty, constraints := [], retryPolicy := none, trigger := .immediate }
  .call (.submit request) :: stepsOf 0 (fun k => reading (10 + k)) 6

theorem queue_of_start_submittedEarly :
    ∃ u v : System Unit, ∃ n,
      (initial { workers := 1 } ⟨Dict.empty.insert "job" ()⟩ ⟨[kept], by decide⟩).run
        submittedEarly = some u ∧
      u.run (.call .start :: stepsOf u.threads.length (fun k => reading (20 + k)) n) = some v ∧
      Resumed (((initial { workers := 1 } ⟨Dict.empty.insert "job" ()⟩
        ⟨[kept], by decide⟩ : System Unit).trail admissions submittedEarly).map (·.2)) v.realm := by
  have hEnd : ((initial { workers := 1 } ⟨Dict.empty.insert "job" ()⟩ ⟨[kept], by decide⟩).run
      submittedEarly).map (fun u : System Unit => u.threads.all (·.atRest)) = some true := by
    decide +kernel
  have hWhole : (initial { workers := 1 } ⟨Dict.empty.insert "job" ()⟩ ⟨[kept], by decide⟩ :
      System Unit).OneByOne submittedEarly := by
    unfold OneByOne
    decide +kernel
  have hPrepares : ∀ e ∈ submittedEarly, e.Prepares := by
    simp [submittedEarly, stepsOf, Event.Prepares]
  obtain ⟨u, hRun, hSeen⟩ := Option.map_eq_some_iff.mp hEnd
  obtain ⟨n, v, hStart, -, hResumed⟩ := queue_of_start (fun k => reading (20 + k))
    (by decide +kernel) rfl hRun hPrepares hWhole (List.all_eq_true.mp hSeen) fun _ => rfl
  exact ⟨u, v, n, hRun, hStart, hResumed⟩

/-- The run of that request. -/
def fresh : JobRecord :=
  { kept with id := ⟨⟨12⟩⟩, createdAt := ⟨12, 0⟩, updatedAt := ⟨12, 0⟩ }

/-- The realm when that request was answered. -/
def answeredEarly : System Unit where
  realm :=
    { settings := { workers := 1 }
      registry := ⟨Dict.empty.insert "job" ()⟩
      store := ⟨[kept, fresh], by decide⟩
      queue := { entries := [⟨fresh.id, none⟩] }
      counters := { admitted := 1 } }
  threads := [.answered (.ok (.job fresh.id))]

/-- The realm when a start has taken up everything after that. -/
def takenUp : System Unit where
  realm :=
    { answeredEarly.realm with
      lifecycleHeld := true
      queue := { entries := [⟨fresh.id, none⟩, ⟨kept.id, none⟩] } }
  threads := answeredEarly.threads ++ [.caller (.starting .opening)]

theorem waiting_answeredEarly :
    answeredEarly.realm.store.list (Startup.backlog answeredEarly.realm.settings) =
      [kept, fresh] := by
  show List.mergeSort [kept, fresh] JobRecord.precedes = [kept, fresh]
  have hFirst : kept.precedes fresh = true := by decide
  simp [List.mergeSort, List.MergeSort.Internal.splitInTwo, hFirst]

/-- What the clock shows when an event happens, if anyone looks. -/
def clock? : Event → Option Instant
  | .advance _ cue => some cue.now
  | _ => none

/-- A start does not bring the queue into the order of creation: a run that was submitted just
before it is handed out first, although another one has waited for longer. The configuration is
valid, the calls are whole, and the clock never goes back and is past every stored record. -/
theorem older_run_overtaken :
    let settings : RealmSettings := { workers := 1 }
    let start := Event.call .start :: stepsOf 1 (fun k => reading (20 + k)) 7
    settings.check = .ok () ∧ settings.recoverOnStart = true ∧
      (initial settings ⟨Dict.empty.insert "job" ()⟩ ⟨[kept], by decide⟩).run submittedEarly =
        some answeredEarly ∧
      answeredEarly.run start = some takenUp ∧
      (kept.createdAt :: (submittedEarly ++ start).filterMap clock?).Pairwise (· ≤ ·) ∧
      takenUp.realm.waiting.map (·.id) = [kept.id, fresh.id] ∧
      kept.createdAt < fresh.createdAt ∧
      takenUp.realm.queue.ids = [fresh.id, kept.id] ∧
      ∀ now, (takenUp.realm.queue.take? now).map (·.1) = some fresh.id := by
  have hListed := waiting_answeredEarly
  have hStart : answeredEarly.run (.call .start :: stepsOf 1 (fun k => reading (20 + k)) 7) =
      some takenUp := by
    have hFirst := run_to_listing (r := answeredEarly.realm) answeredEarly.threads
      (fun k => reading (20 + k)) rfl rfl rfl fun _ => rfl
    rw [hListed] at hFirst
    exact (run_append_of_run hFirst).trans rfl
  have hWaiting : takenUp.realm.waiting = [kept, fresh] := by
    have hSame : takenUp.realm.waiting =
        (answeredEarly.realm.store.list (Startup.backlog answeredEarly.realm.settings)).filter
          (·.state = .queued) := rfl
    rw [hSame, hListed]
    rfl
  refine ⟨by decide +kernel, rfl, rfl, hStart, by decide +kernel, ?_, by decide, rfl, fun _ => rfl⟩
  rw [hWaiting]
  rfl

end System

end BackgroundJobs
