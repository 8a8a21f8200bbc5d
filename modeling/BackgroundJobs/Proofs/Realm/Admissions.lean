import BackgroundJobs.Proofs.Realm.Effect
import BackgroundJobs.Proofs.Realm.Threads
import BackgroundJobs.Proofs.Store.Evolution

/-!
# Proofs — where the records of a realm come from

The only step that creates a record is one of an admission. Its record is made
of the admitted request, and from then on the fields that say which run it is
never change, while its state only moves along the edges of the state graph.

Main results:

* `made_of_run`        — a record that is to be created is made of its request.
* `System.admissions`  — the observer of successful admissions.
* `changes_of_step`    — a record after a step has come of one before, or was admitted by it.
-/

namespace BackgroundJobs

-- ---------------------------------------------------------------------------
-- Admissions under way
-- ---------------------------------------------------------------------------

/-- The record that an admission has made, from the check of its request on. -/
def AdmissionPoint.record? : AdmissionPoint → Option JobRecord
  | .creating record | .queueing record | .counting record => some record
  | .waiting | .checking => none

/-- Is this a record that the admitted request begins with? -/
def Admission.Made (a : Admission) (record : JobRecord) : Prop :=
  ∃ id now, record = a.request.toRecord id a.group a.policy a.triggerId now

variable {δ : Type} {cue : Cue} {r r' : Realm δ} {th th' : Thread δ} {crew : List (Thread δ)}

/-- A record is made by the check that the request passes, from what the check found. -/
theorem Admission.step_checking {a : Admission} {next : AdmissionPoint}
    (h : a.step cue r .checking = some (r', .at next)) :
    r' = r ∧ a.request.check (r.store.listActive Filter.all) = .ok () ∧
      next = .creating (a.request.toRecord ⟨cue.fresh⟩ a.group a.policy a.triggerId cue.now) := by
  simp only [step] at h
  split at h
  · cases h
  · next active hAsk =>
    split at h
    · cases h
    · next hCheck =>
      cases h
      unfold Realm.ask at hAsk
      split at hAsk <;> cases hAsk
      exact ⟨rfl, hCheck, rfl⟩

theorem Admission.made_of_step {a : Admission} {point next : AdmissionPoint} {record : JobRecord}
    (h : a.step cue r point = some (r', .at next)) (hRecord : next.record? = some record)
    (hMade : ∀ record, point.record? = some record → a.Made record) : a.Made record := by
  cases point with
  | waiting =>
    simp only [step] at h
    split at h <;> cases h
    cases hRecord
  | checking =>
    obtain ⟨-, -, rfl⟩ := step_checking h
    cases hRecord
    exact ⟨_, _, rfl⟩
  | creating made =>
    simp only [step] at h
    split at h <;> cases h
    cases hRecord
    exact hMade record rfl
  | queueing made =>
    cases h
    cases hRecord
    exact hMade record rfl
  | counting made => cases h

/-- Is the record of an admission under way made of its request? -/
def Thread.Formed (th : Thread δ) : Prop :=
  ∀ a point record, th.admission? = some (a, point) → point.record? = some record → a.Made record

theorem Thread.formed_step (h : th.step cue r = some (r', th', crew)) (hFormed : th.Formed) :
    th'.Formed ∧ ∀ x ∈ crew, x.Formed := by
  refine ⟨?_, ?_⟩
  · intro a point record hAt hRecord
    rcases admission_of_step h hAt with ⟨rfl, -⟩ | ⟨before, hBefore, hStep⟩
    · cases hRecord
    · exact Admission.made_of_step hStep hRecord fun made hMade =>
        hFormed a before made hBefore hMade
  · intro x hx a point record hAt _
    rcases crew_of_step h x hx with rfl | rfl <;> cases hAt

/-- In every run the record that an admission is about to create is made of its request. -/
theorem System.made_of_run {r : Realm δ} {events : List Event} {u : System δ}
    (hRun : (System.ofRealm r).run events = some u) {i : Nat} {th : Thread δ}
    (hAt : u.threads[i]? = some th) : th.Formed := by
  refine forall_threads_of_run (P := fun _ th => th.Formed) ?_ ?_ ?_ ?_ ?_ hRun i th hAt
  · intro _ call a point record hNone
    cases hNone
  · intro cue r th r' th' crew hStep hFormed
    exact Thread.formed_step hStep hFormed
  · intro _ _ _ _ _ _ _ other hFormed
    exact hFormed
  · intro _ _ other hFormed
    exact hFormed
  · intro j x hx
    cases hx

-- ---------------------------------------------------------------------------
-- Successful admissions
-- ---------------------------------------------------------------------------

/-- Only an admission has the store create a record. -/
theorem Thread.creating_of_op? {record : JobRecord} (h : th.op? cue r = some (.create record)) :
    ∃ a, th.admission? = some (a, .creating record) := by
  have hPoint : ∀ {point : AdmissionPoint}, point.op? = some (.create record) →
      point = .creating record := by
    intro point hOp
    cases point <;> cases hOp
    rfl
  cases th with
  | caller callPoint =>
    cases callPoint with
    | admitting a point =>
      cases hPoint h
      exact ⟨a, rfl⟩
    | made call =>
      cases call with
      | purge =>
        obtain ⟨cutoff, -, hOp⟩ := Option.map_eq_some_iff.mp h
        cases hOp
      | _ => cases h
    | starting point =>
      cases point with
      | recovering rest =>
        cases rest with
        | nil => cases h
        | cons record rest =>
          simp only [op?, CallPoint.op?, Startup.op?] at h
          split at h <;> cases h
      | _ => cases h
    | stopping point => cases point <;> cases h
    | canceling point => cases point <;> cases h
    | scheduling point => cases h
    | declaring point => cases h
  | timer t =>
    cases t with
    | firing now id rest a point =>
      cases hPoint h
      exact ⟨a, rfl⟩
    | _ => cases h
  | worker w => cases w <;> cases h
  | answered answer => cases h

theorem Thread.op?_of_creating {a : Admission} {record : JobRecord}
    (h : th.admission? = some (a, .creating record)) : th.op? cue r = some (.create record) := by
  unfold admission? at h
  split at h <;> cases h <;> rfl

/-- The requests that an event admits, with the records that they begin with. -/
def System.admissions (s : System δ) : Event → List (Admission × JobRecord)
  | .advance i cue =>
    match s.threads[i]?.bind (·.admission?) with
    | some (a, .creating record) =>
      match s.realm.tell cue fun store => (store.create record).map (Prod.mk ()) with
      | (.ok (), _) => [(a, record)]
      | (.error _, _) => []
    | _ => []
  | _ => []

namespace System

variable {s u : System δ} {e : Event}

/-- The event that creates a record admits a request. -/
theorem mem_admissions_of_create {record : JobRecord} {now : Instant}
    (hOp : s.op? e = some (.create record, now)) (hNew : record.id ∉ s.realm.store.ids) :
    ∃ a, (a, record) ∈ s.admissions e := by
  cases e with
  | call call => cases hOp
  | sweep cutoff => cases hOp
  | advance i cue =>
    obtain ⟨hFault, -, th, hAt, hAsks⟩ := op?_advance_eq_some.mp hOp
    obtain ⟨a, hCreating⟩ := Thread.creating_of_op? hAsks
    obtain ⟨store, hStore⟩ := Store.create_ok_iff.mpr hNew
    refine ⟨a, ?_⟩
    simp [admissions, hAt, hCreating, Realm.tell, hFault, hStore, Except.map]

/-- An event that admits a request is the step of a thread that was about to create its record. -/
theorem creating_of_mem_admissions {a : Admission} {record : JobRecord}
    (h : (a, record) ∈ s.admissions e) :
    ∃ i cue th, e = .advance i cue ∧ s.threads[i]? = some th ∧
      th.admission? = some (a, .creating record) ∧ record.id ∉ s.realm.store.ids ∧
      s.op? e = some (.create record, cue.now) := by
  cases e with
  | call call => cases h
  | sweep cutoff => cases h
  | advance i cue =>
    simp only [admissions] at h
    split at h
    · next hAdmission =>
      obtain ⟨th, hAt, hCreating⟩ := Option.bind_eq_some_iff.mp hAdmission
      split at h
      · next hTold =>
        cases List.mem_singleton.mp h
        have hOp : th.op? cue s.realm = some (.create record) := Thread.op?_of_creating hCreating
        obtain ⟨hFault, store, hCreate, -⟩ := (Realm.tell_eq_ok _ _).mp hTold
        refine ⟨i, cue, th, rfl, hAt, hCreating, ?_,
          op?_advance_eq_some.mpr ⟨hFault, rfl, th, hAt, hOp⟩⟩
        cases hStore : s.realm.store.create record with
        | error e =>
          rw [hStore] at hCreate
          cases hCreate
        | ok store => exact (Store.records_of_create_ok hStore).2
      · cases h
    · cases h

/-- An event admits at most one request. -/
theorem eq_of_mem_admissions {x y : Admission × JobRecord} (hx : x ∈ s.admissions e)
    (hy : y ∈ s.admissions e) : x = y := by
  obtain ⟨i, cue, th, rfl, hAt, hCreating, -⟩ := creating_of_mem_admissions hx
  obtain ⟨j, cue', th', hEvent, hAt', hCreating', -⟩ := creating_of_mem_admissions hy
  cases hEvent
  rw [hAt] at hAt'
  cases hAt'
  rw [hCreating] at hCreating'
  have hPair := Option.some.inj hCreating'
  have hRecord := AdmissionPoint.creating.inj (Prod.mk.inj hPair).2
  exact Prod.ext (Prod.mk.inj hPair).1 hRecord

/-- A worker admits nothing. -/
theorem admissions_of_worker {i : Nat} {cue : Cue} {w : Worker δ}
    (hAt : s.threads[i]? = some (.worker w)) : s.admissions (.advance i cue) = [] := by
  simp [admissions, hAt, Thread.admission?]

/-- A record after an event is what has become of one that was stored before, or was admitted. -/
theorem changes_of_step {x' : JobRecord} (hStep : s.step e = some u)
    (hx : x' ∈ u.realm.store.records) :
    (∃ x ∈ s.realm.store.records, x.Changes x') ∨ ∃ a, (a, x') ∈ s.admissions e := by
  rw [store_of_step hStep] at hx
  cases hOp : s.op? e with
  | none =>
    rw [hOp] at hx
    exact .inl ⟨x', hx, .refl x'⟩
  | some asked =>
    obtain ⟨op, now⟩ := asked
    rw [hOp] at hx
    cases Store.origin_of_mem_perform hx with
    | kept hOld => exact .inl ⟨x', hOld, .refl x'⟩
    | created hCreate hNew =>
      subst hCreate
      exact .inr (mem_admissions_of_create hOp hNew)
    | moved x t hOld _ hEdge hEq => exact .inl ⟨x, hOld, hEq ▸ .apply hEdge now⟩
    | marked x hOld _ hEq => exact .inl ⟨x, hOld, hEq ▸ .marked x now⟩

/-- A record that is active after an event was active before, or was admitted by it. -/
theorem active_of_step {x' : JobRecord} (hStep : s.step e = some u)
    (hx : x' ∈ u.realm.store.records) (hActive : x'.isActive = true) :
    (∃ x ∈ s.realm.store.records, x.isActive = true ∧ x.SameRun x') ∨
      ∃ a, (a, x') ∈ s.admissions e := by
  rcases changes_of_step hStep hx with ⟨x, hOld, hChanges⟩ | hAdmitted
  · refine .inl ⟨x, hOld, ?_, hChanges.sameRun⟩
    cases hOver : x.isActive with
    | true => rfl
    | false =>
      have hTerminal : x.isTerminal = true := by rw [JobRecord.isTerminal_eq, hOver]; rfl
      rw [hChanges.terminal hTerminal, hOver] at hActive
      cases hActive
  · exact .inr hAdmitted

/-- A run that is over stays over, as long as no run gets an id that was used before. -/
theorem terminal_of_step {ids : List JobId} {id : JobId} (hStep : s.step e = some u)
    (hIds : (ids ++ (s.admissions e).map (·.2.id)).Nodup) (hId : id ∈ ids)
    (h : ∀ x ∈ s.realm.store.records, x.id = id → x.isTerminal = true) :
    ∀ x ∈ u.realm.store.records, x.id = id → x.isTerminal = true := by
  rintro x' hx' rfl
  rcases changes_of_step hStep hx' with ⟨x, hx, hChanges⟩ | ⟨a, hAdmitted⟩
  · have hOver := h x hx hChanges.sameRun.id.symm
    rw [hChanges.terminal hOver]
    exact hOver
  · exact absurd rfl ((List.nodup_append.mp hIds).2.2 _ hId _ (List.mem_map_of_mem hAdmitted))

end System

end BackgroundJobs
