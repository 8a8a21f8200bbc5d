import BackgroundJobs.Proofs.Realm.Endings
import BackgroundJobs.Proofs.Store.States

/-!
# Proofs — every admitted run is accounted for

A run that was admitted is active until the realm ends it, whatever is deleted
meanwhile: only records of runs that are over are ever deleted. And an
admission that has created its record goes on to count the run. So on a store
that was empty at the beginning, the runs that were counted as admitted are
those that are active and those that were ended, but for the admissions that are
under way.

Main results:

* `admitted_of_run`  — the count of admitted runs, and the admissions under way.
* `admissions_perm`  — an admitted run is active, or was ended.
-/

namespace BackgroundJobs

variable {δ : Type}

-- ---------------------------------------------------------------------------
-- Counted admissions
-- ---------------------------------------------------------------------------

/-- The run that an admission has created and not counted yet. -/
def AdmissionPoint.joining : AdmissionPoint → List JobRecord
  | .queueing record | .counting record => [record]
  | _ => []

/-- The run that a thread has created and not counted yet. -/
def Thread.joining (th : Thread δ) : List JobRecord :=
  th.admission?.elim [] (·.2.joining)

namespace System

variable {s u : System δ} {e : Event} {events : List Event}

/-- A step counts a run that was created before, or creates one that is to be counted. -/
theorem joins_of_step {i : Nat} {cue : Cue} {th th' : Thread δ} {r' : Realm δ}
    {crew : List (Thread δ)} (hAt : s.threads[i]? = some th)
    (hThread : th.step cue s.realm = some (r', th', crew)) :
    th.joins + th'.joining.length =
      th.joining.length + (s.admissions (.advance i cue)).length := by
  simp only [Thread.joins, Thread.joining, admissions, hAt, Option.bind_some]
  cases hAdmission : th.admission? with
  | none =>
    rcases Thread.admission_begins hAdmission hThread with hNone | ⟨a, hWaiting⟩
    · rw [hNone]
      rfl
    · rw [hWaiting]
      rfl
  | some x =>
    obtain ⟨a, point⟩ := x
    have hGoes := (Thread.admission_step hAdmission hThread).2
    cases point with
    | waiting =>
      rcases hGoes with ⟨next, hStep, hNext⟩ | ⟨result, -, hNone⟩
      · simp only [Admission.step] at hStep
        split at hStep <;> cases hStep
        rw [hNext]
        rfl
      · rw [hNone]
        rfl
    | checking =>
      rcases hGoes with ⟨next, hStep, hNext⟩ | ⟨result, -, hNone⟩
      · obtain ⟨-, -, rfl⟩ := Admission.step_checking hStep
        rw [hNext]
        rfl
      · rw [hNone]
        rfl
    | creating record =>
      rcases hGoes with ⟨next, hStep, hNext⟩ | ⟨result, hStep, hNone⟩
      · simp only [Admission.step] at hStep
        split at hStep
        · next hTold =>
          cases hStep
          simp only [hNext, hTold]
          rfl
        · cases hStep
      · simp only [Admission.step] at hStep
        split at hStep
        · cases hStep
        · next hTold =>
          simp only [hNone, hTold]
          rfl
    | queueing record =>
      rcases hGoes with ⟨next, hStep, hNext⟩ | ⟨result, hStep, -⟩
      · cases hStep
        rw [hNext]
        rfl
      · cases hStep
    | counting record =>
      rcases hGoes with ⟨next, hStep, -⟩ | ⟨result, -, hNone⟩
      · cases hStep
      · rw [hNone]
        rfl

theorem Closing.admitted {cue : Cue} {r r' : Realm δ} {joined : Nat}
    {owed noted owed' : Option JobRecord} (h : Closing cue r r' joined owed noted owed') :
    r'.counters.admitted = r.counters.admitted + joined := by
  cases h with
  | apart _ _ _ hBooks => exact hBooks.admitted
  | ends _ _ hBooks => exact hBooks.admitted
  | notes y _ hCounters _ =>
    rw [hCounters]
    cases y.state <;> rfl

/-- The runs that were counted as admitted are those that were admitted, but for the admissions that
are under way. -/
theorem admitted_of_run {settings : RealmSettings} {registry : Registry δ} {store : Store}
    (hRun : (initial settings registry store).run events = some u) :
    u.realm.counters.admitted + (u.gather (·.joining)).length =
      ((initial settings registry store).trail admissions events).length := by
  refine run_induction (motive := fun events u =>
    u.realm.counters.admitted + (u.gather (·.joining)).length =
      ((initial settings registry store).trail admissions events).length) hRun rfl ?_
  intro before t e v hBefore hStep ih
  rw [trail_concat hBefore, List.length_append, ← ih]
  cases e with
  | call call =>
    rw [gather_of_call hStep rfl]
    cases hStep
    rfl
  | sweep cutoff =>
    cases hStep
    rfl
  | advance i cue =>
    obtain ⟨th, r', th', crew, hAt, hThread, rfl⟩ := step_advance hStep
    have hCrew : ∀ x ∈ crew, x.joining = [] := by
      intro x hx
      rcases Thread.crew_of_step hThread x hx with rfl | rfl <;> rfl
    obtain ⟨rest, hBeforehand, hAfter⟩ := gather_of_advance hAt hCrew r' th'
    have hJoins := joins_of_step hAt hThread
    have hAdmitted := Closing.admitted (Thread.closes hThread)
    rw [hBeforehand.length_eq, hAfter.length_eq, List.length_append, List.length_append]
    show r'.counters.admitted + _ = _
    omega

-- ---------------------------------------------------------------------------
-- Active and ended runs
-- ---------------------------------------------------------------------------

/-- A record that is active before an event is active after it, or was ended by it. -/
theorem active_or_ended {x : JobRecord} (hStep : s.step e = some u)
    (hx : x ∈ s.realm.store.records) (hActive : x.isActive = true) :
    (∃ y ∈ u.realm.store.records, y.id = x.id ∧ y.isActive = true) ∨
      ∃ y ∈ s.endings e, y.id = x.id := by
  have hStays : x.id ∈ u.realm.store.ids := by
    rw [store_of_step hStep]
    cases s.op? e with
    | none => exact Store.id_mem_ids hx
    | some asked =>
      by_contra hGone
      have hOver := ((Store.deleted_iff hx).mp hGone).1
      rw [JobRecord.isTerminal_eq, hActive] at hOver
      cases hOver
  obtain ⟨y, hy, hId⟩ := List.mem_map.mp hStays
  cases hOver : y.isActive with
  | true => exact .inl ⟨y, hy, hId, hOver⟩
  | false =>
    refine .inr ⟨y, ?_, hId⟩
    rw [endings_of_step hStep, Store.mem_endedBy, JobRecord.isTerminal_eq, hOver]
    exact ⟨hy, rfl, x, hx, hId.symm, hActive⟩

/-- An event that admits a run stores it. -/
theorem stored_of_mem_admissions {a : Admission} {record : JobRecord} (hStep : s.step e = some u)
    (h : (a, record) ∈ s.admissions e) : record ∈ u.realm.store.records := by
  obtain ⟨i, cue, th, -, -, -, hNew, hOp⟩ := creating_of_mem_admissions h
  obtain ⟨store, hCreate⟩ := Store.create_ok_iff.mpr hNew
  rw [store_of_step hStep, hOp]
  simp only [Option.elim_some, Store.perform, hCreate, (Store.records_of_create_ok hCreate).1]
  exact List.mem_append_right _ List.mem_cons_self

variable {settings : RealmSettings} {registry : Registry δ} {store : Store}

/-- A run that was admitted is active, or was ended. -/
theorem active_or_ended_of_run (hRun : (initial settings registry store).run events = some u)
    {id : JobId}
    (hAdmitted : id ∈ ((initial settings registry store).trail admissions events).map (·.2.id)) :
    id ∈ u.realm.store.activeIds ∨
      ∃ y ∈ (initial settings registry store).trail endings events, y.id = id := by
  refine run_induction (motive := fun events u => ∀ id,
    id ∈ ((initial settings registry store).trail admissions events).map (·.2.id) →
      id ∈ u.realm.store.activeIds ∨
        ∃ y ∈ (initial settings registry store).trail endings events, y.id = id) hRun ?_ ?_ id
    hAdmitted
  · intro id hNone
    cases hNone
  · intro before t e v hBefore hStep ih id hAdmitted
    rw [trail_concat hBefore, List.map_append, List.mem_append] at hAdmitted
    rw [trail_concat hBefore]
    rcases hAdmitted with hOld | hNew
    · rcases ih id hOld with hActive | ⟨y, hy, hId⟩
      · obtain ⟨x, hx, rfl, hGoesOn⟩ := Store.mem_activeIds.mp hActive
        rcases active_or_ended hStep hx hGoesOn with hStays | ⟨y, hy, hId⟩
        · exact .inl (Store.mem_activeIds.mpr hStays)
        · exact .inr ⟨y, List.mem_append_right _ hy, hId⟩
      · exact .inr ⟨y, List.mem_append_left _ hy, hId⟩
    · obtain ⟨⟨a, record⟩, hMem, rfl⟩ := List.mem_map.mp hNew
      obtain ⟨i, cue, th, -, hAt, hCreating, -⟩ := creating_of_mem_admissions hMem
      obtain ⟨_, _, hMade⟩ := made_of_run hBefore hAt a _ record hCreating rfl
      have hFirst : record.isActive = true := by
        rw [hMade]
        rfl
      have hStored := stored_of_mem_admissions hStep hMem
      exact .inl (Store.mem_activeIds.mpr ⟨record, hStored, rfl, hFirst⟩)

/-- On a store that was empty at the beginning, the admitted runs are those that are active and
those that were ended. -/
theorem admissions_perm (hRun : (initial settings registry Store.empty).run events = some u)
    (hIds : ((initial settings registry Store.empty).runIds events).Nodup) :
    (((initial settings registry Store.empty).trail admissions events).map (·.2.id)).Perm
      (((initial settings registry Store.empty).trail endings events).map (·.id) ++
        u.realm.store.activeIds) := by
  have hSettled := settled_of_run hRun hIds
  have hOwned := owned_of_run hRun hIds
  have hApart : ∀ id ∈ ((initial settings registry Store.empty).trail endings events).map (·.id),
      ∀ other ∈ u.realm.store.activeIds, id ≠ other := by
    rintro id hEnded _ hActive rfl
    obtain ⟨y, hy, rfl⟩ := List.mem_map.mp hEnded
    obtain ⟨x, hx, hId, hGoesOn⟩ := Store.mem_activeIds.mp hActive
    obtain ⟨hOver, -, hStays⟩ := hSettled.ended y hy
    rw [← hStays x hx hId, JobRecord.isTerminal_eq, hGoesOn] at hOver
    cases hOver
  refine (List.perm_ext_iff_of_nodup hIds
    (List.nodup_append.mpr ⟨hSettled.once, Store.nodup_activeIds _, hApart⟩)).mpr fun id => ?_
  rw [List.mem_append]
  constructor
  · intro hAdmitted
    rcases active_or_ended_of_run hRun hAdmitted with hActive | ⟨y, hy, hId⟩
    · exact .inr hActive
    · exact .inl (List.mem_map.mpr ⟨y, hy, hId⟩)
  · rintro (hEnded | hActive)
    · obtain ⟨y, hy, rfl⟩ := List.mem_map.mp hEnded
      exact (hSettled.ended y hy).2.1
    · obtain ⟨x, hx, rfl, -⟩ := Store.mem_activeIds.mp hActive
      exact hOwned.stored x hx

end System

end BackgroundJobs
