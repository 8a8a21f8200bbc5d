import BackgroundJobs.Proofs.Realm.Admissions
import BackgroundJobs.Proofs.Realm.Lock
import BackgroundJobs.Proofs.Store.Listing

/-!
# Proofs — from the check of a request to its record

The check of a request and the creation of its record are two steps, with steps
of other threads in between. The admission lock is taken all the while, so that
nobody else creates a record: what only a new record could undo still stands
when the record is created.

Main results:

* `Store.perm_listActive_all` — a check sees exactly the active records.
* `System.standing_of_run`    — what the check found still stands when the
  record is created.
-/

namespace BackgroundJobs

namespace Store

/-- A check sees the active records, each of them once. -/
theorem perm_listActive_all (s : Store) :
    (s.listActive Filter.all).Perm (s.records.filter (·.isActive)) := by
  have hKeep : (fun x : JobRecord => x.isActive && Filter.all.selects x) = (·.isActive) := by
    funext x
    simp [Filter.selects, Filter.all, Filter.admits]
  rw [listActive_eq, hKeep]
  exact perm_listing s (·.isActive)

theorem mem_listActive_all {s : Store} {x : JobRecord} :
    x ∈ s.listActive Filter.all ↔ x ∈ s.records ∧ x.isActive = true := by
  rw [(perm_listActive_all s).mem_iff, List.mem_filter]

end Store

/-- A record that is about to be created was made by a check that the request passed just now. -/
theorem Admission.check_of_creating {δ : Type} {cue : Cue} {r r' : Realm δ} {a : Admission}
    {point : AdmissionPoint} {record : JobRecord}
    (h : a.step cue r point = some (r', .at (.creating record))) :
    r' = r ∧ a.request.check (r.store.listActive Filter.all) = .ok () ∧
      record = a.request.toRecord ⟨cue.fresh⟩ a.group a.policy a.triggerId cue.now := by
  cases point with
  | checking =>
    obtain ⟨hSame, hCheck, hRecord⟩ := step_checking h
    exact ⟨hSame, hCheck, AdmissionPoint.creating.inj hRecord⟩
  | waiting =>
    obtain ⟨-, -, hNext⟩ := step_waiting h
    cases hNext
  | creating made =>
    simp only [step] at h
    split at h <;> cases h
  | queueing made => cases h
  | counting made => cases h

namespace System

variable {δ : Type} {s u : System δ} {e : Event} {events : List Event}

/-- A thread that creates a record has the admission lock. -/
theorem admits_of_creating {th : Thread δ} {a : Admission} {record : JobRecord}
    (h : th.admission? = some (a, .creating record)) : admissionLock.owns th = true := by
  simp [admissionLock, Thread.admits, h, AdmissionPoint.locked]

/-- While a thread is about to create a record, nobody else creates one. -/
theorem admissions_of_creating (hLock : admissionLock.Kept s) {i : Nat} {th : Thread δ}
    {a : Admission} {record : JobRecord} (hAt : s.threads[i]? = some th)
    (hCreating : th.admission? = some (a, .creating record))
    (hOther : ∀ cue, e ≠ .advance i cue) : s.admissions e = [] := by
  refine List.eq_nil_iff_forall_not_mem.mpr fun x hx => ?_
  obtain ⟨j, cue, th', rfl, hAt', hCreating', -⟩ := creating_of_mem_admissions hx
  have hij := hLock.alone hAt hAt' (admits_of_creating hCreating) (admits_of_creating hCreating')
  exact hOther cue (by rw [hij])

/-- What the check of a request found, and what no step undoes that admits nothing, still stands
when its record is created. -/
theorem standing_of_run {r : Realm δ} {P : Store → Admission → JobRecord → Prop}
    (hCheck : ∀ store a id now, a.request.check (store.listActive Filter.all) = .ok () →
      P store a (a.request.toRecord id a.group a.policy a.triggerId now))
    (hKept : ∀ {s u : System δ} {e a record}, s.step e = some u → s.admissions e = [] →
      P s.realm.store a record → P u.realm.store a record)
    (hRun : (ofRealm r).run events = some u) {i : Nat} {th : Thread δ} {a : Admission}
    {record : JobRecord} (hAt : u.threads[i]? = some th)
    (hCreating : th.admission? = some (a, .creating record)) : P u.realm.store a record := by
  refine run_induction (motive := fun _ u => ∀ (i : Nat) th a record, u.threads[i]? = some th →
    th.admission? = some (a, .creating record) → P u.realm.store a record) hRun ?_ ?_
    i th a record hAt hCreating
  · intro i th a record hAt
    cases hAt
  · intro before s e v hBefore hStep ih i th a record hAt hCreating
    have hLock := Lock.kept_of_run admissionLock_lawful hBefore
    have hStays : s.threads[i]? = some th → (∀ cue, e ≠ .advance i cue) →
        P v.realm.store a record := fun hOld hOther =>
      hKept hStep (admissions_of_creating hLock hOld hCreating hOther)
        (ih i th a record hOld hCreating)
    cases e with
    | call call =>
      cases hStep
      rcases threads_of_call hAt with hOld | ⟨-, rfl⟩
      · exact hStays hOld nofun
      · cases hCreating
    | sweep cutoff =>
      cases hStep
      exact hStays hAt nofun
    | advance j cue =>
      obtain ⟨th₀, r', th', crew, hAt₀, hThread, rfl⟩ := step_advance hStep
      rcases threads_of_advance hAt with ⟨-, rfl⟩ | ⟨hij, hOld⟩ | ⟨-, hMem⟩
      · rcases Thread.admission_of_step hThread hCreating with ⟨hEq, -⟩ | ⟨_, -, hGoes⟩
        · cases hEq
        · obtain ⟨rfl, hPassed, rfl⟩ := Admission.check_of_creating hGoes
          exact hCheck _ a _ _ hPassed
      · refine hStays hOld ?_
        rintro cue' ⟨⟩
        exact hij rfl
      · rcases Thread.crew_of_step hThread th hMem with rfl | rfl <;> cases hCreating

end System

end BackgroundJobs
