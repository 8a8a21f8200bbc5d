import BackgroundJobs.Proofs.Job.Constraint
import BackgroundJobs.Proofs.Realm.Standing

/-!
# Proofs — unique runs

A job whose requests are all to be unique by some arguments never has two
active runs that agree on them, however the threads of the realm interleave.
The check of a request and the creation of its record are two steps, and
records change their state in between. But nothing revives a record that is
over, and nobody else creates one, so what the check found to be free is still
free when the record is created.

Main results:

* `clear_of_run`   — a record that is about to be created still has no active
  rival.
* `unique_of_run`  — no two active runs of such a job agree on the arguments.
-/

namespace BackgroundJobs

namespace Store

/-- No two active runs of the job have equal values for all the named arguments. -/
def UniqueOn (jobKey : String) (names : List String) (s : Store) : Prop :=
  ∀ x ∈ s.records, ∀ y ∈ s.records, x ≠ y → x.isActive = true → y.isActive = true →
    x.jobKey = jobKey → y.jobKey = jobKey → ¬ x.arguments.Agree names y.arguments

end Store

namespace System

variable {δ : Type} {s u : System δ} {e : Event} {events : List Event} {jobKey : String}
  {names : List String}

-- ---------------------------------------------------------------------------
-- Between the check and the creation
-- ---------------------------------------------------------------------------

/-- No active run agrees with a record that is about to be created on arguments by which its
request is to be unique. -/
def Clear (s : System δ) : Prop :=
  ∀ {i : Nat} {th a record}, s.threads[i]? = some th → th.admission? = some (a, .creating record) →
    ∀ {names}, .uniqueByArguments names ∈ a.request.constraints →
      ∀ x ∈ s.realm.store.records, x.isActive = true → x.jobKey = record.jobKey →
        ¬ x.arguments.Agree names record.arguments

/-- However a run goes, a record that is about to be created still has no active rival. -/
theorem clear_of_run {r : Realm δ} (hRun : (ofRealm r).run events = some u) : u.Clear := by
  intro i th a record hAt hCreating names hNames x hx hActive hKey
  refine standing_of_run (P := fun store a record =>
    .uniqueByArguments names ∈ a.request.constraints → ∀ x ∈ store.records, x.isActive = true →
      x.jobKey = record.jobKey → ¬ x.arguments.Agree names record.arguments)
    ?_ ?_ hRun hAt hCreating hNames x hx hActive hKey
  · intro store a id now hCheck hNames x hx hActive hKey
    exact Constraint.not_agree_of_test_ok (JobRequest.test_of_check hCheck hNames)
      (Store.mem_listActive_all.mpr ⟨hx, hActive⟩) hKey
  · intro s v e a record hStep hNone hClear hNames x hx hActive hKey
    rcases active_of_step hStep hx hActive with ⟨x₀, hx₀, hActive₀, hSame⟩ | ⟨b, hAdmitted⟩
    · rw [hSame.arguments]
      exact hClear hNames x₀ hx₀ hActive₀ (hSame.jobKey ▸ hKey)
    · rw [hNone] at hAdmitted
      cases hAdmitted

-- ---------------------------------------------------------------------------
-- Unique runs
-- ---------------------------------------------------------------------------

/-- Does every request for the job that an observer saw admitted ask to be unique? -/
def AskUnique (jobKey : String) (names : List String) (admitted : List (Admission × JobRecord)) :
    Prop :=
  ∀ x ∈ admitted, x.1.request.jobKey = jobKey →
    .uniqueByArguments names ∈ x.1.request.constraints

theorem unique_step (hClear : s.Clear)
    (hFormed : ∀ {i : Nat} {th}, s.threads[i]? = some th → th.Formed)
    (hAsk : AskUnique jobKey names (s.admissions e)) (hUnique : s.realm.store.UniqueOn jobKey names)
    (hStep : s.step e = some u) : u.realm.store.UniqueOn jobKey names := by
  -- what is created now has no rival among the runs that were active before
  have hNew : ∀ {a x y}, (a, x) ∈ s.admissions e → x.jobKey = jobKey →
      y ∈ s.realm.store.records → y.isActive = true → y.jobKey = jobKey →
      ¬ y.arguments.Agree names x.arguments := by
    intro a x y hAdmitted hxKey hy hyActive hyKey
    obtain ⟨i, cue, th, -, hAt, hCreating, -⟩ := creating_of_mem_admissions hAdmitted
    obtain ⟨id, now, rfl⟩ := hFormed hAt a _ x hCreating rfl
    exact hClear hAt hCreating (hAsk _ hAdmitted hxKey) y hy hyActive (hyKey.trans hxKey.symm)
  intro x hx y hy hNe hxActive hyActive hxKey hyKey hAgree
  rcases active_of_step hStep hx hxActive with ⟨x₀, hx₀, hxActive₀, hxSame⟩ | ⟨a, hxNew⟩ <;>
    rcases active_of_step hStep hy hyActive with ⟨y₀, hy₀, hyActive₀, hySame⟩ | ⟨b, hyNew⟩
  · have hNe₀ : x₀ ≠ y₀ := by
      rintro rfl
      exact hNe (Store.eq_of_mem_of_id_eq hx hy (hxSame.id.trans hySame.id.symm))
    rw [hxSame.arguments, hySame.arguments] at hAgree
    exact hUnique x₀ hx₀ y₀ hy₀ hNe₀ hxActive₀ hyActive₀ (hxSame.jobKey ▸ hxKey)
      (hySame.jobKey ▸ hyKey) hAgree
  · rw [hxSame.arguments] at hAgree
    exact hNew hyNew hyKey hx₀ hxActive₀ (hxSame.jobKey ▸ hxKey) hAgree
  · rw [hySame.arguments] at hAgree
    exact hNew hxNew hxKey hy₀ hyActive₀ (hySame.jobKey ▸ hyKey) hAgree.symm
  · cases eq_of_mem_admissions hxNew hyNew
    exact hNe rfl

/-- If every request that is admitted for a job asks to be unique by some arguments, no two active
runs of the job agree on them, after any interleaving of any threads. -/
theorem unique_of_run {r : Realm δ} (hRun : (ofRealm r).run events = some u)
    (hStart : r.store.UniqueOn jobKey names)
    (hAsk : AskUnique jobKey names ((ofRealm r).trail admissions events)) :
    u.realm.store.UniqueOn jobKey names := by
  refine run_induction (motive := fun events u =>
    AskUnique jobKey names ((ofRealm r).trail admissions events) →
      u.realm.store.UniqueOn jobKey names) hRun (fun _ => hStart) ?_ hAsk
  intro before t e v hBefore hStep ih hAsk
  rw [trail_concat hBefore] at hAsk
  refine unique_step (clear_of_run hBefore) (made_of_run hBefore)
    (fun x hx => hAsk x (List.mem_append_right _ hx))
    (ih fun x hx => hAsk x (List.mem_append_left _ hx)) hStep

/-- A request that is to be unique by its argument `key`. -/
def keyed (value : Int) : JobRequest :=
  { jobKey := "job", name := "job", group := none,
    arguments := Dict.empty.insert "key" (.int value), metadata := Dict.empty,
    constraints := [.uniqueByArguments ["key"]], retryPolicy := none, trigger := .immediate }

/-- Three callers submit requests for one job, two of them with the same argument. The second and
the third come while the first is between its check and the creation of its record. -/
def racing : List Event :=
  let advance (i n : Nat) : Event := .advance i { now := ⟨n, 0⟩, fresh := ⟨BitVec.ofNat 128 n⟩ }
  [.call (.submit (keyed 1)), advance 0 1, advance 0 2, advance 0 3,
    .call (.submit (keyed 1)), .call (.submit (keyed 2)), advance 1 4, advance 2 5,
    advance 0 6, advance 0 7, advance 0 8,
    advance 1 9, advance 1 10,
    advance 2 11, advance 2 12, advance 2 13, advance 2 14, advance 2 15]

theorem unique_of_run_racing :
    ∃ u : System Unit,
      (ofRealm (.make default ⟨Dict.empty.insert "job" ()⟩ Store.empty)).run racing = some u ∧
        u.realm.counters.admitted = 2 ∧ u.realm.counters.rejected = 1 ∧
        u.realm.store.UniqueOn "job" ["key"] := by
  have hEnd : ((ofRealm (.make default ⟨Dict.empty.insert "job" ()⟩ Store.empty)).run racing).map
      (fun u => (u.realm.counters.admitted, u.realm.counters.rejected)) = some (2, 1) := by
    decide +kernel
  have hAsk : ∀ x ∈ (ofRealm (.make default ⟨Dict.empty.insert "job" ()⟩ Store.empty)).trail
      admissions racing, x.1.request.jobKey = "job" →
        .uniqueByArguments ["key"] ∈ x.1.request.constraints := by
    decide +kernel
  obtain ⟨u, hRun, hCounters⟩ := Option.map_eq_some_iff.mp hEnd
  obtain ⟨hTwo, hOne⟩ := Prod.mk.inj hCounters
  refine ⟨u, hRun, hTwo, hOne, unique_of_run hRun ?_ hAsk⟩
  intro x hx
  cases hx

end System

end BackgroundJobs
