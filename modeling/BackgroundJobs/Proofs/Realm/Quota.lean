import BackgroundJobs.Proofs.Job.Constraint
import BackgroundJobs.Proofs.Realm.Standing

/-!
# Proofs — quotas

A job whose requests all carry a quota never has more active runs than the
largest of them, however the threads of the realm interleave. A retry puts a run
back to the queue without another check, but the run was active all the while:
the number of active runs grows only when a record is created, and then by one.

Main results:

* `load_of_step`  — the active runs after a step were active before, or were
  admitted by it.
* `spare_of_run`  — a record that is about to be created still finds room.
* `quota_of_run`  — a job keeps within its quota.
-/

namespace BackgroundJobs

/-- The number of active runs of a job. -/
def Store.load (s : Store) (jobKey : String) : Nat :=
  s.records.countP fun x => x.isActive && x.jobKey == jobKey

/-- A quota lets a request pass only if there is room for another run of the job. -/
theorem Constraint.lt_of_test_ok {limit : Nat} {jobKey : String} {arguments : Arguments}
    {store : Store}
    (h : (maxActivePerKey limit).test jobKey arguments (store.listActive Filter.all) = .ok ()) :
    store.load jobKey < limit := by
  have hCount : (store.listActive Filter.all).countP (·.jobKey == jobKey) = store.load jobKey := by
    rw [(Store.perm_listActive_all store).countP_eq, List.countP_filter]
    simp only [Store.load, Bool.and_comm]
  rw [← hCount]
  exact Nat.not_le.mp (test_eq_ok_iff.mp h)

namespace System

variable {δ : Type} {s u : System δ} {e : Event} {events : List Event} {jobKey : String}
  {limit : Nat}

-- ---------------------------------------------------------------------------
-- The number of active runs
-- ---------------------------------------------------------------------------

/-- The active runs of a job after a step were active before, or were admitted by it. -/
theorem load_of_step (hStep : s.step e = some u) (jobKey : String) :
    u.realm.store.load jobKey ≤
      s.realm.store.load jobKey + (s.admissions e).countP (·.2.jobKey == jobKey) := by
  have hIds : ∀ id ∈ (u.realm.store.records.filter
      fun x => x.isActive && x.jobKey == jobKey).map (·.id),
      id ∈ (s.realm.store.records.filter fun x => x.isActive && x.jobKey == jobKey).map (·.id) ++
        ((s.admissions e).filter (·.2.jobKey == jobKey)).map (·.2.id) := by
    intro id hId
    obtain ⟨x', hMem, rfl⟩ := List.mem_map.mp hId
    obtain ⟨hx', hKept⟩ := List.mem_filter.mp hMem
    obtain ⟨hActive', hKey'⟩ := Bool.and_eq_true_iff.mp hKept
    rcases active_of_step hStep hx' hActive' with ⟨x, hx, hActive, hSame⟩ | ⟨a, hAdmitted⟩
    · refine List.mem_append_left _ (List.mem_map.mpr ⟨x, List.mem_filter.mpr ⟨hx, ?_⟩, ?_⟩)
      · rw [hActive, ← hSame.jobKey, hKey']
        rfl
      · exact hSame.id.symm
    · exact List.mem_append_right _
        (List.mem_map.mpr ⟨(a, x'), List.mem_filter.mpr ⟨hAdmitted, hKey'⟩, rfl⟩)
  -- no id is there twice, so that the ids can be counted
  have hNodup : ((u.realm.store.records.filter
      fun x => x.isActive && x.jobKey == jobKey).map (·.id)).Nodup :=
    u.realm.store.nodup.sublist (List.filter_sublist.map _)
  have hLength := (List.subperm_of_subset hNodup hIds).length_le
  simpa only [Store.load, List.countP_eq_length_filter, List.length_append, List.length_map]
    using hLength

-- ---------------------------------------------------------------------------
-- Between the check and the creation
-- ---------------------------------------------------------------------------

/-- However a run goes, a record that is about to be created still finds room under each quota of
its request. -/
theorem spare_of_run {r : Realm δ} (hRun : (ofRealm r).run events = some u) {i : Nat}
    {th : Thread δ} {a : Admission} {record : JobRecord} (hAt : u.threads[i]? = some th)
    (hCreating : th.admission? = some (a, .creating record))
    (hQuota : .maxActivePerKey limit ∈ a.request.constraints) :
    u.realm.store.load record.jobKey < limit := by
  refine standing_of_run (P := fun store a record =>
    .maxActivePerKey limit ∈ a.request.constraints → store.load record.jobKey < limit)
    ?_ ?_ hRun hAt hCreating hQuota
  · intro store a id now hCheck hQuota
    exact Constraint.lt_of_test_ok (JobRequest.test_of_check hCheck hQuota)
  · intro s v e a record hStep hNone hSpare hQuota
    have hLoad := load_of_step hStep record.jobKey
    rw [hNone] at hLoad
    exact Nat.lt_of_le_of_lt hLoad (hSpare hQuota)

-- ---------------------------------------------------------------------------
-- Quotas
-- ---------------------------------------------------------------------------

/-- Does every request for the job that an observer saw admitted carry a quota within the limit? -/
def AskQuota (jobKey : String) (limit : Nat) (admitted : List (Admission × JobRecord)) : Prop :=
  ∀ x ∈ admitted, x.1.request.jobKey = jobKey →
    ∃ quota ≤ limit, .maxActivePerKey quota ∈ x.1.request.constraints

/-- An event admits at most one request. -/
theorem length_admissions_le (s : System δ) (e : Event) : (s.admissions e).length ≤ 1 := by
  unfold admissions
  repeat' split
  all_goals simp

/-- A request that is admitted found room under each of its quotas, and its record is one of the
requested job. -/
theorem load_lt_of_admissions {r : Realm δ} (hRun : (ofRealm r).run events = some s)
    {x : Admission × JobRecord} (hx : x ∈ s.admissions e) :
    x.2.jobKey = x.1.request.jobKey ∧
      ∀ {quota}, .maxActivePerKey quota ∈ x.1.request.constraints →
        s.realm.store.load x.1.request.jobKey < quota := by
  obtain ⟨a, record⟩ := x
  obtain ⟨i, cue, th, -, hAt, hCreating, -⟩ := creating_of_mem_admissions hx
  obtain ⟨id, now, rfl⟩ := made_of_run hRun hAt a _ record hCreating rfl
  exact ⟨rfl, fun hQuota => spare_of_run hRun hAt hCreating hQuota⟩

theorem quota_step {r : Realm δ} (hRun : (ofRealm r).run events = some s)
    (hAsk : AskQuota jobKey limit (s.admissions e)) (hLoad : s.realm.store.load jobKey ≤ limit)
    (hStep : s.step e = some u) : u.realm.store.load jobKey ≤ limit := by
  have hGrows := load_of_step hStep jobKey
  have hOne : (s.admissions e).countP (·.2.jobKey == jobKey) ≤ 1 :=
    Nat.le_trans List.countP_le_length (length_admissions_le s e)
  rcases Nat.eq_zero_or_pos ((s.admissions e).countP (·.2.jobKey == jobKey)) with hNone | hSome
  · omega
  · obtain ⟨x, hx, hKey⟩ := List.countP_pos_iff.mp hSome
    obtain ⟨hRecord, hRoom⟩ := load_lt_of_admissions hRun hx
    have hRequest : x.1.request.jobKey = jobKey := hRecord.symm.trans (beq_iff_eq.mp hKey)
    obtain ⟨quota, hQuota, hCarries⟩ := hAsk x hx hRequest
    have hSpare := hRoom hCarries
    rw [hRequest] at hSpare
    omega

/-- If every request that is admitted for a job carries a quota within the limit, no more than so
many runs of the job are active, after any interleaving of any threads; and if the limit is zero,
none is ever admitted. -/
theorem quota_of_run {r : Realm δ} (hRun : (ofRealm r).run events = some u)
    (hStart : r.store.load jobKey ≤ limit)
    (hAsk : AskQuota jobKey limit ((ofRealm r).trail admissions events)) :
    u.realm.store.load jobKey ≤ limit ∧
      (limit = 0 → ∀ x ∈ (ofRealm r).trail admissions events, x.1.request.jobKey ≠ jobKey) := by
  refine ⟨?_, ?_⟩
  · refine run_induction (motive := fun events u =>
      AskQuota jobKey limit ((ofRealm r).trail admissions events) →
        u.realm.store.load jobKey ≤ limit) hRun (fun _ => hStart) ?_ hAsk
    intro before t e v hBefore hStep ih hAsk
    rw [trail_concat hBefore] at hAsk
    exact quota_step hBefore (fun x hx => hAsk x (List.mem_append_right _ hx))
      (ih fun x hx => hAsk x (List.mem_append_left _ hx)) hStep
  · rintro rfl x hx hKey
    obtain ⟨before, e, t, -, hBefore, hAdmitted⟩ := exists_of_mem_trail hx
    obtain ⟨quota, hQuota, hCarries⟩ := hAsk x hx hKey
    have hRoom := (load_lt_of_admissions hBefore hAdmitted).2 hCarries
    omega

/-- A request for the job that allows only so many active runs of it. -/
def limited (quota : Nat) : JobRequest :=
  { jobKey := "job", name := "job", group := none, arguments := Dict.empty,
    metadata := Dict.empty, constraints := [.maxActivePerKey quota], retryPolicy := none,
    trigger := .immediate }

/-- A store that holds one run of the job, which still waits. -/
def oneWaiting : Store :=
  ⟨[(limited 2).toRecord ⟨⟨100⟩⟩ "default" .standard none ⟨0, 0⟩], by decide⟩

/-- A realm takes up the stored run. While its first attempt goes on, a caller is turned away whose
request allows no other run, and one comes whose request allows another. Between the check of that
request and the creation of its record the attempt fails, and the stored run is put back. -/
def retriedBetween : List Event :=
  let advance (i n : Nat) : Event := .advance i { now := ⟨n, 0⟩, fresh := ⟨BitVec.ofNat 128 n⟩ }
  let fails : Event := .advance 1
    { now := ⟨19, 0⟩, fresh := ⟨19⟩, outcome := .error (.failed "busy" true) }
  [.call .start, advance 0 1, advance 0 2, advance 0 3, advance 0 4, advance 0 5, advance 0 6,
    advance 0 7,
    advance 1 8, advance 1 9, advance 1 10, advance 1 11, advance 1 12,
    .call (.submit (limited 1)), advance 6 13, advance 6 14, advance 6 15,
    .call (.submit (limited 2)), advance 7 16, advance 7 17, advance 7 18,
    fails, advance 1 20, advance 1 21, advance 1 22,
    advance 7 23, advance 7 24, advance 7 25]

theorem quota_of_run_retriedBetween :
    ∃ u : System Unit,
      (ofRealm (.make default ⟨Dict.empty.insert "job" ()⟩ oneWaiting)).run retriedBetween =
          some u ∧
        (u.realm.counters.retried, u.realm.counters.admitted, u.realm.counters.rejected) =
          (1, 1, 1) ∧
        u.realm.store.countIn .queued = 2 ∧ u.realm.store.load "job" ≤ 2 := by
  have hEnd : ((ofRealm (.make default ⟨Dict.empty.insert "job" ()⟩ oneWaiting)).run
      retriedBetween).map (fun u => ((u.realm.counters.retried, u.realm.counters.admitted,
        u.realm.counters.rejected), u.realm.store.countIn .queued)) = some ((1, 1, 1), 2) := by
    decide +kernel
  have hAsk : ∀ x ∈ (ofRealm (.make default ⟨Dict.empty.insert "job" ()⟩ oneWaiting)).trail
      admissions retriedBetween, x.1.request.jobKey = "job" →
        .maxActivePerKey 2 ∈ x.1.request.constraints := by
    decide +kernel
  obtain ⟨u, hRun, hSeen⟩ := Option.map_eq_some_iff.mp hEnd
  obtain ⟨hCounters, hQueued⟩ := Prod.mk.inj hSeen
  refine ⟨u, hRun, hCounters, hQueued, (quota_of_run hRun (by decide +kernel) ?_).1⟩
  exact fun x hx hKey => ⟨2, Nat.le_refl 2, hAsk x hx hKey⟩

end System

end BackgroundJobs
