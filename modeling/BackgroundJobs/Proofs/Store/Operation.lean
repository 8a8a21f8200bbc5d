import BackgroundJobs.Store.Basic

/-!
# Proofs — operations on the store

Whatever happens to a store is one of five operations. An operation that fails
leaves the store as it was, so each takes a store to a store, and a list of
operations with the times at which they happen is a run.

Main results:

* `mem_of_transition_ok` — after a change of state the store holds the changed
  record and every other one.
* `origin_of_mem_perform` — a record of the store after an operation was there
  before, or was created, moved along an edge, or marked by it.
-/

namespace BackgroundJobs

-- ---------------------------------------------------------------------------
-- The state graph
-- ---------------------------------------------------------------------------

namespace JobState

variable {s t : JobState}

/-- The edges of the state graph: two leave `QUEUED`, and five leave `RUNNING`. -/
theorem canBecome_iff :
    s.canBecome t = true ↔
      (s = .queued ∧ (t = .running ∨ t = .canceled)) ∨ (s = .running ∧ t ≠ .running) := by
  cases s <;> cases t <;> decide

theorem isTerminal_iff : s.isTerminal = true ↔ s ≠ .queued ∧ s ≠ .running := by
  cases s <;> decide

theorem isActive_of_canBecome (h : s.canBecome t = true) : s.isActive = true := by
  rcases canBecome_iff.mp h with ⟨rfl, -⟩ | ⟨rfl, -⟩ <;> rfl

end JobState

namespace JobRecord

variable {r : JobRecord}

theorem isTerminal_eq (r : JobRecord) : r.isTerminal = !r.isActive :=
  rfl

theorem isActive_of_queued (h : r.state = .queued) : r.isActive = true := by
  rw [isActive, h]
  rfl

theorem isActive_of_running (h : r.state = .running) : r.isActive = true := by
  rw [isActive, h]
  rfl

theorem isTerminal_of_queued (h : r.state = .queued) : r.isTerminal = false := by
  rw [isTerminal, h]
  rfl

theorem isTerminal_of_running (h : r.state = .running) : r.isTerminal = false := by
  rw [isTerminal, h]
  rfl

end JobRecord

-- ---------------------------------------------------------------------------
-- Operations
-- ---------------------------------------------------------------------------

namespace Store

/-- A change of the store that a caller asks for. -/
inductive Op where
  | create (record : JobRecord)
  | transition (id : JobId) (expected : JobState) (t : Transition)
  | requestCancel (id : JobId)
  | deleteTerminal (ids : List JobId)
  | deleteFinishedBefore (cutoff : Instant)

/-- The store after an operation at the given time. One that fails changes nothing. -/
def perform (s : Store) (now : Instant) : Op → Store
  | .create record =>
    match s.create record with
    | .ok s' => s'
    | .error _ => s
  | .transition id expected t =>
    match s.transition id expected t now with
    | .ok (_, s') => s'
    | .error _ => s
  | .requestCancel id =>
    match s.requestCancel id now with
    | .ok (_, s') => s'
    | .error _ => s
  | .deleteTerminal ids => (s.deleteTerminal ids).2
  | .deleteFinishedBefore cutoff => (s.deleteFinishedBefore cutoff).2

/-- The store after a list of operations, each with the time at which it happens. -/
def run (s : Store) (ops : List (Op × Instant)) : Store :=
  ops.foldl (fun s x => s.perform x.2 x.1) s

theorem run_append (s : Store) (ops more : List (Op × Instant)) :
    s.run (ops ++ more) = (s.run ops).run more :=
  List.foldl_append

/-- The ids of the stored records. -/
def ids (s : Store) : List JobId :=
  s.records.map (·.id)

variable {s s' : Store} {id : JobId} {now : Instant}

theorem eq_of_records_eq (h : s.records = s'.records) : s = s' := by
  cases s
  cases s'
  cases h
  rfl

theorem id_mem_ids {r : JobRecord} (h : r ∈ s.records) : r.id ∈ s.ids :=
  List.mem_map_of_mem h

theorem find?_of_mem {r : JobRecord} (h : r ∈ s.records) : s.find? r.id = some r :=
  find?_eq_some_iff.mpr ⟨h, rfl⟩

theorem find?_eq_none_iff : s.find? id = none ↔ id ∉ s.ids := by
  constructor
  · intro h hMem
    obtain ⟨r, hr, rfl⟩ := List.mem_map.mp hMem
    rw [find?_of_mem hr] at h
    cases h
  · intro h
    cases hFind : s.find? id with
    | none => rfl
    | some r =>
      obtain ⟨hr, rfl⟩ := find?_eq_some_iff.mp hFind
      exact absurd (id_mem_ids hr) h

-- ---------------------------------------------------------------------------
-- Each operation
-- ---------------------------------------------------------------------------

/-- A record can be created exactly under an id that is not stored. -/
theorem create_ok_iff {record : JobRecord} :
    (∃ s', s.create record = .ok s') ↔ record.id ∉ s.ids := by
  unfold create
  by_cases h : record.id ∈ s.records.map (·.id)
  · simp [h, ids]
  · simp [h, ids]

theorem records_of_create_ok {record : JobRecord} (h : s.create record = .ok s') :
    s'.records = s.records ++ [record] ∧ record.id ∉ s.ids := by
  unfold create at h
  split at h
  · cases h
  · next hNew =>
    cases h
    exact ⟨rfl, hNew⟩

/-- What a change of state that succeeds found and made. -/
theorem transition_ok {expected : JobState} {t : Transition} {r' : JobRecord}
    (h : s.transition id expected t now = .ok (r', s')) :
    ∃ r ∈ s.records, r.id = id ∧ r.state = expected ∧ expected.canBecome t.target = true ∧
      r' = t.apply r now ∧ s' = s.modify id fun r => t.apply r now := by
  unfold transition at h
  split at h
  · cases h
  · next r hFind =>
    obtain ⟨hr, hId⟩ := find?_eq_some_iff.mp hFind
    split at h
    · cases h
    · next hState =>
      split at h
      · next hEdge =>
        cases h
        exact ⟨r, hr, hId, Decidable.not_not.mp hState, hEdge, rfl, rfl⟩
      · cases h

/-- A change of state happens if the record is in the expected one and the graph allows it. -/
theorem transition_of_mem {r : JobRecord} {t : Transition} (hr : r ∈ s.records)
    (hEdge : r.state.canBecome t.target = true) (now : Instant) :
    s.transition r.id r.state t now =
      .ok (t.apply r now, s.modify r.id fun r => t.apply r now) := by
  simp [transition, find?_of_mem hr, hEdge]

/-- After a change of state the store holds the changed record and every other one. -/
theorem mem_of_transition_ok {expected : JobState} {t : Transition} {r' x : JobRecord}
    (h : s.transition id expected t now = .ok (r', s')) :
    x ∈ s'.records ↔ x = r' ∨ (x ∈ s.records ∧ x.id ≠ id) := by
  obtain ⟨r, hr, rfl, -, -, rfl, rfl⟩ := transition_ok h
  rw [mem_modify]
  constructor
  · rintro (hx | ⟨old, hOld, hId, rfl⟩)
    · exact .inr hx
    · cases eq_of_mem_of_id_eq hOld hr hId
      exact .inl rfl
  · rintro (rfl | hx)
    · exact .inr ⟨r, hr, rfl, rfl⟩
    · exact .inl hx

/-- A mark changes nothing but the mark itself and the time of the last change, and nothing at all
on a terminal record. -/
theorem marked_eq (r : JobRecord) (now : Instant) :
    marked r now = { r with
      cancelRequested := r.cancelRequested || r.isActive
      updatedAt := if r.isActive then now else r.updatedAt } := by
  unfold marked
  split <;> simp_all

@[simp] theorem marked_id (r : JobRecord) : (marked r now).id = r.id := by
  rw [marked_eq]

/-- What a request for cancellation that succeeds found and made. -/
theorem requestCancel_ok {r' : JobRecord} (h : s.requestCancel id now = .ok (r', s')) :
    ∃ r ∈ s.records, r.id = id ∧ r' = marked r now ∧ s' = s.modify id (marked · now) := by
  unfold requestCancel at h
  split at h
  · cases h
  · next r hFind =>
    obtain ⟨hr, hId⟩ := find?_eq_some_iff.mp hFind
    cases h
    exact ⟨r, hr, hId, rfl, rfl⟩

/-- After a request for cancellation the store holds the marked record and every other one. -/
theorem mem_of_requestCancel_ok {r' x : JobRecord}
    (h : s.requestCancel id now = .ok (r', s')) :
    x ∈ s'.records ↔ x = r' ∨ (x ∈ s.records ∧ x.id ≠ id) := by
  obtain ⟨r, hr, rfl, rfl, rfl⟩ := requestCancel_ok h
  have hSame : ∀ old : JobRecord, { marked old now with id := old.id } = marked old now := by
    intro old
    unfold marked
    split <;> rfl
  rw [mem_modify]
  constructor
  · rintro (hx | ⟨old, hOld, hId, rfl⟩)
    · exact .inr hx
    · obtain rfl := eq_of_mem_of_id_eq hOld hr hId
      exact .inl (hSame old)
  · rintro (rfl | hx)
    · exact .inr ⟨r, hr, rfl, (hSame r).symm⟩
    · exact .inl hx

-- ---------------------------------------------------------------------------
-- Where records come from
-- ---------------------------------------------------------------------------

/-- Where a record of the store after an operation comes from. -/
inductive Origin (s : Store) (now : Instant) (op : Op) (r' : JobRecord) : Prop where
  | kept (hr : r' ∈ s.records)
  | created (hop : op = .create r') (hnew : r'.id ∉ s.ids)
  /-- The record was moved along an edge of the state graph. -/
  | moved (r : JobRecord) (t : Transition) (hr : r ∈ s.records)
      (hop : op = .transition r.id r.state t) (hedge : r.state.canBecome t.target = true)
      (heq : r' = t.apply r now)
  | marked (r : JobRecord) (hr : r ∈ s.records) (hop : op = .requestCancel r.id)
      (heq : r' = marked r now)

theorem origin_of_mem_perform {op : Op} {r' : JobRecord} (h : r' ∈ (s.perform now op).records) :
    Origin s now op r' := by
  cases op with
  | create record =>
    simp only [perform] at h
    split at h
    · next s' hs =>
      obtain ⟨hRecords, hNew⟩ := records_of_create_ok hs
      rw [hRecords, List.mem_append, List.mem_singleton] at h
      rcases h with h | rfl
      · exact .kept h
      · exact .created rfl hNew
    · exact .kept h
  | transition id expected t =>
    simp only [perform] at h
    split at h
    · next record s' hs =>
      obtain ⟨r, hr, rfl, rfl, hEdge, hEq, -⟩ := transition_ok hs
      rcases (mem_of_transition_ok hs).mp h with rfl | ⟨hMem, -⟩
      · exact .moved r t hr rfl hEdge hEq
      · exact .kept hMem
    · exact .kept h
  | requestCancel id =>
    simp only [perform] at h
    split at h
    · next record s' hs =>
      obtain ⟨r, hr, rfl, hEq, -⟩ := requestCancel_ok hs
      rcases (mem_of_requestCancel_ok hs).mp h with rfl | ⟨hMem, -⟩
      · exact .marked r hr rfl hEq
      · exact .kept hMem
    · exact .kept h
  | deleteTerminal ids => exact .kept ((List.mem_filter.mp h).1)
  | deleteFinishedBefore cutoff => exact .kept ((List.mem_filter.mp h).1)

/-- A run goes on until its state is changed by name: nothing else ends or deletes it. -/
theorem running_of_perform {r : JobRecord} (hr : r ∈ s.records) (hRunning : r.state = .running)
    (now : Instant) (op : Op) :
    (∃ r' ∈ (s.perform now op).records, r'.id = r.id ∧ r'.state = .running) ∨
      ∃ t, op = .transition r.id .running t ∧
        ∀ y ∈ (s.perform now op).records, y.id = r.id → y = t.apply r now := by
  have hActive : r.isTerminal = false := JobRecord.isTerminal_of_running hRunning
  have hStays : r ∈ (s.perform now op).records →
      ∃ r' ∈ (s.perform now op).records, r'.id = r.id ∧ r'.state = .running :=
    fun h => ⟨r, h, rfl, hRunning⟩
  cases op with
  | create record =>
    refine .inl (hStays ?_)
    simp only [perform]
    split
    · next s' hs =>
      rw [(records_of_create_ok hs).1]
      exact List.mem_append_left _ hr
    · exact hr
  | transition id expected t =>
    simp only [perform] at hStays ⊢
    split at hStays
    · next hs =>
      by_cases hId : r.id = id
      · subst hId
        obtain ⟨found, hFound, hSame, rfl, -, rfl, -⟩ := transition_ok hs
        obtain rfl := eq_of_mem_of_id_eq hFound hr hSame
        rw [hRunning]
        refine .inr ⟨t, rfl, fun y hy hyId => ?_⟩
        exact ((mem_of_transition_ok hs).mp hy).resolve_right fun hOther => hOther.2 hyId
      · exact .inl (hStays ((mem_of_transition_ok hs).mpr (.inr ⟨hr, hId⟩)))
    · exact .inl (hStays hr)
  | requestCancel id =>
    simp only [perform] at hStays ⊢
    split at hStays
    · next hs =>
      by_cases hId : r.id = id
      · subst hId
        obtain ⟨found, hFound, hSame, rfl, -⟩ := requestCancel_ok hs
        obtain rfl := eq_of_mem_of_id_eq hFound hr hSame
        refine .inl ⟨_, (mem_of_requestCancel_ok hs).mpr (.inl rfl), marked_id found, ?_⟩
        rw [marked_eq]
        exact hRunning
      · exact .inl (hStays ((mem_of_requestCancel_ok hs).mpr (.inr ⟨hr, hId⟩)))
    · exact .inl (hStays hr)
  | deleteTerminal ids =>
    exact .inl (hStays (List.mem_filter.mpr ⟨hr, by simp [hActive]⟩))
  | deleteFinishedBefore cutoff =>
    exact .inl (hStays (List.mem_filter.mpr ⟨hr, by simp [expired, hActive]⟩))

end Store

end BackgroundJobs
