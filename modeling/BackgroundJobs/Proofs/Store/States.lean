import BackgroundJobs.Proofs.Store.Operation
import Mathlib.Data.List.Perm.Basic

/-!
# Proofs — the records in each state

A change of state takes one id from the records of one state to those of
another. A mark and a deletion leave alone which runs are active in which
state, and a new record comes to those of its own state.

Main results:

* `perm_modify`            — a change of one record leaves the others alone.
* `idsIn_of_transition`    — what a change of state does to the ids in each state.
* `idsIn_perform_of_tame`  — a mark or a deletion takes no active run to another state.
-/

namespace BackgroundJobs

namespace Store

variable {s s' : Store} {id : JobId} {state : JobState} {now : Instant} {x record after : JobRecord}

/-- The ids of the records in a state. -/
def idsIn (s : Store) (state : JobState) : List JobId :=
  (s.records.filter (·.state = state)).map (·.id)

theorem mem_idsIn : id ∈ s.idsIn state ↔ ∃ x ∈ s.records, x.id = id ∧ x.state = state := by
  simp only [idsIn, List.mem_map, List.mem_filter, decide_eq_true_eq]
  constructor
  · rintro ⟨x, ⟨hx, hState⟩, hId⟩
    exact ⟨x, hx, hId, hState⟩
  · rintro ⟨x, hx, hId, hState⟩
    exact ⟨x, ⟨hx, hState⟩, hId⟩

theorem mem_idsIn_of_mem (hx : x ∈ s.records) (hState : x.state = state) : x.id ∈ s.idsIn state :=
  mem_idsIn.mpr ⟨x, hx, rfl, hState⟩

theorem nodup_idsIn (s : Store) (state : JobState) : (s.idsIn state).Nodup :=
  s.nodup.sublist (List.filter_sublist.map _)

theorem length_idsIn (s : Store) (state : JobState) : (s.idsIn state).length = s.countIn state := by
  rw [idsIn, List.length_map, countIn, List.countP_eq_length_filter]

/-- No run is in two states. -/
theorem not_mem_idsIn_of_ne {other : JobState} (h : id ∈ s.idsIn state) (hNe : state ≠ other) :
    id ∉ s.idsIn other := by
  intro hOther
  obtain ⟨x, hx, rfl, hState⟩ := mem_idsIn.mp h
  obtain ⟨y, hy, hId, hState'⟩ := mem_idsIn.mp hOther
  rw [eq_of_mem_of_id_eq hy hx hId, hState] at hState'
  exact hNe hState'

/-- The ids of the runs that are not over. -/
def activeIds (s : Store) : List JobId :=
  s.idsIn .queued ++ s.idsIn .running

theorem mem_activeIds : id ∈ s.activeIds ↔ ∃ x ∈ s.records, x.id = id ∧ x.isActive = true := by
  rw [activeIds, List.mem_append, mem_idsIn, mem_idsIn]
  constructor
  · rintro (⟨x, hx, hId, hQueued⟩ | ⟨x, hx, hId, hRunning⟩)
    · exact ⟨x, hx, hId, JobRecord.isActive_of_queued hQueued⟩
    · exact ⟨x, hx, hId, JobRecord.isActive_of_running hRunning⟩
  · rintro ⟨x, hx, hId, hActive⟩
    cases hState : x.state with
    | queued => exact .inl ⟨x, hx, hId, hState⟩
    | running => exact .inr ⟨x, hx, hId, hState⟩
    | finished | failed | canceled | interrupted =>
      rw [JobRecord.isActive, hState] at hActive
      cases hActive

theorem nodup_activeIds (s : Store) : s.activeIds.Nodup := by
  refine List.nodup_append.mpr ⟨nodup_idsIn s _, nodup_idsIn s _, ?_⟩
  rintro id hQueued _ hRunning rfl
  exact not_mem_idsIn_of_ne hQueued (by decide) hRunning

-- ---------------------------------------------------------------------------
-- One operation
-- ---------------------------------------------------------------------------

/-- A change of one record leaves the others as they are. -/
theorem perm_modify (hx : x ∈ s.records) (change : JobRecord → JobRecord) :
    ∃ others, s.records.Perm (x :: others) ∧
      (s.modify x.id change).records.Perm ({ change x with id := x.id } :: others) := by
  obtain ⟨before, rest, hSplit⟩ := List.append_of_mem hx
  have hNodup := s.nodup
  rw [hSplit, List.map_append, List.map_cons, List.nodup_append, List.nodup_cons] at hNodup
  obtain ⟨-, ⟨hRest, -⟩, hApart⟩ := hNodup
  have hSame : ∀ l : List JobRecord, (∀ y ∈ l, y.id ≠ x.id) →
      l.map (fun r => if r.id = x.id then { change r with id := r.id } else r) = l := by
    intro l hl
    exact (List.map_congr_left fun y hy => if_neg (hl y hy)).trans (List.map_id' l)
  refine ⟨before ++ rest, ?_, ?_⟩
  · rw [hSplit]
    exact List.perm_middle
  · show (s.records.map _).Perm _
    rw [hSplit, List.map_append, List.map_cons, if_pos rfl, hSame before, hSame rest]
    · exact List.perm_middle
    · exact fun y hy hId => hRest (List.mem_map.mpr ⟨y, hy, hId⟩)
    · exact fun y hy hId => hApart _ (List.mem_map_of_mem hy) x.id List.mem_cons_self hId

theorem idsIn_of_perm {others : List JobRecord} (h : s.records.Perm (x :: others)) :
    (s.idsIn state).Perm ((if x.state = state then [x.id] else []) ++
      (others.filter (·.state = state)).map (·.id)) := by
  refine ((h.filter _).map _).trans (.of_eq ?_)
  rw [List.filter_cons]
  simp only [decide_eq_true_eq]
  split <;> rfl

/-- A change of state takes the id from one state to the other. -/
theorem idsIn_of_transition {expected : JobState} {t : Transition}
    (h : s.transition id expected t now = .ok (after, s')) :
    ∃ others : JobState → List JobId, ∀ state,
      (s.idsIn state).Perm ((if expected = state then [id] else []) ++ others state) ∧
        (s'.idsIn state).Perm ((if t.target = state then [id] else []) ++ others state) := by
  obtain ⟨x, hx, rfl, rfl, -, -, rfl⟩ := transition_ok h
  obtain ⟨others, hBefore, hAfter⟩ := perm_modify hx fun r => t.apply r now
  exact ⟨fun state => (others.filter (·.state = state)).map (·.id),
    fun _ => ⟨idsIn_of_perm hBefore, idsIn_of_perm hAfter⟩⟩

theorem idsIn_of_create (h : s.create record = .ok s') :
    s'.idsIn state = s.idsIn state ++ if record.state = state then [record.id] else [] := by
  rw [idsIn, (records_of_create_ok h).1, List.filter_append, List.map_append, List.filter_singleton]
  congr 1
  by_cases hState : record.state = state <;> simp [hState]

/-- An operation that neither creates a record nor changes a state. -/
def Op.Tame : Op → Prop
  | .create _ | .transition .. => False
  | .requestCancel _ | .deleteTerminal _ | .deleteFinishedBefore _ => True

theorem idsIn_retain {keep : JobRecord → Bool} (h : ∀ x, x.state = state → keep x = true) :
    (s.retain keep).idsIn state = s.idsIn state := by
  rw [idsIn, retain, List.filter_filter, idsIn]
  congr 1
  refine List.filter_congr fun x _ => ?_
  by_cases hState : x.state = state
  · simp [hState, h x hState]
  · simp [hState]

/-- A mark or a deletion takes no active run to another state. -/
theorem idsIn_perform_of_tame {op : Op} (hTame : op.Tame) (hState : state.isActive = true) :
    (s.perform now op).idsIn state = s.idsIn state := by
  have hGoesOn : ∀ x : JobRecord, x.state = state → x.isTerminal = false := by
    intro x hx
    rw [JobRecord.isTerminal_eq, JobRecord.isActive, hx, hState]
    rfl
  cases op with
  | create | transition => exact hTame.elim
  | requestCancel id =>
    simp only [perform]
    split
    · next r s₁ hs =>
      obtain ⟨x, -, -, -, rfl⟩ := requestCancel_ok hs
      have hMark : ∀ r : JobRecord, (if r.id = id then { marked r now with id := r.id } else r) =
          { r with cancelRequested := (if r.id = id then marked r now else r).cancelRequested
                   updatedAt := (if r.id = id then marked r now else r).updatedAt } := by
        intro r
        rw [marked_eq]
        split <;> rfl
      rw [idsIn, modify, List.filter_map, List.map_map, idsIn]
      congr 1
      · funext r
        simp only [Function.comp, hMark]
      · refine List.filter_congr fun r _ => ?_
        simp only [Function.comp, hMark]
    · rfl
  | deleteTerminal ids =>
    exact idsIn_retain fun x hx => by simp [hGoesOn x hx]
  | deleteFinishedBefore cutoff =>
    exact idsIn_retain fun x hx => by simp [expired, hGoesOn x hx]

end Store

end BackgroundJobs
