import BackgroundJobs.Proofs.Store.Operation
import Mathlib.Data.List.Dedup
import Mathlib.Logic.Relation

/-!
# Proofs — how a record evolves

What an operation does to the records that are stored already, whatever they
hold: records that no request begins with are covered too. A record keeps the
fields that say which run it is, its history only grows, its attempts count the
starts, a mark stays, and its state moves along the edges of the graph. A
terminal record does not change at all until it is deleted, and no other record
is deleted.

* `JobRecord.Changes` — what one operation may make of a record.
* `JobRecord.Evolves` — what a run may make of it, with the number of its starts.
* `Store.Lawful`      — what an operation does to the store as a whole.

Main results:

* `lawful`          — every operation on every store is lawful.
* `run_evolves`     — in every run a record evolves until it is deleted, if it ever is.
-/

namespace BackgroundJobs

-- ---------------------------------------------------------------------------
-- What never changes in a record
-- ---------------------------------------------------------------------------

namespace JobRecord

/-- Two records of one run: the fields that say which run it is are the same. -/
structure SameRun (r r' : JobRecord) : Prop where
  id : r'.id = r.id
  jobKey : r'.jobKey = r.jobKey
  name : r'.name = r.name
  group : r'.group = r.group
  arguments : r'.arguments = r.arguments
  metadata : r'.metadata = r.metadata
  retryPolicy : r'.retryPolicy = r.retryPolicy
  createdAt : r'.createdAt = r.createdAt
  triggerId : r'.triggerId = r.triggerId

theorem SameRun.refl (r : JobRecord) : r.SameRun r :=
  ⟨rfl, rfl, rfl, rfl, rfl, rfl, rfl, rfl, rfl⟩

theorem SameRun.trans {r r' r'' : JobRecord} (h : r.SameRun r') (h' : r'.SameRun r'') :
    r.SameRun r'' where
  id := h'.id.trans h.id
  jobKey := h'.jobKey.trans h.jobKey
  name := h'.name.trans h.name
  group := h'.group.trans h.group
  arguments := h'.arguments.trans h.arguments
  metadata := h'.metadata.trans h.metadata
  retryPolicy := h'.retryPolicy.trans h.retryPolicy
  createdAt := h'.createdAt.trans h.createdAt
  triggerId := h'.triggerId.trans h.triggerId

theorem sameRun_apply (t : Transition) (r : JobRecord) (now : Instant) :
    r.SameRun (t.apply r now) :=
  ⟨rfl, rfl, rfl, rfl, rfl, rfl, rfl, rfl, rfl⟩

theorem sameRun_marked (r : JobRecord) (now : Instant) :
    r.SameRun (Store.marked r now) := by
  rw [Store.marked_eq]
  exact ⟨rfl, rfl, rfl, rfl, rfl, rfl, rfl, rfl, rfl⟩

-- ---------------------------------------------------------------------------
-- What one operation makes of a record
-- ---------------------------------------------------------------------------

/-- What one operation may make of a record that it leaves in the store. -/
structure Changes (x x' : JobRecord) : Prop where
  sameRun : x.SameRun x'
  history : x.history <+: x'.history
  /-- The only change that counts as an attempt is the one from `QUEUED` to `RUNNING`. -/
  attempts : x'.attempts =
    x.attempts + if x.state = .queued ∧ x'.state = .running then 1 else 0
  cancelRequested : x.cancelRequested = true → x'.cancelRequested = true
  edge : x'.state = x.state ∨ x.state.canBecome x'.state = true
  terminal : x.isTerminal = true → x' = x

namespace Changes

variable {x : JobRecord}

theorem refl (x : JobRecord) : x.Changes x where
  sameRun := .refl x
  history := List.prefix_rfl
  attempts := by
    rw [if_neg]
    · rfl
    · rintro ⟨hQueued, hRunning⟩
      rw [hQueued] at hRunning
      cases hRunning
  cancelRequested hMark := hMark
  edge := .inl rfl
  terminal _ := rfl

/-- An edge of the state graph adds at most one entry to the history. -/
theorem apply {t : Transition} (hEdge : x.state.canBecome t.target = true) (now : Instant) :
    x.Changes (t.apply x now) where
  sameRun := sameRun_apply t x now
  history := List.prefix_append _ _
  attempts := by
    -- `RUNNING` is entered from `QUEUED` only
    have hFrom : t.target = .running → x.state = .queued := by
      intro ht
      rcases JobState.canBecome_iff.mp hEdge with ⟨hState, -⟩ | ⟨-, hNot⟩
      · exact hState
      · exact absurd ht hNot
    by_cases ht : t.target = .running
    · simp [Transition.apply, ht, hFrom ht]
    · simp [Transition.apply, ht]
  cancelRequested hMark := hMark
  edge := .inr hEdge
  terminal hOver := by
    rw [isTerminal, JobState.isTerminal, JobState.isActive_of_canBecome hEdge] at hOver
    cases hOver

theorem marked (x : JobRecord) (now : Instant) : x.Changes (Store.marked x now) where
  sameRun := sameRun_marked x now
  history := by
    have hSame := congrArg JobRecord.history (Store.marked_eq x now)
    exact ⟨[], (List.append_nil _).trans hSame.symm⟩
  attempts := by
    rw [Store.marked_eq]
    exact (refl x).attempts
  cancelRequested hMark := by
    rw [Store.marked_eq]
    simp [hMark]
  edge := by
    rw [Store.marked_eq]
    exact .inl rfl
  terminal hOver := by
    have hActive : x.isActive = false := by simpa [isTerminal_eq] using hOver
    simp [Store.marked, hActive]

end Changes

-- ---------------------------------------------------------------------------
-- What a run makes of a record
-- ---------------------------------------------------------------------------

/-- What a run may make of a record with the given number of starts. -/
structure Evolves (starts : Nat) (x x' : JobRecord) : Prop where
  sameRun : x.SameRun x'
  history : x.history <+: x'.history
  attempts : x'.attempts = x.attempts + starts
  cancelRequested : x.cancelRequested = true → x'.cancelRequested = true
  path : Relation.ReflTransGen (fun s t : JobState => s.canBecome t = true) x.state x'.state
  terminal : x.isTerminal = true → x' = x

namespace Evolves

variable {m n : Nat} {x x' x'' : JobRecord}

theorem refl (x : JobRecord) : x.Evolves 0 x :=
  ⟨.refl x, List.prefix_rfl, rfl, fun h => h, .refl, fun _ => rfl⟩

theorem trans (h : x.Evolves m x') (h' : x'.Evolves n x'') : x.Evolves (m + n) x'' where
  sameRun := h.sameRun.trans h'.sameRun
  history := h.history.trans h'.history
  attempts := by rw [h'.attempts, h.attempts, Nat.add_assoc]
  cancelRequested hMark := h'.cancelRequested (h.cancelRequested hMark)
  path := h.path.trans h'.path
  terminal hOver := by
    have hSame := h.terminal hOver
    rw [h'.terminal (hSame ▸ hOver), hSame]

end Evolves

theorem Changes.evolves {x x' : JobRecord} (h : x.Changes x') :
    x.Evolves (if x.state = .queued ∧ x'.state = .running then 1 else 0) x' where
  sameRun := h.sameRun
  history := h.history
  attempts := h.attempts
  cancelRequested := h.cancelRequested
  path := by
    rcases h.edge with hSame | hEdge
    · rw [hSame]
    · exact .single hEdge
  terminal := h.terminal

end JobRecord

-- ---------------------------------------------------------------------------
-- What an operation does to the store
-- ---------------------------------------------------------------------------

namespace Store

/-- The error that an operation answers with, if it fails. -/
def refusal? (s : Store) (now : Instant) : Op → Option StoreError
  | .create record =>
    match s.create record with
    | .ok _ => none
    | .error e => some e
  | .transition id expected t =>
    match s.transition id expected t now with
    | .ok _ => none
    | .error e => some e
  | .requestCancel id =>
    match s.requestCancel id now with
    | .ok _ => none
    | .error e => some e
  | .deleteTerminal _ | .deleteFinishedBefore _ => none

/-- The record that a change of state or a mark concerns. -/
def Op.subject? : Op → Option JobId
  | .transition id _ _ | .requestCancel id => some id
  | _ => none

/-- Is the operation asked to delete the record? -/
def Op.Deletes (x : JobRecord) : Op → Prop
  | .deleteTerminal ids => x.id ∈ ids
  | .deleteFinishedBefore cutoff => ∃ at', x.finishedAt = some at' ∧ at' < cutoff
  | _ => False

/-- The ids of the records whose next attempt the operation starts: one at most. -/
def starts (s : Store) (now : Instant) : Op → List JobId
  | .transition id expected t =>
    match s.transition id expected t now with
    | .ok _ => if t.target = .running then [id] else []
    | .error _ => []
  | _ => []

/-- The ids of the records whose attempts a run starts, one entry for each attempt. -/
def started (s : Store) : List (Op × Instant) → List JobId
  | [] => []
  | (op, now) :: rest => s.starts now op ++ (s.perform now op).started rest

/-- What holds of an operation on a store. -/
structure Lawful (s : Store) (now : Instant) (op : Op) : Prop where
  /-- An operation that fails leaves the whole store as it was. -/
  refused : ∀ e, s.refusal? now op = some e → s.perform now op = s
  /-- A change of state and a mark change at most the record that they name, and delete none. -/
  elsewhere : ∀ id, op.subject? = some id → (s.perform now op).ids = s.ids ∧
    ∀ x, x.id ≠ id → (x ∈ (s.perform now op).records ↔ x ∈ s.records)
  /-- A creation and a deletion leave every record that is still there as it was. -/
  kept : op.subject? = none →
    ∀ x ∈ s.records, ∀ x' ∈ (s.perform now op).records, x'.id = x.id → x' = x
  changes : ∀ x ∈ s.records, ∀ x' ∈ (s.perform now op).records, x'.id = x.id → x.Changes x'
  /-- What is deleted is terminal, and was asked to be. -/
  deleted_iff : ∀ x ∈ s.records,
    x.id ∉ (s.perform now op).ids ↔ x.isTerminal = true ∧ op.Deletes x
  /-- A deletion by id counts every id once, however often it is listed. -/
  counted : ∀ ids, op = .deleteTerminal ids → (s.deleteTerminal ids).1 =
    (ids.dedup.filter fun id => (s.find? id).any JobRecord.isTerminal).length

variable {s : Store} {now : Instant} {op : Op}

theorem perform_of_refusal {e : StoreError} (h : s.refusal? now op = some e) :
    s.perform now op = s := by
  cases op with
  | create record =>
    simp only [refusal?] at h
    split at h
    · cases h
    · next hs => simp only [perform, hs]
  | transition id expected t =>
    simp only [refusal?] at h
    split at h
    · cases h
    · next hs => simp only [perform, hs]
  | requestCancel id =>
    simp only [refusal?] at h
    split at h
    · cases h
    · next hs => simp only [perform, hs]
  | deleteTerminal ids => cases h
  | deleteFinishedBefore cutoff => cases h

-- ---------------------------------------------------------------------------
-- Which records are concerned
-- ---------------------------------------------------------------------------

theorem ids_modify (s : Store) (id : JobId) (change : JobRecord → JobRecord) :
    (s.modify id change).ids = s.ids := by
  rw [ids, modify, List.map_map]
  apply List.map_congr_left
  intro r _
  simp only [Function.comp]
  split <;> rfl

theorem mem_modify_of_ne {id : JobId} {x : JobRecord} (hId : x.id ≠ id)
    (change : JobRecord → JobRecord) : x ∈ (s.modify id change).records ↔ x ∈ s.records := by
  rw [mem_modify]
  constructor
  · rintro (⟨hx, -⟩ | ⟨old, -, -, rfl⟩)
    · exact hx
    · exact absurd rfl hId
  · exact fun hx => .inl ⟨hx, hId⟩

/-- A change of state and a mark concern the record that they name and no other. -/
theorem elsewhere_of_subject {id : JobId} (h : op.subject? = some id) :
    (s.perform now op).ids = s.ids ∧
      ∀ x, x.id ≠ id → (x ∈ (s.perform now op).records ↔ x ∈ s.records) := by
  cases op with
  | transition named expected t =>
    cases h
    simp only [perform]
    split
    · next hs =>
      obtain ⟨r, -, -, -, -, -, rfl⟩ := transition_ok hs
      exact ⟨ids_modify s id _, fun x hx => mem_modify_of_ne hx _⟩
    · exact ⟨rfl, fun _ _ => Iff.rfl⟩
  | requestCancel named =>
    cases h
    simp only [perform]
    split
    · next hs =>
      obtain ⟨r, -, -, -, rfl⟩ := requestCancel_ok hs
      exact ⟨ids_modify s id _, fun x hx => mem_modify_of_ne hx _⟩
    · exact ⟨rfl, fun _ _ => Iff.rfl⟩
  | create record => cases h
  | deleteTerminal ids => cases h
  | deleteFinishedBefore cutoff => cases h

theorem eq_of_perform {x x' : JobRecord} (hOp : op.subject? = none) (hx : x ∈ s.records)
    (hx' : x' ∈ (s.perform now op).records) (hId : x'.id = x.id) : x' = x := by
  cases origin_of_mem_perform hx' with
  | kept hOld => exact eq_of_mem_of_id_eq hOld hx hId
  | created _ hNew => exact absurd (hId ▸ id_mem_ids hx) hNew
  | moved _ _ _ hNamed => simp [hNamed, Op.subject?] at hOp
  | marked _ _ hNamed => simp [hNamed, Op.subject?] at hOp

theorem changes_of_perform {x x' : JobRecord} (hx : x ∈ s.records)
    (hx' : x' ∈ (s.perform now op).records) (hId : x'.id = x.id) : x.Changes x' := by
  cases origin_of_mem_perform hx' with
  | kept hOld =>
    obtain rfl := eq_of_mem_of_id_eq hOld hx hId
    exact .refl x'
  | created _ hNew => exact absurd (hId ▸ id_mem_ids hx) hNew
  | moved old t hOld _ hEdge hEq =>
    subst hEq
    obtain rfl := eq_of_mem_of_id_eq hOld hx hId
    exact .apply hEdge now
  | marked old hOld _ hEq =>
    subst hEq
    obtain rfl := eq_of_mem_of_id_eq hOld hx ((marked_id old).symm.trans hId)
    exact .marked old now

-- ---------------------------------------------------------------------------
-- Deletions
-- ---------------------------------------------------------------------------

theorem id_mem_ids_retain {keep : JobRecord → Bool} {x : JobRecord} (hx : x ∈ s.records) :
    x.id ∈ (s.retain keep).ids ↔ keep x = true := by
  constructor
  · intro h
    obtain ⟨y, hy, hId⟩ := List.mem_map.mp h
    obtain ⟨hMem, hKeep⟩ := List.mem_filter.mp hy
    exact eq_of_mem_of_id_eq hMem hx hId ▸ hKeep
  · exact fun h => List.mem_map_of_mem (List.mem_filter.mpr ⟨hx, h⟩)

/-- Exactly the terminal records that an operation is asked to delete are gone after it. -/
theorem deleted_iff {x : JobRecord} (hx : x ∈ s.records) :
    x.id ∉ (s.perform now op).ids ↔ x.isTerminal = true ∧ op.Deletes x := by
  have hStays : (s.perform now op).ids = s.ids → ¬ op.Deletes x →
      (x.id ∉ (s.perform now op).ids ↔ x.isTerminal = true ∧ op.Deletes x) := by
    intro hIds hNot
    simp [hIds, hNot, id_mem_ids hx]
  cases op with
  | create record =>
    simp only [Op.Deletes, and_false, iff_false, not_not, perform]
    split
    · next s' hs =>
      rw [ids, (records_of_create_ok hs).1, List.map_append]
      exact List.mem_append_left _ (id_mem_ids hx)
    · exact id_mem_ids hx
  | transition id expected t => exact hStays (elsewhere_of_subject rfl).1 not_false
  | requestCancel id => exact hStays (elsewhere_of_subject rfl).1 not_false
  | deleteTerminal ids =>
    rw [perform, deleteTerminal, id_mem_ids_retain hx]
    simp [Op.Deletes]
  | deleteFinishedBefore cutoff =>
    rw [perform, deleteFinishedBefore, id_mem_ids_retain hx]
    simp [Op.Deletes, expired, Option.any_eq_true]

/-- The records that a deletion by id takes out are those of the listed ids that are terminal, so
there are as many of them as there are such ids, listed once each. -/
theorem count_deleteTerminal (s : Store) (listed : List JobId) :
    (s.deleteTerminal listed).1 =
      (listed.dedup.filter fun id => (s.find? id).any JobRecord.isTerminal).length := by
  let gone : JobRecord → Bool := fun r => r.isTerminal && listed.contains r.id
  have hCount : (s.deleteTerminal listed).1 = ((s.records.filter gone).map (·.id)).length := by
    have hSplit := List.length_eq_length_filter_add (l := s.records) gone
    rw [List.length_map]
    simp only [deleteTerminal, retain]
    change s.records.length - (s.records.filter (fun r => !gone r)).length = _
    omega
  rw [hCount]
  refine List.Perm.length_eq ((List.perm_ext_iff_of_nodup ?_ ?_).mpr fun id => ?_)
  · exact s.nodup.sublist (List.filter_sublist.map _)
  · exact (List.nodup_dedup listed).filter _
  · rw [List.mem_filter, List.mem_dedup, List.mem_map]
    constructor
    · rintro ⟨r, hr, rfl⟩
      obtain ⟨hMem, hGone⟩ := List.mem_filter.mp hr
      obtain ⟨hTerminal, hListed⟩ := Bool.and_eq_true_iff.mp hGone
      exact ⟨List.contains_iff_mem.mp hListed, by simp [find?_of_mem hMem, hTerminal]⟩
    · rintro ⟨hListed, hTerminal⟩
      obtain ⟨r, hFind, hOver⟩ := (Option.any_eq_true _ _).mp hTerminal
      obtain ⟨hMem, rfl⟩ := find?_eq_some_iff.mp hFind
      refine ⟨r, List.mem_filter.mpr ⟨hMem, ?_⟩, rfl⟩
      exact Bool.and_eq_true_iff.mpr ⟨hOver, List.contains_iff_mem.mpr hListed⟩

/-- Every operation on every store is lawful. -/
theorem lawful (s : Store) (now : Instant) (op : Op) : Lawful s now op where
  refused _ h := perform_of_refusal h
  elsewhere _ h := elsewhere_of_subject h
  kept hOp _ hx _ hx' hId := eq_of_perform hOp hx hx' hId
  changes _ hx _ hx' hId := changes_of_perform hx hx' hId
  deleted_iff _ hx := deleted_iff hx
  counted ids _ := count_deleteTerminal s ids

-- ---------------------------------------------------------------------------
-- Runs
-- ---------------------------------------------------------------------------

/-- Only a change of state changes a state. -/
theorem state_of_perform {x x' : JobRecord} (hOp : ∀ id expected t, op ≠ .transition id expected t)
    (hx : x ∈ s.records) (hx' : x' ∈ (s.perform now op).records) (hId : x'.id = x.id) :
    x'.state = x.state := by
  cases origin_of_mem_perform hx' with
  | kept hOld => rw [eq_of_mem_of_id_eq hOld hx hId]
  | created _ hNew => exact absurd (hId ▸ id_mem_ids hx) hNew
  | moved old t _ hNamed => exact absurd hNamed (hOp _ _ _)
  | marked old hOld _ hEq =>
    subst hEq
    obtain rfl := eq_of_mem_of_id_eq hOld hx ((marked_id old).symm.trans hId)
    rw [marked_eq]

/-- A change of state starts an attempt exactly if it goes to `RUNNING`. -/
theorem starts_of_transition_ok {id : JobId} {expected : JobState} {t : Transition}
    {r : JobRecord} {s' : Store} (h : s.transition id expected t now = .ok (r, s')) :
    s.starts now (.transition id expected t) = if t.target = .running then [id] else [] := by
  simp only [starts, h]

/-- The starts of an operation are the changes from `QUEUED` to `RUNNING` that it makes. -/
theorem count_starts {x x' : JobRecord} (hx : x ∈ s.records)
    (hx' : x' ∈ (s.perform now op).records) (hId : x'.id = x.id) :
    (s.starts now op).count x.id =
      if x.state = .queued ∧ x'.state = .running then 1 else 0 := by
  have hSame : x'.state = x.state → ¬ (x.state = .queued ∧ x'.state = .running) := by
    rintro hState ⟨hQueued, hRunning⟩
    rw [hState, hQueued] at hRunning
    cases hRunning
  have hQuiet : s.starts now op = [] → x'.state = x.state → (s.starts now op).count x.id =
      if x.state = .queued ∧ x'.state = .running then 1 else 0 := by
    intro hStarts hState
    rw [hStarts, List.count_nil, if_neg (hSame hState)]
  cases op with
  | transition id expected t =>
    cases hs : s.transition id expected t now with
    | error e =>
      simp only [perform, hs] at hx'
      exact hQuiet (by simp only [starts, hs]) (by rw [eq_of_mem_of_id_eq hx' hx hId])
    | ok made =>
      simp only [perform, hs] at hx'
      rw [starts_of_transition_ok hs]
      rcases (mem_of_transition_ok hs).mp hx' with rfl | ⟨hOld, hOther⟩
      · -- the record that the change concerns
        obtain ⟨r, hr, rfl, rfl, hEdge, hMade, -⟩ := transition_ok hs
        rw [hMade] at hId ⊢
        obtain rfl := eq_of_mem_of_id_eq hr hx hId
        by_cases ht : t.target = .running
        · have hQueued : r.state = .queued := by
            rw [ht] at hEdge
            rcases JobState.canBecome_iff.mp hEdge with ⟨hQueued, -⟩ | ⟨-, hNot⟩
            · exact hQueued
            · exact absurd rfl hNot
          simp [ht, hQueued]
        · simp [ht]
      · obtain rfl := eq_of_mem_of_id_eq hOld hx hId
        rw [if_neg (hSame rfl)]
        split
        · exact List.count_eq_zero_of_not_mem (by simpa using hOther)
        · rfl
  | create | requestCancel | deleteTerminal | deleteFinishedBefore =>
    exact hQuiet rfl (state_of_perform (by simp) hx hx' hId)

/-- A record is still there after an operation, and has evolved, or the operation deleted it. -/
theorem evolves_of_perform {x : JobRecord} (hx : x ∈ s.records) (now : Instant) (op : Op) :
    (∃ x' ∈ (s.perform now op).records, x.Evolves ((s.starts now op).count x.id) x') ∨
      (x.isTerminal = true ∧ op.Deletes x ∧ x.id ∉ (s.perform now op).ids) := by
  by_cases hGone : x.id ∈ (s.perform now op).ids
  · obtain ⟨x', hx', hId⟩ := List.mem_map.mp hGone
    refine .inl ⟨x', hx', ?_⟩
    rw [count_starts hx hx' hId]
    exact (changes_of_perform hx hx' hId).evolves
  · obtain ⟨hTerminal, hDeletes⟩ := (deleted_iff hx).mp hGone
    exact .inr ⟨hTerminal, hDeletes, hGone⟩

/-- A record evolves through the whole of a run, unless an operation of the run deletes it. -/
theorem evolves_of_run {x : JobRecord} (hx : x ∈ s.records) (ops : List (Op × Instant)) :
    (∃ x' ∈ (s.run ops).records, x.Evolves ((s.started ops).count x.id) x') ∨
      ∃ before op now after, ops = before ++ (op, now) :: after ∧
        ∃ y ∈ (s.run before).records, x.Evolves ((s.started before).count x.id) y ∧
          y.isTerminal = true ∧ op.Deletes y ∧ y.id ∉ ((s.run before).perform now op).ids := by
  induction ops generalizing s x with
  | nil => exact .inl ⟨x, hx, .refl x⟩
  | cons head rest ih =>
    obtain ⟨op, now⟩ := head
    rcases evolves_of_perform hx now op with ⟨y, hy, hStep⟩ | hDeleted
    · have hTrans : ∀ {ops z}, y.Evolves (((s.perform now op).started ops).count y.id) z →
          x.Evolves ((s.started ((op, now) :: ops)).count x.id) z := by
        intro ops z h
        rw [started, List.count_append]
        rw [hStep.sameRun.id] at h
        exact hStep.trans h
      rcases ih hy with ⟨z, hz, hRest⟩ | ⟨before, last, at', after, rfl, z, hz, hRest, hDeleted⟩
      · exact .inl ⟨z, hz, hTrans hRest⟩
      · exact .inr ⟨(op, now) :: before, last, at', after, rfl, z, hz, hTrans hRest, hDeleted⟩
    · exact .inr ⟨[], op, now, rest, rfl, x, hx, .refl x, hDeleted⟩

/-- Every operation of every run from every store is lawful, and what is stored at the beginning
evolves, with one attempt more for each of its starts, through the whole of the run or until an
operation deletes it, by when it is terminal. -/
theorem run_evolves (s : Store) (ops : List (Op × Instant)) :
    (∀ now op, Lawful (s.run ops) now op) ∧
      ∀ x ∈ s.records,
        (∃ x' ∈ (s.run ops).records, x.Evolves ((s.started ops).count x.id) x') ∨
          ∃ before op now after, ops = before ++ (op, now) :: after ∧
            ∃ y ∈ (s.run before).records, x.Evolves ((s.started before).count x.id) y ∧
              y.isTerminal = true ∧ op.Deletes y ∧
              y.id ∉ ((s.run before).perform now op).ids :=
  ⟨fun now op => lawful (s.run ops) now op, fun _ hx => evolves_of_run hx ops⟩

end Store

end BackgroundJobs
