import BackgroundJobs.Job.Error
import BackgroundJobs.Job.Transition
import BackgroundJobs.Store.Filter

/-!
# Store — the status store

The store keeps one record per run, in no particular order. Every change of
state is a compare-and-set: it happens only if the record is in the state that
the caller expects and the change is an edge of the state graph. Each operation
is atomic, and one that fails leaves the store as it was.

Main statements:

* `find?_eq_some_iff` — a record is found by its id exactly if it is stored.
* `mem_modify`        — a change replaces the record it names and keeps all others.
-/

namespace BackgroundJobs

/-- The stored records, no two of one id. -/
structure Store where
  records : List JobRecord
  nodup : (records.map (·.id)).Nodup

/-- The number of records in each state. -/
structure StateCounts where
  queued : Nat := 0
  running : Nat := 0
  finished : Nat := 0
  failed : Nat := 0
  canceled : Nat := 0
  interrupted : Nat := 0
  deriving DecidableEq, Repr, Inhabited

namespace StateCounts

/-- The number of records in the given state. -/
def get (c : StateCounts) : JobState → Nat
  | .queued => c.queued
  | .running => c.running
  | .finished => c.finished
  | .failed => c.failed
  | .canceled => c.canceled
  | .interrupted => c.interrupted

def total (c : StateCounts) : Nat :=
  c.queued + c.running + c.finished + c.failed + c.canceled + c.interrupted

def toJson (c : StateCounts) : Json :=
  .record [("queued", .int c.queued), ("running", .int c.running), ("finished", .int c.finished),
    ("failed", .int c.failed), ("canceled", .int c.canceled), ("interrupted", .int c.interrupted)]

end StateCounts

namespace Store

def empty : Store := ⟨[], .nil⟩

instance : Inhabited Store := ⟨empty⟩

instance : EmptyCollection Store := ⟨empty⟩

-- ---------------------------------------------------------------------------
-- Finding
-- ---------------------------------------------------------------------------

def find? (s : Store) (id : JobId) : Option JobRecord :=
  s.records.find? (·.id == id)

/-- The selected records in listing order, as many as the filter's limit allows. -/
def list (s : Store) (f : Filter) : List JobRecord :=
  f.cut ((s.records.filter f.selects).mergeSort JobRecord.precedes)

/-- The active ones among the selected records, in listing order and within the limit. -/
def listActive (s : Store) (f : Filter) : List JobRecord :=
  f.cut ((s.records.filter fun r => r.isActive && f.selects r).mergeSort JobRecord.precedes)

def countIn (s : Store) (state : JobState) : Nat :=
  s.records.countP (·.state = state)

def counts (s : Store) : StateCounts where
  queued := s.countIn .queued
  running := s.countIn .running
  finished := s.countIn .finished
  failed := s.countIn .failed
  canceled := s.countIn .canceled
  interrupted := s.countIn .interrupted

-- ---------------------------------------------------------------------------
-- Changing
-- ---------------------------------------------------------------------------

def create (s : Store) (r : JobRecord) : Except StoreError Store :=
  if h : r.id ∈ s.records.map (·.id) then .error (.alreadyExists r.id)
  else
    .ok ⟨s.records ++ [r], by
      rw [List.map_append, List.nodup_append]
      refine ⟨s.nodup, by simp, ?_⟩
      rintro a ha b hb rfl
      simp only [List.map_cons, List.map_nil, List.mem_singleton] at hb
      exact h (hb ▸ ha)⟩

/-- Replaces the record of that id by what `change` makes of it; its id stays. -/
def modify (s : Store) (id : JobId) (change : JobRecord → JobRecord) : Store where
  records := s.records.map fun r => if r.id = id then { change r with id := r.id } else r
  nodup := by
    have : (s.records.map fun r => if r.id = id then { change r with id := r.id } else r).map
        (·.id) = s.records.map (·.id) := by
      rw [List.map_map]
      apply List.map_congr_left
      intro r _
      simp only [Function.comp]
      split <;> rfl
    rw [this]
    exact s.nodup

/-- Keeps the records that `keep` holds of. -/
def retain (s : Store) (keep : JobRecord → Bool) : Store :=
  ⟨s.records.filter keep, s.nodup.sublist (List.filter_sublist.map _)⟩

/-- Makes a change of state if the record is in the expected one and the graph allows it.
Returns the record as changed. -/
def transition (s : Store) (id : JobId) (expected : JobState) (t : Transition) (now : Instant) :
    Except StoreError (JobRecord × Store) :=
  match s.find? id with
  | none => .error (.notFound id)
  | some r =>
    if r.state ≠ expected then .error (.stateConflict id expected r.state)
    else if expected.canBecome t.target then
      .ok (t.apply r now, s.modify id fun r => t.apply r now)
    else .error (.illegalTransition expected t.target)

/-- A record marked for cancellation; a terminal one is past it. -/
def marked (r : JobRecord) (now : Instant) : JobRecord :=
  if r.isActive then { r with cancelRequested := true, updatedAt := now } else r

/-- Marks an active record for cancellation without changing its state. Returns the record. -/
def requestCancel (s : Store) (id : JobId) (now : Instant) :
    Except StoreError (JobRecord × Store) :=
  match s.find? id with
  | none => .error (.notFound id)
  | some r => .ok (marked r now, s.modify id (marked · now))

/-- Deletes those of the named records that are terminal. Returns how many there were. -/
def deleteTerminal (s : Store) (ids : List JobId) : Nat × Store :=
  let rest := s.retain fun r => !(r.isTerminal && ids.contains r.id)
  (s.records.length - rest.records.length, rest)

/-- Did the run end before the given time? -/
def expired (cutoff : Instant) (r : JobRecord) : Bool :=
  r.isTerminal && r.finishedAt.any (· < cutoff)

/-- Deletes the terminal records that finished before the given time. Returns how many. -/
def deleteFinishedBefore (s : Store) (cutoff : Instant) : Nat × Store :=
  let rest := s.retain fun r => !expired cutoff r
  (s.records.length - rest.records.length, rest)

-- ---------------------------------------------------------------------------
-- What the operations do to the records
-- ---------------------------------------------------------------------------

theorem eq_of_mem_of_id_eq {s : Store} {a b : JobRecord} (ha : a ∈ s.records)
    (hb : b ∈ s.records) (h : a.id = b.id) : a = b := by
  have key : ∀ l : List JobRecord, (l.map (·.id)).Nodup → a ∈ l → b ∈ l → a = b := by
    intro l
    induction l with
    | nil => simp
    | cons x rest ih =>
      intro hn ha hb
      rw [List.map_cons, List.nodup_cons] at hn
      rcases List.mem_cons.mp ha with rfl | ha' <;> rcases List.mem_cons.mp hb with rfl | hb'
      · rfl
      · exact absurd (List.mem_map.mpr ⟨b, hb', h.symm⟩) hn.1
      · exact absurd (List.mem_map.mpr ⟨a, ha', h⟩) hn.1
      · exact ih hn.2 ha' hb'
  exact key s.records s.nodup ha hb

/-- A record is found by an id exactly if it is stored and has that id. -/
theorem find?_eq_some_iff {s : Store} {id : JobId} {r : JobRecord} :
    s.find? id = some r ↔ r ∈ s.records ∧ r.id = id := by
  constructor
  · intro h
    exact ⟨List.mem_of_find?_eq_some h, by simpa using List.find?_some h⟩
  · rintro ⟨hmem, hid⟩
    cases h : s.find? id with
    | none =>
      have := List.find?_eq_none.mp h r hmem
      simp [hid] at this
    | some r' =>
      have hr' := List.mem_of_find?_eq_some h
      have hid' : r'.id = id := by simpa using List.find?_some h
      rw [eq_of_mem_of_id_eq hr' hmem (hid'.trans hid.symm)]

/-- After a change the store holds the changed record and every other one. -/
theorem mem_modify {s : Store} {id : JobId} {change : JobRecord → JobRecord} {r : JobRecord} :
    r ∈ (s.modify id change).records ↔
      (r ∈ s.records ∧ r.id ≠ id) ∨
        ∃ old ∈ s.records, old.id = id ∧ r = { change old with id := id } := by
  simp only [modify, List.mem_map]
  constructor
  · rintro ⟨old, hold, rfl⟩
    split
    · next h => exact .inr ⟨old, hold, h, by rw [h]⟩
    · next h => exact .inl ⟨hold, h⟩
  · rintro (⟨hr, hne⟩ | ⟨old, hold, hid, rfl⟩)
    · exact ⟨r, hr, by simp [hne]⟩
    · exact ⟨old, hold, by simp [hid]⟩

end Store

end BackgroundJobs
