import BackgroundJobs.Job.Request
import BackgroundJobs.Proofs.Store.Operation

/-!
# Proofs — listing

The store keeps its records in no particular order, and lists them by their time
of creation and then by their ids. No two records have one id, so that order
leaves nothing open: which records are stored decides how they are listed, and
no matter how they came there.

Main results:

* `Filter.selects_iff`       — which records a filter selects.
* `JobRecord.eq_of_inOrder`  — in order there is only one list of given records.
* `Store.listing_determined` — what a filter lists, and that it lists the same of
  two stores with the same records.
-/

namespace BackgroundJobs

-- ---------------------------------------------------------------------------
-- The listing order
-- ---------------------------------------------------------------------------

namespace JobRecord

variable {a b c : JobRecord} {l l' : List JobRecord}

theorem precedes_iff : a.precedes b = true ↔
    a.createdAt < b.createdAt ∨ a.createdAt = b.createdAt ∧ a.id ≤ b.id := by
  simp only [precedes, Bool.or_eq_true, Bool.and_eq_true, decide_eq_true_eq]

theorem precedes_trans (a b c : JobRecord) (hab : a.precedes b = true)
    (hbc : b.precedes c = true) : a.precedes c = true := by
  rw [precedes_iff] at *
  rcases hab with hab | ⟨hab, hId⟩
  · rcases hbc with hbc | ⟨hbc, -⟩
    · exact .inl (Instant.lt_trans hab hbc)
    · exact .inl (hbc ▸ hab)
  · rcases hbc with hbc | ⟨hbc, hId'⟩
    · exact .inl (hab ▸ hbc)
    · exact .inr ⟨hab.trans hbc, BitVec.le_trans hId hId'⟩

theorem precedes_total (a b : JobRecord) : (a.precedes b || b.precedes a) = true := by
  rw [Bool.or_eq_true, precedes_iff, precedes_iff]
  rcases Instant.lt_trichotomy a.createdAt b.createdAt with hLt | hSame | hLt
  · exact .inl (.inl hLt)
  · rcases BitVec.le_total a.id.uuid.bits b.id.uuid.bits with hId | hId
    · exact .inl (.inr ⟨hSame, hId⟩)
    · exact .inr (.inr ⟨hSame.symm, hId⟩)
  · exact .inr (.inl hLt)

theorem id_eq_of_precedes (hab : a.precedes b = true) (hba : b.precedes a = true) :
    a.id = b.id := by
  rw [precedes_iff] at hab hba
  rcases hab with hLt | ⟨hSame, hId⟩
  · rcases hba with hLt' | ⟨hSame, -⟩
    · exact (Instant.lt_asymm hLt hLt').elim
    · exact (Instant.lt_irrefl _ (hSame ▸ hLt)).elim
  · rcases hba with hLt | ⟨-, hId'⟩
    · exact (Instant.lt_irrefl _ (hSame ▸ hLt)).elim
    · exact congrArg JobId.mk (congrArg Uuid.mk (BitVec.le_antisymm hId hId'))

/-- Was the one record created before the other, or at the same time under a smaller id? -/
def Earlier (a b : JobRecord) : Prop :=
  a.createdAt < b.createdAt ∨ a.createdAt = b.createdAt ∧ a.id < b.id

theorem earlier_of_precedes (h : a.precedes b = true) (hId : a.id ≠ b.id) : a.Earlier b := by
  rcases precedes_iff.mp h with hTime | ⟨hTime, hLe⟩
  · exact .inl hTime
  · have hNe : ¬ a.id.uuid.bits = b.id.uuid.bits := fun hBits =>
      hId (congrArg JobId.mk (congrArg Uuid.mk hBits))
    exact .inr ⟨hTime, BitVec.lt_of_le_ne hLe hNe⟩

theorem Earlier.asymm (h : a.Earlier b) : ¬ b.Earlier a := by
  rintro (hTime' | ⟨hTime', hId'⟩)
  · rcases h with hTime | ⟨hTime, -⟩
    · exact Instant.lt_asymm hTime hTime'
    · exact Instant.lt_irrefl _ (hTime ▸ hTime')
  · rcases h with hTime | ⟨-, hId⟩
    · exact Instant.lt_irrefl _ (hTime' ▸ hTime)
    · exact BitVec.lt_asymm hId hId'

theorem nodup_of_inOrder (h : l.Pairwise Earlier) : l.Nodup :=
  h.imp fun {a b} hab hEq => by
    subst hEq
    exact hab.asymm hab

/-- In order there is only one list of given records. -/
theorem eq_of_inOrder (h : l.Pairwise Earlier) (h' : l'.Pairwise Earlier)
    (hSame : ∀ r, r ∈ l ↔ r ∈ l') : l = l' := by
  have hPerm : l.Perm l' :=
    (List.perm_ext_iff_of_nodup (nodup_of_inOrder h) (nodup_of_inOrder h')).mpr hSame
  exact hPerm.eq_of_pairwise (fun a b _ _ hab hba => (hab.asymm hba).elim) h h'

end JobRecord

-- ---------------------------------------------------------------------------
-- Selected records
-- ---------------------------------------------------------------------------

namespace Filter

variable {f : Filter} {r : JobRecord}

/-- What a filter asks of a record, the limit aside. An empty list of keys, groups or states asks
for nothing. -/
structure Meets (f : Filter) (r : JobRecord) : Prop where
  jobKey : f.jobKeys = [] ∨ r.jobKey ∈ f.jobKeys
  group : f.groups = [] ∨ r.group ∈ f.groups
  state : f.states = [] ∨ r.state ∈ f.states
  owner : ∀ owner, f.owner = some owner → r.metadata.get? ownerKey = some owner
  triggerId : ∀ id, f.triggerId = some id → r.triggerId = some id
  arguments : ∀ name value, (name, value) ∈ f.arguments →
    ∃ a, r.arguments.get? name = some a ∧ a.same value = true

theorem admits_iff {α : Type} [DecidableEq α] {wanted : List α} {value : α} :
    admits wanted value = true ↔ wanted = [] ∨ value ∈ wanted := by
  rw [admits, Bool.or_eq_true, List.isEmpty_iff, List.contains_iff_mem]

/-- A criterion that may be absent holds if it is, or if the record has what it names. -/
theorem isNone_or_beq_iff {α : Type} [DecidableEq α] {wanted found : Option α} :
    (wanted.isNone || found == wanted) = true ↔ ∀ a, wanted = some a → found = some a := by
  cases wanted with
  | none => simp
  | some a => simp

theorem selects_iff : f.selects r = true ↔ f.Meets r := by
  simp only [selects, Bool.and_eq_true, admits_iff, isNone_or_beq_iff, List.all_eq_true,
    Option.any_eq_true]
  constructor
  · rintro ⟨⟨⟨⟨⟨hKey, hGroup⟩, hState⟩, hOwner⟩, hTrigger⟩, hArguments⟩
    exact ⟨hKey, hGroup, hState, hOwner, hTrigger, fun name value => hArguments (name, value)⟩
  · rintro ⟨hKey, hGroup, hState, hOwner, hTrigger, hArguments⟩
    exact ⟨⟨⟨⟨⟨hKey, hGroup⟩, hState⟩, hOwner⟩, hTrigger⟩, fun x => hArguments x.1 x.2⟩

/-- The same filter without a limit. -/
def unlimited (f : Filter) : Filter :=
  { f with limit := none }

theorem cut_eq (f : Filter) (l : List JobRecord) :
    f.cut l = f.limit.elim l fun n => l.take n := by
  unfold cut
  cases f.limit <;> rfl

end Filter

-- ---------------------------------------------------------------------------
-- Listings
-- ---------------------------------------------------------------------------

namespace Store

variable {s t : Store} {f : Filter} {r : JobRecord} {keep : JobRecord → Bool}

/-- The stored records that `keep` holds of, in listing order. -/
def listing (s : Store) (keep : JobRecord → Bool) : List JobRecord :=
  (s.records.filter keep).mergeSort JobRecord.precedes

theorem list_eq (s : Store) (f : Filter) : s.list f = f.cut (s.listing f.selects) := rfl

theorem listActive_eq (s : Store) (f : Filter) :
    s.listActive f = f.cut (s.listing fun r => r.isActive && f.selects r) := rfl

theorem perm_listing (s : Store) (keep : JobRecord → Bool) :
    (s.listing keep).Perm (s.records.filter keep) :=
  List.mergeSort_perm _ _

theorem mem_listing : r ∈ s.listing keep ↔ r ∈ s.records ∧ keep r = true := by
  rw [(perm_listing s keep).mem_iff, List.mem_filter]

theorem nodup_ids_listing (s : Store) (keep : JobRecord → Bool) :
    ((s.listing keep).map (·.id)).Nodup := by
  rw [((perm_listing s keep).map _).nodup_iff]
  exact s.nodup.sublist (List.filter_sublist.map _)

theorem precedes_listing (s : Store) (keep : JobRecord → Bool) :
    (s.listing keep).Pairwise fun a b => a.precedes b = true :=
  List.pairwise_mergeSort JobRecord.precedes_trans JobRecord.precedes_total _

/-- No two records share an id, so that the order of a listing is strict. -/
theorem inOrder_listing (s : Store) (keep : JobRecord → Bool) :
    (s.listing keep).Pairwise JobRecord.Earlier := by
  have hIds : (s.listing keep).Pairwise fun a b => a.id ≠ b.id :=
    List.pairwise_map.mp (nodup_ids_listing s keep)
  exact (precedes_listing s keep).imp₂ (fun _ _ => JobRecord.earlier_of_precedes) hIds

/-- A listing shows what the store holds, and no trace of how it came there. -/
theorem listing_congr (hSame : ∀ r, r ∈ s.records ↔ r ∈ t.records) (keep : JobRecord → Bool) :
    s.listing keep = t.listing keep :=
  JobRecord.eq_of_inOrder (inOrder_listing s keep) (inOrder_listing t keep) fun r => by
    rw [mem_listing, mem_listing, hSame r]

/-- Part of a listing is a listing of that part. -/
theorem filter_listing (s : Store) (keep more : JobRecord → Bool) :
    (s.listing keep).filter more = s.listing fun r => more r && keep r :=
  JobRecord.eq_of_inOrder ((inOrder_listing s keep).filter more) (inOrder_listing s _) fun r => by
    rw [List.mem_filter, mem_listing, mem_listing, Bool.and_eq_true, and_assoc]
    exact and_congr_right fun _ => and_comm

theorem listActive_unlimited (s : Store) (f : Filter) :
    s.listActive f.unlimited = (s.list f.unlimited).filter (·.isActive) :=
  (filter_listing s f.selects (·.isActive)).symm

theorem mem_list_unlimited : r ∈ s.list f.unlimited ↔ r ∈ s.records ∧ f.Meets r := by
  rw [← Filter.selects_iff]
  exact mem_listing

/-- What a filter lists of a store is decided by the records that the store holds: those that meet
every criterion of the filter, each of them once, by their time of creation and then by their ids,
and no more of them than the limit allows. The active ones among these are listed in the same way,
and the limit counts active records only. -/
theorem listing_determined (hSame : ∀ r, r ∈ s.records ↔ r ∈ t.records) (f : Filter) :
    s.list f = t.list f ∧ s.listActive f = t.listActive f ∧
      (∀ r, r ∈ s.list f.unlimited ↔ r ∈ s.records ∧ f.Meets r) ∧
      (s.list f.unlimited).Pairwise JobRecord.Earlier ∧ (s.list f.unlimited).Nodup ∧
      s.list f = f.limit.elim (s.list f.unlimited) (fun n => (s.list f.unlimited).take n) ∧
      s.listActive f.unlimited = (s.list f.unlimited).filter (·.isActive) ∧
      s.listActive f =
        f.limit.elim (s.listActive f.unlimited) (fun n => (s.listActive f.unlimited).take n) := by
  refine ⟨?_, ?_, fun r => mem_list_unlimited, inOrder_listing s f.selects,
    JobRecord.nodup_of_inOrder (inOrder_listing s f.selects), f.cut_eq _,
    listActive_unlimited s f, f.cut_eq _⟩
  · rw [list_eq, list_eq, listing_congr hSame]
  · rw [listActive_eq, listActive_eq, listing_congr hSame]

/-- A new run with this number in its id, created at this second. -/
def numbered (n : Nat) : JobRecord :=
  let request : JobRequest :=
    { jobKey := "job", name := "job", group := none, arguments := Dict.empty,
      metadata := Dict.empty, constraints := [], retryPolicy := none, trigger := .immediate }
  request.toRecord ⟨⟨.ofNat 128 n⟩⟩ "default" .standard none ⟨n, 0⟩

/-- Two runs are created, and the first of them is started. -/
def straight : List (Op × Instant) :=
  [(.create (numbered 1), ⟨1, 0⟩),
    (.create (numbered 2), ⟨2, 0⟩),
    (.transition (numbered 1).id .queued .start, ⟨4, 0⟩)]

/-- The same two, the other way round, and a third one that is canceled and deleted. -/
def roundabout : List (Op × Instant) :=
  [(.create (numbered 3), ⟨3, 0⟩),
    (.create (numbered 2), ⟨3, 0⟩),
    (.transition (numbered 3).id .queued .cancel, ⟨3, 0⟩),
    (.create (numbered 1), ⟨3, 0⟩),
    (.transition (numbered 1).id .queued .start, ⟨4, 0⟩),
    (.deleteTerminal [(numbered 3).id], ⟨5, 0⟩)]

theorem listing_determined_roundabout :
    let s := Store.empty.run straight
    let t := Store.empty.run roundabout
    let f : Filter := { limit := some 1 }
    s.ids = [(numbered 1).id, (numbered 2).id] ∧ t.ids = [(numbered 2).id, (numbered 1).id] ∧
      (∀ r, r ∈ s.records ↔ r ∈ t.records) ∧ s.list f = t.list f ∧
      s.listActive f = t.listActive f ∧ (t.list f).map (·.id) = [(numbered 1).id] := by
  intro s t f
  have hPerm : s.records.Perm t.records := .swap _ _ []
  have hSame : ∀ r, r ∈ s.records ↔ r ∈ t.records := fun r => hPerm.mem_iff
  obtain ⟨hList, hActive, -⟩ := listing_determined hSame f
  refine ⟨rfl, rfl, hSame, hList, hActive, ?_⟩
  have hInOrder : s.records.Pairwise fun a b => a.precedes b = true :=
    List.pairwise_pair.mpr (by decide)
  have hListed : s.listing f.selects = s.records := List.mergeSort_of_pairwise hInOrder
  rw [← hList, list_eq, hListed]
  rfl

end Store

end BackgroundJobs
