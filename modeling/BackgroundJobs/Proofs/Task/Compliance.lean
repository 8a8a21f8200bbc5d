import BackgroundJobs.Task.Compliance
import Mathlib.Data.Finset.Card
import Mathlib.Data.List.Nodup

/-!
# Proofs — an owner's compliance

A refresh asks its source twice: for the consumers of an owner, and then for the
verdict on each of them, whoever owns it. A book in memory keeps one verdict for
each consumer of each owner, and its owners have no order of their own. So the
verdict that is counted on a consumer is the one that was set last under the first
owner who has that consumer, in whatever order the owners are gone through. It is
the owner's own if all owners of the consumer agree on it.

Main results:

* `ComplianceBook.records_ofFindings`  — what a book holds after any findings.
* `tally_eq`                           — what an undisturbed refresh counts.
* `ComplianceBook.refresh_ofFindings`  — what a refresh reports, in any order of the
  owners, and when it is the owner's own.
-/

namespace BackgroundJobs

/-- A verdict that is set on a consumer of an owner. -/
structure Finding where
  owner : String
  consumer : String
  verdict : Compliance
  deriving DecidableEq

-- ---------------------------------------------------------------------------
-- Findings
-- ---------------------------------------------------------------------------

namespace Finding

variable {findings : List Finding} {owner consumer : String}

/-- The verdict that was set last on a consumer of an owner. -/
def last? (findings : List Finding) (owner consumer : String) : Option Compliance :=
  (findings.reverse.find? fun f => f.owner = owner ∧ f.consumer = consumer).map (·.verdict)

theorem last?_concat (findings : List Finding) (f : Finding) (owner consumer : String) :
    last? (findings ++ [f]) owner consumer =
      if f.owner = owner ∧ f.consumer = consumer then some f.verdict
      else last? findings owner consumer := by
  unfold last?
  rw [List.reverse_concat, List.find?_cons]
  by_cases hIts : f.owner = owner ∧ f.consumer = consumer
  · rw [if_pos hIts, decide_eq_true hIts]
    rfl
  · rw [if_neg hIts, decide_eq_false hIts]

/-- The consumers of an owner. -/
def consumersOf (findings : List Finding) (owner : String) : Finset String :=
  ((findings.filter (·.owner = owner)).map (·.consumer)).toFinset

theorem mem_consumersOf :
    consumer ∈ consumersOf findings owner ↔ (last? findings owner consumer).isSome = true := by
  simp only [consumersOf, last?, List.mem_toFinset, List.mem_map, List.mem_filter,
    Option.isSome_map, List.find?_isSome, List.mem_reverse, decide_eq_true_eq, and_assoc]

/-- Do all owners of a consumer agree with this one on it? -/
def Agreed (findings : List Finding) (owner consumer : String) : Prop :=
  ∀ f ∈ findings, f.consumer = consumer →
    last? findings f.owner consumer = last? findings owner consumer

instance : Decidable (Agreed findings owner consumer) :=
  inferInstanceAs (Decidable (∀ f ∈ findings, f.consumer = consumer →
    last? findings f.owner consumer = last? findings owner consumer))

theorem agreed_iff : Agreed findings owner consumer ↔
    ∀ other, consumer ∈ consumersOf findings other →
      last? findings other consumer = last? findings owner consumer := by
  constructor
  · intro h other hOther
    simp only [consumersOf, List.mem_toFinset, List.mem_map, List.mem_filter,
      decide_eq_true_eq] at hOther
    obtain ⟨f, ⟨hf, rfl⟩, hConsumer⟩ := hOther
    exact h f hf hConsumer
  · intro h f hf hConsumer
    refine h f.owner ?_
    simp only [consumersOf, List.mem_toFinset, List.mem_map, List.mem_filter, decide_eq_true_eq]
    exact ⟨f, ⟨hf, rfl⟩, hConsumer⟩

end Finding

open Finding

-- ---------------------------------------------------------------------------
-- Books
-- ---------------------------------------------------------------------------

namespace ComplianceBook

variable {b b' : ComplianceBook} {findings : List Finding} {owner consumer : String}
  {verdict : Compliance}

/-- The book after verdicts were set, one after the other. -/
def ofFindings (findings : List Finding) : ComplianceBook :=
  findings.foldl (fun b f => b.set f.owner f.consumer f.verdict) {}

theorem ofFindings_concat (findings : List Finding) (f : Finding) :
    ofFindings (findings ++ [f]) = (ofFindings findings).set f.owner f.consumer f.verdict :=
  List.foldl_concat ..

theorem lookup_setVerdict (consumer : String) (verdict : Compliance)
    (l : List (String × Compliance)) (c : String) :
    (setVerdict consumer verdict l).lookup c =
      if consumer = c then some verdict else l.lookup c := by
  induction l with
  | nil =>
    by_cases hSame : consumer = c
    · simp [setVerdict, hSame]
    · simp [setVerdict, hSame, List.lookup_cons, beq_false_of_ne (Ne.symm hSame)]
  | cons first rest ih =>
    obtain ⟨c', v⟩ := first
    rw [setVerdict]
    by_cases hFirst : c' = consumer
    · subst hFirst
      by_cases hSame : c' = c
      · simp [hSame]
      · simp [hSame, List.lookup_cons, beq_false_of_ne (Ne.symm hSame)]
    · rw [if_neg hFirst, List.lookup_cons, ih, List.lookup_cons]
      by_cases hSame : consumer = c
      · subst hSame
        simp [beq_false_of_ne (Ne.symm hFirst)]
      · simp [hSame]

/-- A key comes behind the others, unless it is there already. -/
def withKey (key : String) (keys : List String) : List String :=
  if key ∈ keys then keys else keys ++ [key]

theorem mem_withKey {key k : String} {keys : List String} :
    k ∈ withKey key keys ↔ k = key ∨ k ∈ keys := by
  unfold withKey
  split
  · next hThere => exact ⟨.inr, fun h => h.elim (fun hEq => hEq ▸ hThere) id⟩
  · rw [List.mem_append, List.mem_singleton, or_comm]

theorem nodup_withKey {key : String} {keys : List String} (h : keys.Nodup) :
    (withKey key keys).Nodup := by
  unfold withKey
  split
  · exact h
  · next hNew => exact List.nodup_append_comm.mp (List.nodup_cons.mpr ⟨hNew, h⟩)

theorem withKey_cons_of_ne {key k : String} {keys : List String} (h : k ≠ key) :
    withKey key (k :: keys) = k :: withKey key keys := by
  unfold withKey
  by_cases hThere : key ∈ keys
  · rw [if_pos hThere, if_pos (List.mem_cons_of_mem k hThere)]
  · rw [if_neg hThere, if_neg, List.cons_append]
    exact fun hMem => (List.mem_cons.mp hMem).elim (fun hEq => h hEq.symm) hThere

theorem withKey_cons_self (key : String) (keys : List String) :
    withKey key (key :: keys) = key :: keys :=
  if_pos List.mem_cons_self

theorem map_setVerdict (l : List (String × Compliance)) :
    (setVerdict consumer verdict l).map (·.1) = withKey consumer (l.map (·.1)) := by
  induction l with
  | nil => rfl
  | cons first rest ih =>
    rw [setVerdict, List.map_cons]
    split
    · next hFirst => rw [hFirst, withKey_cons_self, List.map_cons]
    · next hFirst => rw [withKey_cons_of_ne hFirst, ← ih, List.map_cons]

theorem map_setEntry (l : List ComplianceEntry) :
    (setEntry owner consumer verdict l).map (·.owner) = withKey owner (l.map (·.owner)) := by
  induction l with
  | nil => rfl
  | cons first rest ih =>
    rw [setEntry, List.map_cons]
    split
    · next hFirst => rw [hFirst, withKey_cons_self, List.map_cons]
    · next hFirst => rw [withKey_cons_of_ne hFirst, ← ih, List.map_cons]

/-- Only the owner's entry changes; a new owner's begins without consumers. -/
theorem of_mem_setEntry {l : List ComplianceEntry} (hNodup : (l.map (·.owner)).Nodup)
    {e : ComplianceEntry} (h : e ∈ setEntry owner consumer verdict l) :
    (e.owner ≠ owner ∧ e ∈ l) ∨ ∃ old, e = ⟨owner, setVerdict consumer verdict old⟩ ∧
      (⟨owner, old⟩ ∈ l ∨ owner ∉ l.map (·.owner) ∧ old = []) := by
  induction l with
  | nil => exact .inr ⟨[], List.mem_singleton.mp h, .inr ⟨List.not_mem_nil, rfl⟩⟩
  | cons first rest ih =>
    obtain ⟨hNew, hRest⟩ := List.nodup_cons.mp hNodup
    rw [setEntry] at h
    split at h
    · next hFirst =>
      rcases List.mem_cons.mp h with rfl | hMem
      · exact .inr ⟨first.consumers, by rw [← hFirst], .inl (by simp [← hFirst])⟩
      · refine .inl ⟨fun hSame => hNew ?_, List.mem_cons_of_mem _ hMem⟩
        exact List.mem_map.mpr ⟨e, hMem, hSame.trans hFirst.symm⟩
    · next hFirst =>
      rcases List.mem_cons.mp h with rfl | hMem
      · exact .inl ⟨hFirst, List.mem_cons_self⟩
      · rcases ih hRest hMem with ⟨hOther, hOld⟩ | ⟨old, hEntry, hOld | ⟨hNone, hOld⟩⟩
        · exact .inl ⟨hOther, List.mem_cons_of_mem _ hOld⟩
        · exact .inr ⟨old, hEntry, .inl (List.mem_cons_of_mem _ hOld)⟩
        · refine .inr ⟨old, hEntry, .inr ⟨fun hMem => ?_, hOld⟩⟩
          exact (List.mem_cons.mp hMem).elim (fun hEq => hFirst hEq.symm) hNone

/-- Does a book hold what came of the findings, in whatever order of the owners? -/
structure Records (b : ComplianceBook) (findings : List Finding) : Prop where
  owners : (b.entries.map (·.owner)).Nodup
  consumers : ∀ e ∈ b.entries, (e.consumers.map (·.1)).Nodup
  verdicts : ∀ e ∈ b.entries, ∀ c, e.consumers.lookup c = last? findings e.owner c
  listed : ∀ f ∈ findings, f.owner ∈ b.entries.map (·.owner)

theorem Records.last?_eq_none (h : b.Records findings) (hNew : owner ∉ b.entries.map (·.owner))
    (c : String) : last? findings owner c = none := by
  rw [last?, Option.map_eq_none_iff, List.find?_eq_none]
  intro f hf hIts
  have hOwner : f.owner = owner := (of_decide_eq_true hIts).1
  exact hNew (hOwner ▸ h.listed f (List.mem_reverse.mp hf))

/-- Setting a verdict adds a finding. -/
theorem Records.set (h : b.Records findings) (f : Finding) :
    (b.set f.owner f.consumer f.verdict).Records (findings ++ [f]) := by
  constructor
  case owners =>
    rw [ComplianceBook.set, map_setEntry]
    exact nodup_withKey h.owners
  case consumers =>
    intro e he
    rcases of_mem_setEntry h.owners he with ⟨-, hOld⟩ | ⟨old, rfl, hOld | ⟨-, rfl⟩⟩
    · exact h.consumers e hOld
    · rw [map_setVerdict]
      exact nodup_withKey (h.consumers _ hOld)
    · exact List.nodup_singleton _
  case verdicts =>
    intro e he c
    rw [last?_concat]
    rcases of_mem_setEntry h.owners he with ⟨hOther, hOld⟩ | ⟨old, rfl, hOld⟩
    · rw [if_neg fun hIts => hOther hIts.1.symm]
      exact h.verdicts e hOld c
    · have hBefore : old.lookup c = last? findings f.owner c := by
        rcases hOld with hOld | ⟨hNew, rfl⟩
        · exact h.verdicts _ hOld c
        · exact (h.last?_eq_none hNew c).symm
      simp only [lookup_setVerdict, hBefore, true_and]
  case listed =>
    intro g hg
    rw [ComplianceBook.set, map_setEntry, mem_withKey]
    rcases List.mem_append.mp hg with hOld | hNew
    · exact .inr (h.listed g hOld)
    · exact .inl (by rw [List.mem_singleton.mp hNew])

/-- What a book holds after any findings. -/
theorem records_ofFindings (findings : List Finding) :
    (ofFindings findings).Records findings := by
  induction findings using List.reverseRecOn with
  | nil =>
    exact ⟨List.nodup_nil, fun e he => (List.not_mem_nil he).elim,
      fun e he => (List.not_mem_nil he).elim, fun f hf => (List.not_mem_nil hf).elim⟩
  | append_singleton findings f ih =>
    rw [ofFindings_concat]
    exact ih.set f

/-- The order of the owners does not matter to what is held. -/
theorem Records.perm (h : b.Records findings) (hOrder : b'.entries.Perm b.entries) :
    b'.Records findings := by
  refine ⟨((hOrder.map _).nodup_iff).mpr h.owners, fun e he => h.consumers e (hOrder.mem_iff.mp he),
    fun e he => h.verdicts e (hOrder.mem_iff.mp he), fun f hf => ?_⟩
  exact (hOrder.map _).mem_iff.mpr (h.listed f hf)

-- ---------------------------------------------------------------------------
-- The two questions
-- ---------------------------------------------------------------------------

/-- The consumers that a book lists of an owner are those that the owner has, each once. -/
theorem Records.consumers_eq (h : b.Records findings) (hListed : ∃ f ∈ findings, f.owner = owner) :
    ∃ names : List String, b.consumers owner = .ok names ∧ names.Nodup ∧
      names.toFinset = consumersOf findings owner := by
  obtain ⟨f, hf, rfl⟩ := hListed
  obtain ⟨e₀, he₀, hOwner₀⟩ := List.mem_map.mp (h.listed f hf)
  obtain ⟨e, hFound⟩ : ∃ e, b.entries.find? (·.owner == f.owner) = some e :=
    Option.isSome_iff_exists.mp (List.find?_isSome.mpr ⟨e₀, he₀, beq_iff_eq.mpr hOwner₀⟩)
  have hMem : e ∈ b.entries := List.mem_of_find?_eq_some hFound
  have hOwner : e.owner = f.owner := by simpa using List.find?_some hFound
  refine ⟨e.consumers.map (·.1), by rw [ComplianceBook.consumers, hFound], h.consumers e hMem, ?_⟩
  ext c
  rw [mem_consumersOf, ← hOwner, ← h.verdicts e hMem, List.lookup_isSome_iff, List.mem_toFinset,
    List.mem_map]
  constructor
  · rintro ⟨x, hx, rfl⟩
    exact ⟨x, hx, beq_self_eq_true x.1⟩
  · rintro ⟨x, hx, hSame⟩
    exact ⟨x, hx, (beq_iff_eq.mp hSame).symm⟩

/-- The verdict on a consumer, whoever owns it. -/
def found? (b : ComplianceBook) (consumer : String) : Option Compliance :=
  b.entries.findSome? fun e => e.consumers.lookup consumer

theorem lookup_flatMap (entries : List ComplianceEntry) (consumer : String) :
    (entries.flatMap (·.consumers)).lookup consumer =
      entries.findSome? fun e => e.consumers.lookup consumer := by
  induction entries with
  | nil => rfl
  | cons e rest ih =>
    rw [List.flatMap_cons, List.lookup_append, ih, List.findSome?_cons]
    cases e.consumers.lookup consumer <;> rfl

theorem recompute_of_found (h : b.found? consumer = some verdict) :
    b.recompute consumer = .ok verdict := by
  rw [recompute, lookup_flatMap, ← found?, h]

/-- Where the verdict on a consumer is taken from: it was set last under the first owner who has the
consumer. -/
structure Foremost (b : ComplianceBook) (findings : List Finding) (consumer : String)
    (verdict : Compliance) (e : ComplianceEntry) : Prop where
  place : ∃ before after, b.entries = before ++ e :: after ∧
    ∀ x ∈ before, consumer ∉ consumersOf findings x.owner
  last : last? findings e.owner consumer = some verdict

theorem Records.found_iff (h : b.Records findings) :
    b.found? consumer = some verdict ↔ ∃ e, b.Foremost findings consumer verdict e := by
  have hNone : ∀ x ∈ b.entries, x.consumers.lookup consumer = none ↔
      consumer ∉ consumersOf findings x.owner := by
    intro x hx
    rw [h.verdicts x hx, mem_consumersOf, Option.not_isSome_iff_eq_none]
  rw [found?, List.findSome?_eq_some_iff]
  constructor
  · rintro ⟨before, e, after, hEntries, hVerdict, hBefore⟩
    have hMem : e ∈ b.entries := by simp [hEntries]
    refine ⟨e, ⟨before, after, hEntries, fun x hx => ?_⟩, ?_⟩
    · exact (hNone x (by simp [hEntries, hx])).mp (hBefore x hx)
    · rw [← h.verdicts e hMem, hVerdict]
  · rintro ⟨e, ⟨before, after, hEntries, hBefore⟩, hLast⟩
    have hMem : e ∈ b.entries := by simp [hEntries]
    refine ⟨before, e, after, hEntries, by rw [h.verdicts e hMem, hLast], fun x hx => ?_⟩
    exact (hNone x (by simp [hEntries, hx])).mpr (hBefore x hx)

theorem Records.exists_entry (h : b.Records findings)
    (hConsumer : consumer ∈ consumersOf findings owner) :
    ∃ e ∈ b.entries, e.owner = owner ∧ ∃ v, last? findings owner consumer = some v := by
  obtain ⟨v, hLast⟩ := Option.isSome_iff_exists.mp (mem_consumersOf.mp hConsumer)
  have hOwner : owner ∈ b.entries.map (·.owner) := by
    by_contra hNew
    rw [h.last?_eq_none hNew] at hLast
    cases hLast
  obtain ⟨e, he, hIts⟩ := List.mem_map.mp hOwner
  exact ⟨e, he, hIts, v, hLast⟩

/-- There is a verdict on every consumer of an owner. -/
theorem Records.exists_found (h : b.Records findings)
    (hConsumer : consumer ∈ consumersOf findings owner) :
    ∃ verdict, b.found? consumer = some verdict := by
  obtain ⟨e, he, rfl, v, hLast⟩ := h.exists_entry hConsumer
  refine Option.isSome_iff_exists.mp (List.findSome?_isSome_iff.mpr ⟨e, he, ?_⟩)
  rw [h.verdicts e he, hLast]
  rfl

/-- Any owner of a consumer may come first, and then the verdict is that owner's. -/
theorem Records.exists_order (h : b.Records findings)
    (hConsumer : consumer ∈ consumersOf findings owner) :
    ∃ b' : ComplianceBook, b'.entries.Perm b.entries ∧
      b'.found? consumer = last? findings owner consumer := by
  obtain ⟨e, he, rfl, v, hLast⟩ := h.exists_entry hConsumer
  have hOrder : (e :: b.entries.erase e).Perm b.entries := (List.perm_cons_erase he).symm
  refine ⟨⟨e :: b.entries.erase e⟩, hOrder, ?_⟩
  rw [hLast]
  have hFirst : Records ⟨e :: b.entries.erase e⟩ findings := h.perm hOrder
  refine hFirst.found_iff.mpr ⟨e, ⟨[], _, rfl, ?_⟩, hLast⟩
  exact fun x hx => (List.not_mem_nil hx).elim

end ComplianceBook

-- ---------------------------------------------------------------------------
-- Counting
-- ---------------------------------------------------------------------------

namespace ComplianceSummary

variable {s : ComplianceSummary} {verdicts : String → Compliance}

/-- The number of consumers with a verdict. -/
def count (s : ComplianceSummary) : Compliance → ℕ
  | .valid => s.valid
  | .partly => s.partly
  | .invalid => s.invalid

/-- The summary with the verdicts on more consumers. -/
def addAll (s : ComplianceSummary) (verdicts : String → Compliance) (names : List String) :
    ComplianceSummary :=
  names.foldl (fun s c => s.add (verdicts c)) s

theorem count_add (s : ComplianceSummary) (v w : Compliance) :
    (s.add v).count w = s.count w + if v = w then 1 else 0 := by
  cases v <;> cases w <;> rfl

theorem count_addAll (names : List String) (w : Compliance) :
    (s.addAll verdicts names).count w = s.count w + names.countP (verdicts · = w) := by
  induction names generalizing s with
  | nil => rfl
  | cons c rest ih =>
    rw [addAll, List.foldl_cons, ← addAll, ih, count_add, List.countP_cons, Nat.add_assoc,
      Nat.add_comm (if verdicts c = w then 1 else 0)]
    simp only [decide_eq_true_eq]

theorem add_owner (s : ComplianceSummary) (v : Compliance) : (s.add v).owner = s.owner := by
  cases v <;> rfl

theorem owner_addAll (names : List String) : (s.addAll verdicts names).owner = s.owner := by
  induction names generalizing s with
  | nil => rfl
  | cons c rest ih => rw [addAll, List.foldl_cons, ← addAll, ih, add_owner]

/-- Every consumer that is counted has one of the verdicts. -/
def Balanced (s : ComplianceSummary) : Prop := s.valid + s.partly + s.invalid = s.consumers

theorem Balanced.add (h : s.Balanced) (v : Compliance) : (s.add v).Balanced := by
  unfold Balanced at *
  cases v <;> simp only [ComplianceSummary.add] <;> omega

theorem Balanced.addAll (h : s.Balanced) (names : List String) :
    (s.addAll verdicts names).Balanced := by
  induction names generalizing s with
  | nil => exact h
  | cons c rest ih => exact ih (h.add (verdicts c))

theorem consumers_addAll (names : List String) :
    (s.addAll verdicts names).consumers = s.consumers + names.length := by
  have hAdd : ∀ (s : ComplianceSummary) v, (s.add v).consumers = s.consumers + 1 := by
    intro s v
    cases v <;> rfl
  induction names generalizing s with
  | nil => rfl
  | cons c rest ih =>
    rw [addAll, List.foldl_cons, ← addAll, ih, hAdd, List.length_cons, Nat.add_assoc,
      Nat.add_comm 1]

end ComplianceSummary

/-- A refresh that is not told to stop counts the verdict on every consumer. -/
theorem tally_eq {source : ComplianceSource} {canceled : List String → Bool}
    (hGoesOn : ∀ before, canceled before = false) {verdicts : String → Compliance}
    {names : List String} (hVerdicts : ∀ c ∈ names, source.recompute c = .ok (verdicts c))
    (before : List String) (s : ComplianceSummary) :
    tally source canceled before s names = .ok (s.addAll verdicts names) := by
  induction names generalizing before s with
  | nil => rfl
  | cons c rest ih =>
    obtain ⟨hFirst, hRest⟩ := List.forall_mem_cons.mp hVerdicts
    have hCheckpoint : JobContext.checkpoint (canceled before) = .ok () := by
      rw [hGoesOn before]
      rfl
    simp only [tally, hCheckpoint, hFirst, bind, Except.bind]
    exact ih hRest _ _

/-- The consumers of a list without repeats that a test picks. -/
theorem countP_eq_card {names : List String} (hNodup : names.Nodup) (p : String → Bool) :
    names.countP p = (names.toFinset.filter (p ·)).card := by
  rw [List.countP_eq_length_filter, ← List.toFinset_filter,
    List.toFinset_card_of_nodup (hNodup.filter p)]

namespace ComplianceBook

/-- What a refresh of an owner reports from a book that holds the findings. -/
structure Reports (b : ComplianceBook) (findings : List Finding) (owner : String)
    (s : ComplianceSummary) : Prop where
  owner_eq : s.owner = owner
  /-- Each of the owner's consumers is counted once. -/
  consumers : s.consumers = (consumersOf findings owner).card
  balanced : s.valid + s.partly + s.invalid = s.consumers
  counts : ∀ v, s.count v =
    ((consumersOf findings owner).filter fun c => b.found? c = some v).card
  /-- The verdict that is counted on a consumer was set last under the first owner who has it. -/
  source : ∀ c ∈ consumersOf findings owner, ∃ v e, b.found? c = some v ∧ b.Foremost findings c v e
  /-- It is the owner's own tally if all owners of these consumers agree on them. -/
  own : (∀ c ∈ consumersOf findings owner, Agreed findings owner c) → ∀ v, s.count v =
    ((consumersOf findings owner).filter fun c => last? findings owner c = some v).card

variable {b : ComplianceBook} {findings : List Finding} {owner consumer : String}

/-- Where all owners of a consumer agree on it, the verdict is the owner's own. -/
theorem Records.found_eq_last (h : b.Records findings)
    (hConsumer : consumer ∈ consumersOf findings owner)
    (hAgreed : Agreed findings owner consumer) :
    b.found? consumer = last? findings owner consumer := by
  obtain ⟨v, hFound⟩ := h.exists_found hConsumer
  obtain ⟨e, hForemost⟩ := h.found_iff.mp hFound
  have hOther : consumer ∈ consumersOf findings e.owner := by
    rw [mem_consumersOf, hForemost.last]
    rfl
  rw [hFound, ← agreed_iff.mp hAgreed e.owner hOther, hForemost.last]

/-- An undisturbed refresh from a book that holds the findings succeeds. -/
theorem Records.refresh (h : b.Records findings) (hListed : ∃ f ∈ findings, f.owner = owner)
    {canceled : List String → Bool} (hGoesOn : ∀ before, canceled before = false)
    {args : Arguments} (hOwner : args.getStr ComplianceSummary.ownerArg = .ok owner) :
    ∃ s, refreshOutcome b.source canceled args = .ok (some s.toJson) ∧
      b.Reports findings owner s := by
  obtain ⟨names, hNames, hNodup, hSame⟩ := h.consumers_eq hListed
  obtain ⟨verdicts, hFound⟩ : ∃ verdicts : String → Compliance,
      ∀ c ∈ names, b.found? c = some (verdicts c) := by
    refine ⟨fun c => (b.found? c).getD default, fun c hc => ?_⟩
    obtain ⟨v, hv⟩ := h.exists_found (hSame ▸ List.mem_toFinset.mpr hc)
    simp only [hv, Option.getD_some]
  have hTally : tally b.source canceled [] { owner } names =
      .ok (ComplianceSummary.addAll { owner } verdicts names) :=
    tally_eq hGoesOn (fun c hc => recompute_of_found (hFound c hc)) [] { owner }
  refine ⟨ComplianceSummary.addAll { owner } verdicts names, ?_, ?_⟩
  · have hNames' : b.source.consumers owner = .ok names := hNames
    simp only [refreshOutcome, hOwner, hNames', hTally, Except.mapError, bind, Except.bind]
    rfl
  · have hCounts : ∀ v, (ComplianceSummary.addAll { owner } verdicts names).count v =
        ((consumersOf findings owner).filter fun c => b.found? c = some v).card := by
      intro v
      have hCongr : names.countP (verdicts · = v) = names.countP (b.found? · = some v) := by
        refine List.countP_congr fun c hc => ?_
        rw [hFound c hc]
        simp
      have hStart : ({ owner } : ComplianceSummary).count v = 0 := by cases v <;> rfl
      rw [ComplianceSummary.count_addAll, hStart, Nat.zero_add, hCongr, countP_eq_card hNodup,
        hSame]
      simp only [decide_eq_true_eq]
    constructor
    case owner_eq => exact ComplianceSummary.owner_addAll names
    case consumers =>
      rw [ComplianceSummary.consumers_addAll, ← hSame, List.toFinset_card_of_nodup hNodup]
      exact Nat.zero_add _
    case balanced =>
      have hStart : ({ owner } : ComplianceSummary).Balanced := rfl
      exact hStart.addAll names
    case counts => exact hCounts
    case source =>
      intro c hc
      obtain ⟨v, hv⟩ := h.exists_found hc
      obtain ⟨e, hForemost⟩ := h.found_iff.mp hv
      exact ⟨v, e, hv, hForemost⟩
    case own =>
      intro hAgreed v
      rw [hCounts]
      congr 1
      refine Finset.filter_congr fun c hc => ?_
      rw [h.found_eq_last hc (hAgreed c hc)]

/-- A verdict is the owner's own in every order of the owners exactly if all owners of the consumer
agree on it. -/
theorem Records.found_eq_last_iff (h : b.Records findings)
    (hConsumer : consumer ∈ consumersOf findings owner) :
    (∀ b' : ComplianceBook, b'.entries.Perm b.entries →
        b'.found? consumer = last? findings owner consumer) ↔
      Agreed findings owner consumer := by
  constructor
  · intro hEvery
    refine agreed_iff.mpr fun other hOther => ?_
    obtain ⟨b', hOrder, hFound⟩ := h.exists_order hOther
    rw [← hFound, hEvery b' hOrder]
  · intro hAgreed b' hOrder
    exact (h.perm hOrder).found_eq_last hConsumer hAgreed

/-- What a refresh reports after any findings, in whatever order the owners are gone through, and on
which consumers that is sure to be the owner's own verdict. -/
theorem refresh_ofFindings (findings : List Finding)
    (hListed : ∃ f ∈ findings, f.owner = owner) :
    (∀ b : ComplianceBook, b.entries.Perm (ofFindings findings).entries →
      ∀ canceled : List String → Bool, (∀ before, canceled before = false) →
      ∀ args : Arguments, args.getStr ComplianceSummary.ownerArg = .ok owner →
        ∃ s, refreshOutcome b.source canceled args = .ok (some s.toJson) ∧
          b.Reports findings owner s) ∧
      ∀ c ∈ consumersOf findings owner,
        (∀ b : ComplianceBook, b.entries.Perm (ofFindings findings).entries →
          b.found? c = last? findings owner c) ↔ Agreed findings owner c := by
  have hRecords := records_ofFindings findings
  constructor
  · intro b hOrder canceled hGoesOn args hOwner
    exact (hRecords.perm hOrder).refresh hListed hGoesOn hOwner
  · intro c hc
    exact hRecords.found_eq_last_iff hc

/-- A consumer of two owners who agree on it, and one whose verdict was set twice. -/
def agreed : List Finding :=
  [⟨"acme", "c-1", .valid⟩, ⟨"globex", "c-1", .valid⟩, ⟨"acme", "c-2", .invalid⟩,
    ⟨"acme", "c-2", .partly⟩]

/-- A refresh counts both consumers of the owner, whoever of the two owners comes first. -/
theorem refresh_ofFindings_agreed :
    (∃ f ∈ agreed, f.owner = "acme") ∧
      ∃ s, refreshOutcome (source ⟨(ofFindings agreed).entries.reverse⟩) (fun _ => false)
          (ComplianceSummary.draft "acme").arguments = .ok (some s.toJson) ∧
        Reports ⟨(ofFindings agreed).entries.reverse⟩ agreed "acme" s ∧
        s.consumers = 2 ∧ s.valid = 1 ∧ s.partly = 1 := by
  have hListed : ∃ f ∈ agreed, f.owner = "acme" := ⟨_, List.mem_cons_self, rfl⟩
  obtain ⟨s, hOutcome, hReports⟩ := (refresh_ofFindings agreed hListed).1
    ⟨(ofFindings agreed).entries.reverse⟩ (List.reverse_perm _) (fun _ => false) (fun _ => rfl)
    (ComplianceSummary.draft "acme").arguments rfl
  have hConsumers : (consumersOf agreed "acme").card = 2 := by decide
  have hOwn := hReports.own (by decide)
  refine ⟨hListed, s, hOutcome, hReports, hReports.consumers.trans hConsumers, ?_, ?_⟩
  · exact (hOwn .valid).trans (by decide)
  · exact (hOwn .partly).trans (by decide)

/-- A consumer of two owners who do not agree on it. -/
def disputed : List Finding := [⟨"globex", "c-1", .invalid⟩, ⟨"acme", "c-1", .valid⟩]

/-- A refresh counts the other owner's verdict if that owner comes first. -/
theorem counts_verdict_of_other_owner :
    last? disputed "acme" "c-1" = some .valid ∧
      refreshOutcome (ofFindings disputed).source (fun _ => false)
          (ComplianceSummary.draft "acme").arguments =
        .ok (some (ComplianceSummary.toJson
          { owner := "acme", consumers := 1, valid := 0, partly := 0, invalid := 1 })) ∧
      refreshOutcome (source ⟨(ofFindings disputed).entries.reverse⟩) (fun _ => false)
          (ComplianceSummary.draft "acme").arguments =
        .ok (some (ComplianceSummary.toJson
          { owner := "acme", consumers := 1, valid := 1, partly := 0, invalid := 0 })) :=
  ⟨by decide, rfl, rfl⟩

end ComplianceBook

end BackgroundJobs
