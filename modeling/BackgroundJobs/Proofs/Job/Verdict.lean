import BackgroundJobs.Proofs.Job.Constraint
import Mathlib.Data.List.Perm.Subperm

/-!
# Proofs — what a verdict depends on

A request is judged against a list of active runs that may be out of date by the
time it is admitted. All that counts of those runs, for a built-in constraint, is
which job each is of and which arguments it has, and not in which order they are
listed. The fewer there are, the more requests pass, so that a run which ends
meanwhile does no harm to a verdict that let a request pass. A check of the
caller's own may do as it likes; that it goes by the same has to be asked of it.

Main results:

* `Constraint.Steady.test_eq_error` — more active runs keep out whatever fewer do,
  in the same name.
* `Constraint.Steady.verdict_congr` — what one constraint makes of the active runs.
* `JobRequest.verdict_determined`   — what a check depends on, when it passes, and
  which constraint it reports.
-/

namespace BackgroundJobs

/-- What counts of an active run when a request is judged: its job and its arguments. -/
def JobRecord.stake (r : JobRecord) : String × Arguments :=
  (r.jobKey, r.arguments)

-- ---------------------------------------------------------------------------
-- One constraint
-- ---------------------------------------------------------------------------

namespace Constraint

variable {c : Constraint} {jobKey : String} {arguments : Arguments} {active more : List JobRecord}
  {v : Violation}

/-- More active runs keep out whatever fewer do, by a built-in constraint. -/
theorem Forbids.mono (hBuiltIn : c.BuiltIn)
    (hStakes : (active.map JobRecord.stake).Subperm (more.map JobRecord.stake))
    (h : c.Forbids jobKey arguments active) : c.Forbids jobKey arguments more := by
  cases c with
  | uniqueByArguments names =>
    obtain ⟨r, hr, hKey, hAgree⟩ := h
    obtain ⟨r', hr', hStake⟩ := List.mem_map.mp (hStakes.subset (List.mem_map_of_mem hr))
    have hKeys : r'.jobKey = r.jobKey := congrArg Prod.fst hStake
    have hArguments : r'.arguments = r.arguments := congrArg Prod.snd hStake
    exact ⟨r', hr', hKeys.trans hKey, hArguments ▸ hAgree⟩
  | maxActivePerKey limit =>
    have hCount := hStakes.countP_le fun stake => stake.1 == jobKey
    rw [List.countP_map, List.countP_map] at hCount
    exact Nat.le_trans h hCount
  | custom name check => exact hBuiltIn.elim

/-- Does the constraint go by the jobs and the arguments of the active runs alone, and let the fewer
requests pass the more there are? The built-in ones do. -/
def Steady : Constraint → Prop
  | uniqueByArguments _ | maxActivePerKey _ => True
  | custom _ check => ∀ jobKey arguments active more v,
    (active.map JobRecord.stake).Subperm (more.map JobRecord.stake) →
      check jobKey arguments active = .error v →
        ∃ v', check jobKey arguments more = .error v' ∧ v'.constraint = v.constraint

theorem steady_closed (name reason : String) : (closed name reason).Steady :=
  fun _ _ _ _ v _ h => ⟨v, h, rfl⟩

/-- More active runs keep out whatever fewer do, in the same name. -/
theorem Steady.test_eq_error (hSteady : c.Steady)
    (hStakes : (active.map JobRecord.stake).Subperm (more.map JobRecord.stake))
    (h : c.test jobKey arguments active = .error v) :
    ∃ v', c.test jobKey arguments more = .error v' ∧ v'.constraint = v.constraint := by
  have hBuiltIn : c.BuiltIn → ∃ v', c.test jobKey arguments more = .error v' ∧
      v'.constraint = v.constraint := by
    intro hBuiltIn
    have hForbids : c.Forbids jobKey arguments more :=
      (exists_test_eq_error_iff.mp ⟨v, h⟩).mono hBuiltIn hStakes
    obtain ⟨v', h'⟩ := exists_test_eq_error_iff.mpr hForbids
    have hName := constraint_of_test_eq_error hBuiltIn h
    exact ⟨v', h', (constraint_of_test_eq_error hBuiltIn h').trans hName.symm⟩
  cases c with
  | uniqueByArguments names => exact hBuiltIn trivial
  | maxActivePerKey limit => exact hBuiltIn trivial
  | custom name check => exact hSteady jobKey arguments active more v hStakes h

/-- A verdict without its reason: the name of the constraint that turned the request away, if one
did. -/
def verdict (c : Constraint) (jobKey : String) (arguments : Arguments) (active : List JobRecord) :
    Except String Unit :=
  (c.test jobKey arguments active).mapError Violation.constraint

theorem Steady.verdict_congr (hSteady : c.Steady)
    (hStakes : (active.map JobRecord.stake).Perm (more.map JobRecord.stake)) :
    c.verdict jobKey arguments active = c.verdict jobKey arguments more := by
  unfold verdict
  cases h : c.test jobKey arguments active with
  | error v =>
    obtain ⟨v', h', hName⟩ := hSteady.test_eq_error hStakes.subperm h
    rw [h']
    exact congrArg Except.error hName.symm
  | ok _ =>
    cases h' : c.test jobKey arguments more with
    | error v' =>
      obtain ⟨v, hError, -⟩ := hSteady.test_eq_error hStakes.symm.subperm h'
      rw [h] at hError
      cases hError
    | ok _ => rfl

/-- A uniqueness constraint turns a request away exactly if the request has all of the named
arguments and an active run of the job has equal values for them all. -/
theorem exists_unique_eq_error_iff {names : List String} :
    (∃ v, (uniqueByArguments names).test jobKey arguments active = .error v) ↔
      (∀ name ∈ names, ∃ value, arguments.get? name = some value) ∧
        ∃ r ∈ active, r.jobKey = jobKey ∧ ∀ name ∈ names, ∀ value,
          arguments.get? name = some value →
            ∃ x, r.arguments.get? name = some x ∧ x.same value = true := by
  rw [exists_test_eq_error_iff]
  constructor
  · rintro ⟨r, hr, hKey, hAgree⟩
    refine ⟨fun name hName => ?_, r, hr, hKey, fun name hName value hValue => ?_⟩
    · obtain ⟨x, y, -, hy, -⟩ := hAgree name hName
      exact ⟨y, hy⟩
    · obtain ⟨x, y, hx, hy, hSame⟩ := hAgree name hName
      rw [hValue] at hy
      cases hy
      exact ⟨x, hx, hSame⟩
  · rintro ⟨hAll, r, hr, hKey, hEqual⟩
    refine ⟨r, hr, hKey, fun name hName => ?_⟩
    obtain ⟨value, hValue⟩ := hAll name hName
    obtain ⟨x, hx, hSame⟩ := hEqual name hName value hValue
    exact ⟨x, value, hx, hValue, hSame⟩

/-- To be unique by nothing is to be the only active run of the job. -/
theorem forbids_unique_nil_iff :
    (uniqueByArguments []).Forbids jobKey arguments active ↔
      (maxActivePerKey 1).Forbids jobKey arguments active := by
  show (∃ r ∈ active, r.jobKey = jobKey ∧ _) ↔ 0 < active.countP (·.jobKey == jobKey)
  rw [List.countP_pos_iff]
  constructor
  · rintro ⟨r, hr, hKey, -⟩
    exact ⟨r, hr, beq_iff_eq.mpr hKey⟩
  · rintro ⟨r, hr, hKey⟩
    exact ⟨r, hr, beq_iff_eq.mp hKey, fun name hName => (List.not_mem_nil hName).elim⟩

end Constraint

-- ---------------------------------------------------------------------------
-- All constraints of a request
-- ---------------------------------------------------------------------------

/-- Passes through a list that fail in the same names, element by element, end in the same name. -/
theorem mapError_forM_congr {ε ε' α : Type} {f g : α → Except ε Unit} {name : ε → ε'} {l : List α}
    (h : ∀ x ∈ l, (f x).mapError name = (g x).mapError name) :
    (l.forM f).mapError name = (l.forM g).mapError name := by
  induction l with
  | nil => rfl
  | cons first rest ih =>
    obtain ⟨hFirst, hRest⟩ := List.forall_mem_cons.mp h
    simp only [List.forM_eq_forM, List.forM_cons] at ih ⊢
    cases hf : f first with
    | error e =>
      cases hg : g first with
      | error e' =>
        rw [hf, hg] at hFirst
        exact hFirst
      | ok _ =>
        rw [hf, hg] at hFirst
        cases hFirst
    | ok _ =>
      cases hg : g first with
      | error e' =>
        rw [hf, hg] at hFirst
        cases hFirst
      | ok _ => exact ih hRest

namespace JobRequest

variable {request : JobRequest} {active more : List JobRecord}

/-- The verdict on a request without its reason. -/
def verdict (request : JobRequest) (active : List JobRecord) : Except String Unit :=
  (request.check active).mapError Violation.constraint

theorem check_eq_ok_iff : request.check active = .ok () ↔
    ∀ c ∈ request.constraints, c.test request.jobKey request.arguments active = .ok () :=
  forM_eq_ok_iff

/-- A request that passes among more active runs passes among fewer. -/
theorem check_mono (hSteady : ∀ c ∈ request.constraints, c.Steady)
    (hStakes : (active.map JobRecord.stake).Subperm (more.map JobRecord.stake))
    (h : request.check more = .ok ()) : request.check active = .ok () := by
  refine check_eq_ok_iff.mpr fun c hc => ?_
  cases hTest : c.test request.jobKey request.arguments active with
  | ok _ => rfl
  | error v =>
    obtain ⟨v', hError, -⟩ := (hSteady c hc).test_eq_error hStakes hTest
    rw [check_eq_ok_iff.mp h c hc] at hError
    cases hError

theorem verdict_congr (hSteady : ∀ c ∈ request.constraints, c.Steady)
    (hStakes : (active.map JobRecord.stake).Perm (more.map JobRecord.stake)) :
    request.verdict active = request.verdict more :=
  mapError_forM_congr fun c hc => (hSteady c hc).verdict_congr hStakes

/-- What a verdict depends on. With built-in constraints, and with others that are as steady, a
request that passes among some active runs passes among any part of them, and neither the order of
the runs matters nor anything about them but their jobs and their arguments. With any constraints, a
check passes exactly if each of them is met by itself, and otherwise reports the first one that is
not. A uniqueness constraint is not met exactly if the request has all of the named
arguments and a run of the job has equal values for them all; without any names it allows one active
run of the job, as a quota of one does. -/
theorem verdict_determined (request : JobRequest) :
    let test (c : Constraint) := c.test request.jobKey request.arguments
    let verdict (c : Constraint) := c.verdict request.jobKey request.arguments
    ((∀ c ∈ request.constraints, c.Steady) → ∀ active more, active.Subperm more →
        request.check more = .ok () → request.check active = .ok ()) ∧
      (∀ active other, (active.map JobRecord.stake).Perm (other.map JobRecord.stake) →
        ((∀ c ∈ request.constraints, c.Steady) →
          request.verdict active = request.verdict other) ∧
            ∀ c : Constraint, c.Steady → verdict c active = verdict c other) ∧
      (∀ active, request.check active = .ok () ↔
        ∀ c ∈ request.constraints, test c active = .ok ()) ∧
      (∀ active v, request.check active = .error v ↔
        ∃ before c after, request.constraints = before ++ c :: after ∧
          (∀ b ∈ before, test b active = .ok ()) ∧ test c active = .error v) ∧
      (∀ active names, (∃ v, test (.uniqueByArguments names) active = .error v) ↔
        (∀ name ∈ names, ∃ value, request.arguments.get? name = some value) ∧
          ∃ r ∈ active, r.jobKey = request.jobKey ∧ ∀ name ∈ names, ∀ value,
            request.arguments.get? name = some value →
              ∃ x, r.arguments.get? name = some x ∧ x.same value = true) ∧
      (∀ active limit, (∃ v, test (.maxActivePerKey limit) active = .error v) ↔
        limit ≤ active.countP (·.jobKey == request.jobKey)) ∧
      ∀ active, test (.uniqueByArguments []) active = .ok () ↔
        test (.maxActivePerKey 1) active = .ok () := by
  intro test verdict
  refine ⟨fun hSteady active more hPart => check_mono hSteady ?_, fun active other hStakes =>
    ⟨fun hSteady => verdict_congr hSteady hStakes, fun c hSteady =>
      hSteady.verdict_congr hStakes⟩, fun active =>
    check_eq_ok_iff, fun active v => forM_eq_error_iff, fun active names =>
    Constraint.exists_unique_eq_error_iff, fun active limit =>
    Constraint.exists_test_eq_error_iff, fun active => ?_⟩
  · obtain ⟨part, hPerm, hSublist⟩ := hPart
    exact ⟨part.map _, hPerm.map _, hSublist.map _⟩
  · rw [Constraint.test_eq_ok_iff, Constraint.test_eq_ok_iff, Constraint.forbids_unique_nil_iff]

/-- A request for a refresh of what an owner has, of which three may be active. -/
def refreshFor (owner : String) : JobRequest where
  jobKey := "refresh"
  name := "refresh for " ++ owner
  group := none
  arguments := Dict.empty.insert "owner_key" (.str owner)
  metadata := Dict.empty
  constraints := [.maxActivePerKey 3, .uniqueByArguments ["owner_key"]]
  retryPolicy := none
  trigger := .immediate

theorem verdict_determined_refresh :
    let record (n : Nat) (owner : String) : JobRecord :=
      (refreshFor owner).toRecord ⟨⟨BitVec.ofNat 128 n⟩⟩ "default" default none ⟨n, 0⟩
    let first := record 1 "first"
    let second := record 2 "second"
    let running := { second with state := .running, attempts := 1, startedAt := some ⟨3, 0⟩ }
    (refreshFor "third").check [first, running] = .ok () ∧
      (refreshFor "third").check [running] = .ok () ∧
      (refreshFor "second").verdict [first, second] =
        (refreshFor "second").verdict [running, first] ∧
      (∃ v, (refreshFor "second").check [first, running] = .error v) := by
  intro record first second running
  have hPass : (refreshFor "third").check [first, running] = .ok () := rfl
  obtain ⟨hPart, -, -, -⟩ := verdict_determined (refreshFor "third")
  obtain ⟨-, hStakes, -, -⟩ := verdict_determined (refreshFor "second")
  have hSteady : ∀ owner, ∀ c ∈ (refreshFor owner).constraints, c.Steady := by
    simp [refreshFor, Constraint.Steady]
  refine ⟨hPass, hPart (hSteady _) _ _ (List.sublist_cons_self first [running]).subperm hPass,
    (hStakes _ _ ?_).1 (hSteady _), _, rfl⟩
  exact List.Perm.swap running.stake first.stake []

end JobRequest

end BackgroundJobs
