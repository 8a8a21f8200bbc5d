import BackgroundJobs.Job.Request
import BackgroundJobs.Proofs.Argument.Same

/-!
# Proofs — what the constraints ask for

Each constraint is met or not by the active runs as they are, whatever the other
constraints of the request say, and a check is a pass through all of them that
ends at the first one that is not met.

Main results:

* `forM_eq_ok_iff`, `forM_eq_error_iff` — when a pass through a list finds no
  fault, and which one it reports.
* `Constraint.test_spec`                — when a constraint turns a request away,
  and in whose name, if it is a built-in one.
* `Constraint.not_agree_of_test_ok`     — what passing a uniqueness constraint means.
-/

namespace BackgroundJobs

-- ---------------------------------------------------------------------------
-- Passes through a list
-- ---------------------------------------------------------------------------

section Pass

variable {ε α : Type} {f : α → Except ε Unit} {l : List α}

/-- A pass through a list finds no fault exactly if it finds none with any element. -/
theorem forM_eq_ok_iff : l.forM f = .ok () ↔ ∀ x ∈ l, f x = .ok () := by
  induction l with
  | nil => exact iff_of_true rfl fun x hx => (List.not_mem_nil hx).elim
  | cons first rest ih =>
    rw [List.forM_eq_forM, List.forM_cons, List.forall_mem_cons, ← ih]
    cases f first with
    | error e => exact iff_of_false nofun fun h => nomatch h.1
    | ok _ => exact (and_iff_right rfl).symm

/-- A pass through a list reports the fault of the first element that has one. -/
theorem forM_eq_error_iff {e : ε} : l.forM f = .error e ↔
    ∃ before x after, l = before ++ x :: after ∧ (∀ y ∈ before, f y = .ok ()) ∧
      f x = .error e := by
  induction l with
  | nil =>
    refine iff_of_false nofun ?_
    rintro ⟨before, x, after, hSplit, -⟩
    cases before <;> cases hSplit
  | cons first rest ih =>
    rw [List.forM_eq_forM, List.forM_cons]
    cases hFirst : f first with
    | error e' =>
      constructor
      · intro h
        cases h
        exact ⟨[], first, rest, rfl, fun y hy => (List.not_mem_nil hy).elim, hFirst⟩
      · rintro ⟨before, x, after, hSplit, hBefore, hx⟩
        cases before with
        | nil =>
          cases hSplit
          rw [hFirst] at hx
          exact hx
        | cons y before =>
          cases hSplit
          rw [hBefore first List.mem_cons_self] at hFirst
          cases hFirst
    | ok _ =>
      refine ih.trans ⟨?_, ?_⟩
      · rintro ⟨before, x, after, rfl, hBefore, hx⟩
        exact ⟨first :: before, x, after, rfl, List.forall_mem_cons.mpr ⟨hFirst, hBefore⟩, hx⟩
      · rintro ⟨before, x, after, hSplit, hBefore, hx⟩
        cases before with
        | nil =>
          cases hSplit
          rw [hFirst] at hx
          cases hx
        | cons y before =>
          cases hSplit
          exact ⟨before, x, after, rfl, (List.forall_mem_cons.mp hBefore).2, hx⟩

end Pass

-- ---------------------------------------------------------------------------
-- Arguments that agree
-- ---------------------------------------------------------------------------

namespace Arguments

/-- Do both bags of arguments have all the named ones, with equal values? -/
def Agree (names : List String) (a b : Arguments) : Prop :=
  ∀ name ∈ names, ∃ x y, a.get? name = some x ∧ b.get? name = some y ∧ x.same y = true

theorem Agree.symm {names : List String} {a b : Arguments} (h : Agree names a b) :
    Agree names b a := by
  intro name hName
  obtain ⟨x, y, hx, hy, hSame⟩ := h name hName
  exact ⟨y, x, hy, hx, Argument.same_comm y x ▸ hSame⟩

end Arguments

-- ---------------------------------------------------------------------------
-- One constraint
-- ---------------------------------------------------------------------------

namespace Constraint

variable {c : Constraint} {names : List String} {jobKey : String} {arguments : Arguments}
  {active : List JobRecord} {r : JobRecord}

theorem wanted?_cons (first : String) (rest : List String) (arguments : Arguments) :
    wanted? (first :: rest) arguments =
      (arguments.get? first).bind fun value =>
        (wanted? rest arguments).map fun wanted => (first, value) :: wanted := by
  unfold wanted?
  rw [List.mapM_cons]
  cases arguments.get? first with
  | none => rfl
  | some value => cases rest.mapM fun name => (arguments.get? name).map (Prod.mk name) <;> rfl

/-- Nothing is wanted only of a request that lacks one of the named arguments. -/
theorem wanted?_eq_none_iff :
    wanted? names arguments = none ↔ ∃ name ∈ names, arguments.get? name = none := by
  induction names with
  | nil => exact iff_of_false nofun fun ⟨name, hName, _⟩ => List.not_mem_nil hName
  | cons first rest ih =>
    rw [wanted?_cons]
    cases hFirst : arguments.get? first with
    | none => exact iff_of_true rfl ⟨first, List.mem_cons_self, hFirst⟩
    | some value =>
      rw [Option.bind_some, Option.map_eq_none_iff, ih]
      constructor
      · rintro ⟨name, hName, hNone⟩
        exact ⟨name, List.mem_cons_of_mem first hName, hNone⟩
      · rintro ⟨name, hName, hNone⟩
        rcases List.mem_cons.mp hName with rfl | hLater
        · rw [hFirst] at hNone
          cases hNone
        · exact ⟨name, hLater, hNone⟩

/-- A record carries what is wanted of a request if it agrees with the request. -/
theorem carries_iff_agree {wanted : List (String × Argument)}
    (h : wanted? names arguments = some wanted) :
    carries wanted r = true ↔ r.arguments.Agree names arguments := by
  induction names generalizing wanted with
  | nil =>
    cases h
    exact iff_of_true rfl fun name hName => (List.not_mem_nil hName).elim
  | cons first rest ih =>
    rw [wanted?_cons] at h
    obtain ⟨value, hValue, h⟩ := Option.bind_eq_some_iff.mp h
    obtain ⟨more, hMore, rfl⟩ := Option.map_eq_some_iff.mp h
    have hRest : carries more r = true ↔ r.arguments.Agree rest arguments := ih hMore
    have hHead : (r.arguments.get? first).any (·.same value) = true ↔
        ∃ x y, r.arguments.get? first = some x ∧ arguments.get? first = some y ∧
          x.same y = true := by
      rw [Option.any_eq_true, hValue]
      constructor
      · rintro ⟨x, hx, hSame⟩
        exact ⟨x, value, hx, rfl, hSame⟩
      · rintro ⟨x, _, hx, hy, hSame⟩
        cases hy
        exact ⟨x, hx, hSame⟩
    rw [Arguments.Agree, List.forall_mem_cons, ← hHead, ← Arguments.Agree, ← hRest]
    exact Bool.and_eq_true_iff

/-- Do the active runs keep a request for the job out, by this constraint? -/
def Forbids (c : Constraint) (jobKey : String) (arguments : Arguments) (active : List JobRecord) :
    Prop :=
  match c with
  | uniqueByArguments names =>
    ∃ r ∈ active, r.jobKey = jobKey ∧ r.arguments.Agree names arguments
  | maxActivePerKey limit => limit ≤ active.countP (·.jobKey == jobKey)
  | custom _ check => ∃ v, check jobKey arguments active = .error v

/-- A constraint turns a request away exactly if the active runs keep it out, and a built-in one
does so in its own name. -/
theorem test_spec (c : Constraint) (jobKey : String) (arguments : Arguments)
    (active : List JobRecord) :
    (c.test jobKey arguments active = .ok () ∧ ¬ c.Forbids jobKey arguments active) ∨
      ∃ v, c.test jobKey arguments active = .error v ∧ c.Forbids jobKey arguments active ∧
        (c.BuiltIn → v.constraint = c.name) := by
  cases c with
  | uniqueByArguments names =>
    cases hWanted : wanted? names arguments with
    | none =>
      refine .inl ⟨by simp only [test, hWanted], ?_⟩
      rintro ⟨r, -, -, hAgree⟩
      obtain ⟨name, hName, hNone⟩ := wanted?_eq_none_iff.mp hWanted
      obtain ⟨x, y, -, hy, -⟩ := hAgree name hName
      rw [hNone] at hy
      cases hy
    | some wanted =>
      cases hFind : active.find? fun r => r.jobKey == jobKey && carries wanted r with
      | none =>
        refine .inl ⟨by simp only [test, hWanted, hFind], ?_⟩
        rintro ⟨r, hr, hKey, hAgree⟩
        have hNot := List.find?_eq_none.mp hFind r hr
        simp [hKey, (carries_iff_agree hWanted).mpr hAgree] at hNot
      | some r =>
        have hKeeps := List.find?_some hFind
        obtain ⟨hKey, hCarries⟩ := Bool.and_eq_true_iff.mp hKeeps
        refine .inr ⟨_, by simp only [test, hWanted, hFind]; rfl, ⟨r, ?_⟩, fun _ => rfl⟩
        exact ⟨List.mem_of_find?_eq_some hFind, eq_of_beq hKey,
          (carries_iff_agree hWanted).mp hCarries⟩
  | maxActivePerKey limit =>
    simp only [test, Forbids, ← List.countP_eq_length_filter]
    split
    · next hRoom => exact .inl ⟨rfl, Nat.not_le.mpr hRoom⟩
    · next hFull => exact .inr ⟨_, rfl, Nat.not_lt.mp hFull, fun _ => rfl⟩
  | custom name check =>
    cases hCheck : check jobKey arguments active with
    | ok _ =>
      refine .inl ⟨hCheck, ?_⟩
      rintro ⟨v, hError⟩
      cases hCheck.symm.trans hError
    | error v => exact .inr ⟨v, hCheck, ⟨v, hCheck⟩, False.elim⟩

theorem test_eq_ok_iff : c.test jobKey arguments active = .ok () ↔
    ¬ c.Forbids jobKey arguments active := by
  rcases c.test_spec jobKey arguments active with ⟨hOk, hFree⟩ | ⟨v, hError, hForbids, -⟩
  · exact iff_of_true hOk hFree
  · rw [hError]
    exact iff_of_false nofun (not_not_intro hForbids)

theorem exists_test_eq_error_iff : (∃ v, c.test jobKey arguments active = .error v) ↔
    c.Forbids jobKey arguments active := by
  rcases c.test_spec jobKey arguments active with ⟨hOk, hFree⟩ | ⟨v, hError, hForbids, -⟩
  · rw [hOk]
    exact iff_of_false nofun hFree
  · exact iff_of_true ⟨v, hError⟩ hForbids

theorem constraint_of_test_eq_error {v : Violation} (hBuiltIn : c.BuiltIn)
    (h : c.test jobKey arguments active = .error v) : v.constraint = c.name := by
  rcases c.test_spec jobKey arguments active with ⟨hOk, -⟩ | ⟨v', hError, -, hName⟩
  · cases hOk.symm.trans h
  · cases hError.symm.trans h
    exact hName hBuiltIn

/-- A uniqueness constraint lets a request pass only if no active run of the job agrees with it on
all of the named arguments. -/
theorem not_agree_of_test_ok
    (h : (uniqueByArguments names).test jobKey arguments active = .ok ())
    (hr : r ∈ active) (hKey : r.jobKey = jobKey) : ¬ r.arguments.Agree names arguments :=
  fun hAgree => test_eq_ok_iff.mp h ⟨r, hr, hKey, hAgree⟩

end Constraint

-- ---------------------------------------------------------------------------
-- All constraints of a request
-- ---------------------------------------------------------------------------

/-- A check that passes tested every constraint. -/
theorem JobRequest.test_of_check {request : JobRequest} {active : List JobRecord}
    (h : request.check active = .ok ()) {c : Constraint} (hc : c ∈ request.constraints) :
    c.test request.jobKey request.arguments active = .ok () :=
  forM_eq_ok_iff.mp h c hc

end BackgroundJobs
