import BackgroundJobs.Realm.System

/-!
# Proofs — what threads become

A thread never changes its role: a worker stays a worker, and only the opening
of a realm brings new ones. An admission goes on within the call or the firing
that began it, and begins by waiting for its lock.

Main results:

* `Thread.worker_of_step`, `Thread.crew_of_step` — where workers come from.
* `Thread.admission_step`, `Thread.admission_of_step` — where admissions come from.
-/

namespace BackgroundJobs

variable {δ : Type} {cue : Cue} {r r' : Realm δ}

-- ---------------------------------------------------------------------------
-- Calls
-- ---------------------------------------------------------------------------

namespace CallPoint

variable {σ ρ : Type} {toPoint : σ → CallPoint} {answer : ρ → Answer} {x : Realm δ × Progress σ ρ}

/-- A call makes of the realm what the procedure does that it follows. -/
theorem lift_eq {p : Progress CallPoint Answer} (h : lift toPoint answer x = (r', p)) :
    ∃ q, x = (r', q) := by
  obtain ⟨r₁, progress⟩ := x
  cases progress <;> cases h <;> exact ⟨_, rfl⟩

theorem lift_eq_at {point : CallPoint} (h : lift toPoint answer x = (r', .at point)) :
    ∃ q, x = (r', .at q) ∧ point = toPoint q := by
  obtain ⟨r₁, progress⟩ := x
  cases progress with
  | «at» q =>
    cases h
    exact ⟨q, rfl, rfl⟩
  | done result => cases h

theorem lift_eq_done {a : Answer} (h : lift toPoint answer x = (r', .done a)) :
    ∃ result, x = (r', .done result) ∧ a = answer result := by
  obtain ⟨r₁, progress⟩ := x
  cases progress with
  | «at» q => cases h
  | done result =>
    cases h
    exact ⟨result, rfl, rfl⟩

end CallPoint

/-- The calls that go through several steps, and the points at which they begin. -/
inductive Call.Opens : Call → CallPoint → Prop
  | submit (request : JobRequest) (a : Admission) : Opens (.submit request) (.admitting a .waiting)
  | start : Opens .start (.starting .waiting)
  | shutdown : Opens .shutdown (.stopping .waiting)
  | cancel (id : JobId) : Opens (.cancel id) (.canceling (.looking id))
  | schedule (request : JobRequest) : Opens (.schedule request) (.scheduling (.opening request))
  | declare (entries : List RecurringSettings) :
    Opens (.declare entries) (.declaring (.next entries []))

/-- A call that is not over with its first step has done nothing yet. -/
theorem Call.opens_of_begin {call : Call} {point : CallPoint}
    (h : call.begin cue r = some (r', .at point)) : r' = r ∧ call.Opens point := by
  cases call with
  | submit request =>
    simp only [begin] at h
    split at h
    · cases h
    · split at h
      · cases h
      · split at h
        · cases h
        · next a hMake =>
          cases h
          exact ⟨rfl, .submit request a⟩
  | start =>
    cases h
    exact ⟨rfl, .start⟩
  | shutdown =>
    cases h
    exact ⟨rfl, .shutdown⟩
  | cancel id =>
    cases h
    exact ⟨rfl, .cancel id⟩
  | schedule request =>
    cases h
    exact ⟨rfl, .schedule request⟩
  | declare entries =>
    cases h
    exact ⟨rfl, .declare entries⟩
  | reschedule id times | unschedule id =>
    simp only [begin, onTrigger] at h
    split at h
    · cases h
    · split at h <;> cases h
  | triggers =>
    simp only [begin] at h
    split at h <;> cases h
  | purge =>
    simp only [begin] at h
    split at h <;> cases h
  | pause | unpause | status _ | list _ | listGroup _ | delete _ | stats => cases h

-- ---------------------------------------------------------------------------
-- Workers
-- ---------------------------------------------------------------------------

namespace Thread

variable {th th' : Thread δ} {crew : List (Thread δ)}

theorem step_worker {w : Worker δ} (h : step cue r (.worker w) = some (r', th', crew)) :
    ∃ w', w.step cue r = some (r', w') ∧ th' = .worker w' ∧ crew = [] := by
  obtain ⟨⟨r₁, w'⟩, hStep, hEq⟩ := Option.map_eq_some_iff.mp h
  cases hEq
  exact ⟨w', hStep, rfl, rfl⟩

theorem step_timer {t : Timer} (h : step cue r (.timer t) = some (r', th', crew)) :
    ∃ t', t.step cue r = some (r', t') ∧ th' = .timer t' ∧ crew = [] := by
  obtain ⟨⟨r₁, t'⟩, hStep, hEq⟩ := Option.map_eq_some_iff.mp h
  cases hEq
  exact ⟨t', hStep, rfl, rfl⟩

/-- A caller goes on to another point, or is answered; only the last step of a start brings other
threads. -/
theorem step_caller {point : CallPoint} (h : step cue r (.caller point) = some (r', th', crew)) :
    (∃ next, point.step cue r = some (r', .at next) ∧ th' = .caller next ∧ crew = []) ∨
      ∃ answer, point.step cue r = some (r', .done answer) ∧ th' = .answered answer ∧
        (crew = [] ∨ point = .starting .opening) ∧
        ∀ x ∈ crew, x = .worker .idle ∨ x = .timer .resting := by
  obtain ⟨⟨r₁, progress⟩, hStep, hEq⟩ := Option.map_eq_some_iff.mp h
  cases progress with
  | «at» next =>
    cases hEq
    exact .inl ⟨next, hStep, rfl, rfl⟩
  | done answer =>
    cases hEq
    refine .inr ⟨answer, hStep, rfl, ?_, ?_⟩
    · split
      · exact .inr rfl
      · exact .inl rfl
    · intro x hx
      split at hx
      · rcases List.mem_append.mp hx with hWorker | hTimer
        · exact .inl (List.eq_of_mem_replicate hWorker)
        · exact .inr (List.mem_singleton.mp hTimer)
      · cases hx

/-- A caller that follows a procedure goes on with it, or is answered when it ends. -/
theorem step_lifted {σ ρ : Type} {toPoint : σ → CallPoint} {answer : ρ → Answer} {point : CallPoint}
    {x : Option (Realm δ × Progress σ ρ)}
    (hLift : point.step cue r = x.map (CallPoint.lift toPoint answer))
    (h : step cue r (.caller point) = some (r', th', crew)) :
    (∃ next, x = some (r', .at next) ∧ th' = .caller (toPoint next) ∧ crew = []) ∨
      ∃ result, x = some (r', .done result) ∧ th' = .answered (answer result) ∧
        (crew = [] ∨ point = .starting .opening) := by
  rcases step_caller h with ⟨next, hStep, rfl, rfl⟩ | ⟨a, hStep, rfl, hCrew, -⟩
  · rw [hLift] at hStep
    obtain ⟨y, rfl, hEq⟩ := Option.map_eq_some_iff.mp hStep
    obtain ⟨q, rfl, rfl⟩ := CallPoint.lift_eq_at hEq
    exact .inl ⟨q, rfl, rfl, rfl⟩
  · rw [hLift] at hStep
    obtain ⟨y, rfl, hEq⟩ := Option.map_eq_some_iff.mp hStep
    obtain ⟨result, rfl, rfl⟩ := CallPoint.lift_eq_done hEq
    exact .inr ⟨result, rfl, rfl, hCrew⟩

theorem crew_of_step (h : th.step cue r = some (r', th', crew)) :
    ∀ x ∈ crew, x = .worker .idle ∨ x = .timer .resting := by
  cases th with
  | caller point =>
    rcases step_caller h with ⟨next, -, -, rfl⟩ | ⟨answer, -, -, -, hCrew⟩
    · intro x hx
      cases hx
    · exact hCrew
  | worker w =>
    obtain ⟨w', -, -, rfl⟩ := step_worker h
    intro x hx
    cases hx
  | timer t =>
    obtain ⟨t', -, -, rfl⟩ := step_timer h
    intro x hx
    cases hx
  | answered answer => cases h

theorem worker_of_step {w' : Worker δ} (h : th.step cue r = some (r', .worker w', crew)) :
    ∃ w, th = .worker w ∧ w.step cue r = some (r', w') ∧ crew = [] := by
  cases th with
  | caller point =>
    rcases step_caller h with ⟨next, -, hEq, -⟩ | ⟨answer, -, hEq, -⟩ <;> cases hEq
  | worker w =>
    obtain ⟨w₁, hStep, hEq, hCrew⟩ := step_worker h
    cases hEq
    exact ⟨w, rfl, hStep, hCrew⟩
  | timer t =>
    obtain ⟨t', -, hEq, -⟩ := step_timer h
    cases hEq
  | answered answer => cases h

-- ---------------------------------------------------------------------------
-- Admissions
-- ---------------------------------------------------------------------------

/-- The admission that a thread is busy with, for a caller or for a trigger that fires. -/
def admission? : Thread δ → Option (Admission × AdmissionPoint)
  | .caller (.admitting a point) => some (a, point)
  | .timer (.firing _ _ _ a point) => some (a, point)
  | _ => none

theorem admission_step {a : Admission} {point : AdmissionPoint}
    (hAt : th.admission? = some (a, point)) (h : th.step cue r = some (r', th', crew)) :
    crew = [] ∧
      ((∃ next, a.step cue r point = some (r', .at next) ∧ th'.admission? = some (a, next)) ∨
        ∃ result, a.step cue r point = some (r', .done result) ∧ th'.admission? = none) := by
  cases th with
  | caller callPoint =>
    cases callPoint with
    | admitting a₁ point₁ =>
      cases hAt
      rcases step_lifted rfl h with ⟨next, hStep, rfl, rfl⟩ | ⟨result, hStep, rfl, hCrew⟩
      · exact ⟨rfl, .inl ⟨next, hStep, rfl⟩⟩
      · exact ⟨hCrew.resolve_right (by rintro ⟨⟩), .inr ⟨result, hStep, rfl⟩⟩
    | made | starting | stopping | canceling | scheduling | declaring => cases hAt
  | timer t =>
    cases t with
    | firing now id rest a₁ point₁ =>
      cases hAt
      obtain ⟨t', hStep, rfl, rfl⟩ := step_timer h
      obtain ⟨⟨r₁, progress⟩, hAdmission, hEq⟩ := Option.map_eq_some_iff.mp hStep
      refine ⟨rfl, ?_⟩
      split at hEq
      · next hPair =>
        cases hPair
        cases hEq
        exact .inl ⟨_, hAdmission, rfl⟩
      · next hPair =>
        cases hPair
        cases hEq
        exact .inr ⟨_, hAdmission, rfl⟩
      · next hPair =>
        cases hPair
        cases hEq
        exact .inr ⟨_, hAdmission, rfl⟩
    | resting | waiting | passing | checking | noting | retired => cases hAt
  | worker w => cases hAt
  | answered answer => cases hAt

/-- An admission that begins was made of a request, for a caller or for a trigger that fires. -/
theorem admission_made (hAt : th.admission? = none) (h : th.step cue r = some (r', th', crew)) :
    th'.admission? = none ∨
      (∃ request a, Admission.make r request none = .ok a ∧
        th' = .caller (.admitting a .waiting)) ∨
      ∃ now id rest request a, Admission.make r request (some id) = .ok a ∧
        th' = .timer (.firing now id rest a .waiting) := by
  cases th with
  | caller callPoint =>
    rcases step_caller h with ⟨next, hStep, rfl, -⟩ | ⟨answer, -, rfl, -⟩
    · cases callPoint with
      | made call =>
        obtain ⟨-, hOpens⟩ := Call.opens_of_begin hStep
        cases hOpens with
        | submit request a =>
          simp only [CallPoint.step, Call.begin] at hStep
          split at hStep
          · cases hStep
          · split at hStep
            · cases hStep
            · split at hStep
              · cases hStep
              · next hMake =>
                cases hStep
                exact .inr (.inl ⟨request, a, hMake, rfl⟩)
        | start | shutdown | cancel | schedule | declare => exact .inl rfl
      | admitting a point => cases hAt
      | canceling point =>
        obtain ⟨q, -, rfl⟩ := CallPoint.lift_eq_at (Option.some.inj hStep)
        exact .inl rfl
      | starting | stopping | scheduling | declaring =>
        obtain ⟨x, -, hLift⟩ := Option.map_eq_some_iff.mp hStep
        obtain ⟨q, -, rfl⟩ := CallPoint.lift_eq_at hLift
        exact .inl rfl
    · exact .inl rfl
  | timer t =>
    obtain ⟨t', hStep, rfl, -⟩ := step_timer h
    have hFire : ∀ {now id rest e t'}, Timer.fire cue r now id rest e = t' →
        (timer t' : Thread δ).admission? = none ∨
          (∃ request a, Admission.make r request none = .ok a ∧
            (timer t' : Thread δ) = .caller (.admitting a .waiting)) ∨
          ∃ now id rest request a, Admission.make r request (some id) = .ok a ∧
            (timer t' : Thread δ) = .timer (.firing now id rest a .waiting) := by
      intro now id rest e t' hEq
      unfold Timer.fire at hEq
      split at hEq
      · next a hMake =>
        subst hEq
        exact .inr (.inr ⟨now, id, rest, _, a, hMake, rfl⟩)
      · subst hEq
        exact .inl rfl
    cases t with
    | firing now id rest a point => cases hAt
    | resting =>
      cases hStep
      split <;> exact .inl rfl
    | waiting now =>
      simp only [Timer.step] at hStep
      split at hStep <;> cases hStep
      exact .inl rfl
    | passing now rest =>
      cases rest with
      | nil =>
        cases hStep
        exact .inl rfl
      | cons id rest =>
        simp only [Timer.step] at hStep
        split at hStep
        · cases hStep
          exact .inl rfl
        · split at hStep
          · split at hStep <;> cases hStep
            · exact .inl rfl
            · exact hFire rfl
          · cases hStep
            exact .inl rfl
    | checking now id last rest =>
      simp only [Timer.step] at hStep
      split at hStep <;> cases hStep
      · exact hFire rfl
      · exact .inl rfl
    | noting now id rest made =>
      cases made <;> cases hStep <;> exact .inl rfl
    | retired => cases hStep
  | worker w =>
    obtain ⟨w', -, rfl, -⟩ := step_worker h
    exact .inl rfl
  | answered answer => cases h

/-- An admission begins by waiting for its lock. -/
theorem admission_begins (hAt : th.admission? = none) (h : th.step cue r = some (r', th', crew)) :
    th'.admission? = none ∨ ∃ a, th'.admission? = some (a, .waiting) := by
  rcases admission_made hAt h with hNone | ⟨_, a, -, rfl⟩ | ⟨_, _, _, _, a, -, rfl⟩
  · exact .inl hNone
  · exact .inr ⟨a, rfl⟩
  · exact .inr ⟨a, rfl⟩

/-- An admission that is under way after a step began with it, or went on with it. -/
theorem admission_of_step {a : Admission} {point : AdmissionPoint}
    (h : th.step cue r = some (r', th', crew)) (hAfter : th'.admission? = some (a, point)) :
    (point = .waiting ∧
      ((∃ request, Admission.make r request none = .ok a ∧
          th' = .caller (.admitting a .waiting)) ∨
        ∃ now id rest request, Admission.make r request (some id) = .ok a ∧
          th' = .timer (.firing now id rest a .waiting))) ∨
      ∃ before, th.admission? = some (a, before) ∧
        a.step cue r before = some (r', .at point) := by
  cases hBefore : th.admission? with
  | none =>
    rcases admission_made hBefore h with
      hNone | ⟨request, _, hMake, rfl⟩ | ⟨now, id, rest, request, _, hMake, rfl⟩
    · rw [hAfter] at hNone
      cases hNone
    · cases hAfter
      exact .inl ⟨rfl, .inl ⟨request, hMake, rfl⟩⟩
    · cases hAfter
      exact .inl ⟨rfl, .inr ⟨now, id, rest, request, hMake, rfl⟩⟩
  | some busy =>
    obtain ⟨-, ⟨next, hStep, hNext⟩ | ⟨_, -, hNone⟩⟩ := admission_step hBefore h
    · rw [hAfter] at hNext
      cases hNext
      exact .inr ⟨busy.2, rfl, hStep⟩
    · rw [hAfter] at hNone
      cases hNone

end Thread

end BackgroundJobs
