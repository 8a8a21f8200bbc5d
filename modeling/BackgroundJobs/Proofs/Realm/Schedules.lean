import BackgroundJobs.Proofs.Realm.Dues
import BackgroundJobs.Proofs.Schedule.Next

/-!
# Proofs — the schedules of triggers

A trigger keeps the schedule with which it was registered, or on which it was put
later. Either was asked for by a call: it was handed over as a schedule, which is
as sound as the caller made it, or named by settings, and then it was read, and
is sound.

Main results:

* `Thread.schedules_step`    — a thread takes up no schedules on its way.
* `scheduled_of_run`         — a trigger is on a schedule that a call asked for.
* `soundly_scheduled_of_run` — if callers hand over none but checked schedules,
  every trigger is on a sound one.
-/

namespace BackgroundJobs

variable {δ : Type} {cue : Cue} {r r' : Realm δ} {th th' : Thread δ} {crew : List (Thread δ)}
  {t : TriggerId} {entry : TriggerEntry}

-- ---------------------------------------------------------------------------
-- Schedules on their way into the table
-- ---------------------------------------------------------------------------

def JobRequest.schedules (request : JobRequest) : List Schedule :=
  match request.trigger with
  | .recurring schedule => [schedule]
  | .immediate => []

/-- The schedule that the settings name, if it can be read. -/
def RecurringSettings.schedules (s : RecurringSettings) : List Schedule :=
  s.parsedSchedule.toOption.toList

/-- The schedules that a call asks for. -/
def Call.schedules : Call → List Schedule
  | Call.schedule request => request.schedules
  | Call.reschedule _ times => [times]
  | .declare entries => entries.flatMap (·.schedules)
  | _ => []

/-- The schedules that a call hands over as such. Settings name theirs by a text. -/
def Call.handed : Call → List Schedule
  | Call.schedule request => request.schedules
  | Call.reschedule _ times => [times]
  | _ => []

def Registration.schedules : Registration → List Schedule
  | .opening request => request.schedules
  | .inserting _ entry => [entry.schedule]

def Declaration.schedules : Declaration → List Schedule
  | .next rest _ => rest.flatMap (·.schedules)
  | .registering point rest _ => point.schedules ++ rest.flatMap (·.schedules)

/-- The schedules on which a thread may still put triggers. -/
def Thread.schedules : Thread δ → List Schedule
  | .caller (.made call) => call.schedules
  | .caller (.scheduling point) => point.schedules
  | .caller (.declaring point) => point.schedules
  | _ => []

def Event.schedules : Event → List Schedule
  | Event.call asked => asked.schedules
  | _ => []

def Event.handed : Event → List Schedule
  | Event.call asked => asked.handed
  | _ => []

theorem RecurringSettings.schedules_of_toRequest {s : RecurringSettings} {request : JobRequest}
    (h : s.toRequest = .ok request) : request.schedules = s.schedules := by
  unfold toRequest at h
  split at h
  · cases h
  · next schedule hParsed =>
    cases h
    rw [schedules, hParsed]
    rfl

/-- A schedule that the settings name is sound. -/
theorem RecurringSettings.sound_of_mem_schedules {s : RecurringSettings} {schedule : Schedule}
    (h : schedule ∈ s.schedules) : schedule.Sound := by
  cases hParsed : s.parsedSchedule with
  | error e =>
    rw [schedules, hParsed] at h
    cases h
  | ok parsed =>
    rw [schedules, hParsed] at h
    rw [List.mem_singleton.mp h]
    exact Schedule.sound_of_parse hParsed

/-- What a call asks for is sound if what it hands over is. -/
theorem Event.sound_of_mem_schedules {e : Event} {schedule : Schedule}
    (hHanded : ∀ schedule ∈ e.handed, schedule.Sound) (h : schedule ∈ e.schedules) :
    schedule.Sound := by
  cases e with
  | call call =>
    cases call with
    | schedule | reschedule => exact hHanded schedule h
    | declare entries =>
      obtain ⟨entry, -, hMem⟩ := List.mem_flatMap.mp h
      exact RecurringSettings.sound_of_mem_schedules hMem
    | _ => cases h
  | advance | sweep => cases h

theorem Registration.schedules_step {point next : Registration}
    (h : point.step cue r = some (r', .at next)) : next.schedules ⊆ point.schedules := by
  cases point with
  | opening request =>
    simp only [step] at h
    split at h
    · cases h
    · next e hEntry =>
      cases h
      obtain ⟨-, -, schedule, hTrigger, rfl⟩ := entry_eq_ok.mp hEntry
      simp only [schedules, JobRequest.schedules, hTrigger]
      exact List.Subset.refl _
  | inserting id e =>
    simp only [step] at h
    split at h <;> cases h

theorem Declaration.schedules_step {point next : Declaration}
    (h : point.step cue r = some (r', .at next)) : next.schedules ⊆ point.schedules := by
  cases point with
  | next rest made =>
    cases rest with
    | nil => cases h
    | cons s rest =>
      simp only [step] at h
      split at h
      · cases h
      · next request hRequest =>
        cases h
        simp only [schedules, Registration.schedules, List.flatMap_cons,
          RecurringSettings.schedules_of_toRequest hRequest]
        exact List.Subset.refl _
  | registering point rest made =>
    obtain ⟨⟨r₁, p⟩, hStep, hEq⟩ := Option.map_eq_some_iff.mp h
    cases p with
    | «at» q =>
      cases hEq
      have hPoint := Registration.schedules_step hStep
      exact List.append_subset.mpr
        ⟨List.subset_append_of_subset_left _ hPoint, List.subset_append_right _ _⟩
    | done result =>
      cases result <;> cases hEq
      exact List.subset_append_right _ _

/-- A thread takes up no schedules on its way. -/
theorem Thread.schedules_step (h : th.step cue r = some (r', th', crew)) :
    th'.schedules ⊆ th.schedules := by
  cases th with
  | caller point =>
    rcases step_caller h with ⟨next, hStep, rfl, -⟩ | ⟨_, -, rfl, -⟩
    · cases point with
      | made call =>
        obtain ⟨-, hOpens⟩ := Call.opens_of_begin hStep
        cases hOpens with
        | schedule | declare => exact List.Subset.refl _
        | submit | start | shutdown | cancel => exact List.nil_subset _
      | canceling point =>
        obtain ⟨q, -, rfl⟩ := CallPoint.lift_eq_at (Option.some.inj hStep)
        exact List.nil_subset _
      | admitting | starting | stopping =>
        obtain ⟨x, -, hLift⟩ := Option.map_eq_some_iff.mp hStep
        obtain ⟨q, -, rfl⟩ := CallPoint.lift_eq_at hLift
        exact List.nil_subset _
      | scheduling point =>
        obtain ⟨x, hPoint, hLift⟩ := Option.map_eq_some_iff.mp hStep
        obtain ⟨q, rfl, rfl⟩ := CallPoint.lift_eq_at hLift
        exact Registration.schedules_step hPoint
      | declaring point =>
        obtain ⟨x, hPoint, hLift⟩ := Option.map_eq_some_iff.mp hStep
        obtain ⟨q, rfl, rfl⟩ := CallPoint.lift_eq_at hLift
        exact Declaration.schedules_step hPoint
    · exact List.nil_subset _
  | worker w =>
    obtain ⟨_, -, rfl, -⟩ := step_worker h
    exact List.nil_subset _
  | timer w =>
    obtain ⟨_, -, rfl, -⟩ := step_timer h
    exact List.nil_subset _
  | answered answer => cases h

theorem Thread.schedule_of_pending (h : th.pending? = some (t, entry)) :
    entry.schedule ∈ th.schedules := by
  have hMem : ∀ {point : Registration}, point.pending? = some (t, entry) →
      entry.schedule ∈ point.schedules := by
    intro point hPending
    cases point with
    | opening request => cases hPending
    | inserting id e =>
      cases hPending
      exact List.mem_singleton_self _
  cases th with
  | caller point =>
    cases point with
    | scheduling point => exact hMem h
    | declaring point =>
      cases point with
      | next rest made => cases h
      | registering point rest made => exact List.mem_append_left _ (hMem h)
    | made | admitting | starting | stopping | canceling => cases h
  | worker | timer | answered => cases h

-- ---------------------------------------------------------------------------
-- Runs
-- ---------------------------------------------------------------------------

namespace System

variable {s u : System δ} {e : Event} {events : List Event} {settings : RealmSettings}
  {registry : Registry δ} {store : Store} {i : Nat}

theorem schedule_of_step (hStep : s.step e = some u)
    (hFound : u.realm.triggers.find? t = some entry) :
    (∃ before, s.realm.triggers.find? t = some before ∧ entry.schedule = before.schedule) ∨
      ∃ th ∈ s.threads, entry.schedule ∈ th.schedules := by
  cases e with
  | call call =>
    cases hStep
    exact .inl ⟨entry, hFound, rfl⟩
  | sweep cutoff =>
    cases hStep
    exact .inl ⟨entry, hFound, rfl⟩
  | advance i cue =>
    obtain ⟨th, r', th', crew, hAt, hThread, rfl⟩ := step_advance hStep
    cases hPatrols : th.patrols with
    | false =>
      have hMem : th ∈ s.threads := List.mem_of_getElem? hAt
      rcases (Thread.edit_of_step hPatrols hThread).origin hFound with
        hBefore | hPending | ⟨times, before, rfl, -, rfl⟩
      · exact .inl ⟨entry, hBefore, rfl⟩
      · exact .inr ⟨th, hMem, Thread.schedule_of_pending hPending⟩
      · exact .inr ⟨_, hMem, List.mem_singleton_self times⟩
    | true =>
      obtain ⟨w, rfl, hLocked⟩ := Thread.timer_of_patrols hPatrols
      obtain ⟨w', hTimer, -⟩ := Thread.step_timer hThread
      obtain ⟨before, hBefore, hMoves⟩ := moves_of_stride hAt hLocked hTimer hFound
      exact .inl ⟨before, hBefore, hMoves.schedule⟩

theorem schedules_of_step (hStep : s.step e = some u) (hth : th ∈ u.threads) :
    th.schedules ⊆ e.schedules ∨ ∃ x ∈ s.threads, th.schedules ⊆ x.schedules := by
  cases e with
  | call call =>
    cases hStep
    rcases List.mem_append.mp hth with hOld | hNew
    · exact .inr ⟨th, hOld, List.Subset.refl _⟩
    · rw [List.mem_singleton.mp hNew]
      exact .inl (List.Subset.refl _)
  | sweep cutoff =>
    cases hStep
    exact .inr ⟨th, hth, List.Subset.refl _⟩
  | advance i cue =>
    obtain ⟨first, r', next, crew, hAt, hThread, rfl⟩ := step_advance hStep
    rcases List.mem_append.mp hth with hSet | hCrew
    · rcases List.mem_or_eq_of_mem_set hSet with hOld | rfl
      · exact .inr ⟨th, hOld, List.Subset.refl _⟩
      · exact .inr ⟨first, List.mem_of_getElem? hAt, Thread.schedules_step hThread⟩
    · rcases Thread.crew_of_step hThread th hCrew with rfl | rfl <;>
        exact .inl (List.nil_subset _)

/-- A trigger is on a schedule that a call asked for. -/
theorem scheduled_of_run (hRun : (initial settings registry store).run events = some u)
    (hFound : u.realm.triggers.find? t = some entry) :
    entry.schedule ∈ events.flatMap Event.schedules := by
  refine (run_induction (motive := fun events u =>
    (∀ th ∈ u.threads, th.schedules ⊆ events.flatMap Event.schedules) ∧
      ∀ entry, u.realm.triggers.find? t = some entry →
        entry.schedule ∈ events.flatMap Event.schedules) hRun ?_ ?_).2 entry hFound
  · refine ⟨fun th hth => ?_, fun entry hEntry => ?_⟩
    · cases hth
    · cases hEntry
  · rintro before s e u - hStep ⟨hThreads, hTable⟩
    rw [List.flatMap_append, List.flatMap_singleton]
    refine ⟨fun th hth => ?_, fun entry hEntry => List.mem_append_left _ ?_⟩
    · rcases schedules_of_step hStep hth with hNew | ⟨x, hx, hOld⟩
      · exact List.subset_append_of_subset_right _ hNew
      · exact List.subset_append_of_subset_left _ (List.Subset.trans hOld (hThreads x hx))
    · rcases schedule_of_step hStep hEntry with ⟨first, hFirst, hSame⟩ | ⟨th, hth, hMem⟩
      · rw [hSame]
        exact hTable first hFirst
      · exact hThreads th hth hMem

/-- If callers hand over none but checked schedules, every trigger is on a sound one. -/
theorem soundly_scheduled_of_run (hRun : (initial settings registry store).run events = some u)
    (hHanded : ∀ schedule ∈ events.flatMap Event.handed, schedule.Checked)
    (hFound : u.realm.triggers.find? t = some entry) : entry.schedule.Sound := by
  obtain ⟨e, he, hAsked⟩ := List.mem_flatMap.mp (scheduled_of_run hRun hFound)
  refine e.sound_of_mem_schedules (fun schedule hMem => ?_) hAsked
  exact (hHanded schedule (List.mem_flatMap.mpr ⟨e, he, hMem⟩)).sound

end System

end BackgroundJobs
