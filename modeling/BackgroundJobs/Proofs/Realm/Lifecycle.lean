import BackgroundJobs.Proofs.Realm.Lock
import BackgroundJobs.Proofs.Store.Listing

/-!
# Proofs — starting and stopping

Starts and shutdowns exclude each other, and a realm that was started or shut
down never goes back to where it was before. So a start takes up the runs that
it finds before the first worker comes, and from then on a run is interrupted
only by a shutdown, which has marked the realm as stopping by that time.

Main results:

* `Thread.turn_of_step`  — what a step does to the lifecycle and to its lock.
* `lifecycleLock_lawful` — starts and shutdowns have a lock.
* `governed_of_run`      — no worker while a start takes up runs, and no run
  interrupted by a shutdown that has not marked the realm.
-/

namespace BackgroundJobs

variable {δ : Type} {cue : Cue} {r r' : Realm δ} {th th' : Thread δ} {crew : List (Thread δ)}

-- ---------------------------------------------------------------------------
-- The steps of a start
-- ---------------------------------------------------------------------------

/-- Does a start have its lock at this point? -/
def Startup.locked : Startup → Bool
  | .waiting => false
  | _ => true

namespace Startup

variable {p : Progress Startup (Except JobError Unit)}

/-- A start takes up the runs that are not over, of the groups that the realm serves. -/
theorem selects_backlog (settings : RealmSettings) (x : JobRecord) :
    (backlog settings).selects x = (x.isActive && Filter.admits settings.groups x.group) := by
  have hActive : Filter.admits JobState.active x.state = x.isActive := by
    rw [JobRecord.isActive]
    cases x.state <;> rfl
  have hSelects : (backlog settings).selects x =
      (Filter.admits settings.groups x.group && Filter.admits JobState.active x.state) := by
    simp [backlog, Filter.active, Filter.selects, Filter.admits]
  rw [hSelects, hActive, Bool.and_comm]

/-- A start lists without a limit. -/
theorem list_backlog (s : Store) (settings : RealmSettings) :
    s.list (backlog settings) = s.listing (backlog settings).selects :=
  rfl

theorem mem_backlog {s : Store} {settings : RealmSettings} {x : JobRecord} :
    x ∈ s.list (backlog settings) ↔
      x ∈ s.records ∧ (x.state = .queued ∨ x.state = .running) ∧
        Filter.admits settings.groups x.group = true := by
  rw [list_backlog, Store.mem_listing, selects_backlog, Bool.and_eq_true, JobRecord.isActive]
  cases x.state <;> simp [JobState.isActive]

theorem step_waiting (h : step cue r .waiting = some (r', p)) :
    r.lifecycleHeld = false ∧
      ((∃ result, p = .done result ∧ r' = r) ∨
        ∃ next, p = .at next ∧ next.locked = true ∧ r.lifecycle = .created ∧
          r' = { r with lifecycleHeld := true }) := by
  simp only [step] at h
  split at h
  · cases h
  · next hHeld =>
    refine ⟨by simpa using hHeld, ?_⟩
    split at h
    · cases h
      exact .inl ⟨_, rfl, rfl⟩
    · cases h
      exact .inl ⟨_, rfl, rfl⟩
    · next hCreated =>
      cases h
      refine .inr ⟨_, rfl, ?_, hCreated, rfl⟩
      split <;> rfl

/-- A start that goes on keeps its lock and has not changed the lifecycle yet; one that ends gives
the lock back, and the realm is running if it went all the way. -/
theorem step_locked {point : Startup} (hLocked : point.locked = true)
    (h : point.step cue r = some (r', p)) :
    (∃ next, p = .at next ∧ next.locked = true ∧ r'.lifecycleHeld = r.lifecycleHeld ∧
        r'.lifecycle = r.lifecycle) ∨
      ∃ result, p = .done result ∧ r'.lifecycleHeld = false ∧
        ((point ≠ .opening ∧ r'.lifecycle = r.lifecycle) ∨ r'.lifecycle = .running) := by
  cases point with
  | waiting => cases hLocked
  | listing =>
    simp only [step] at h
    split at h <;> cases h
    · exact .inr ⟨_, rfl, rfl, .inl ⟨by rintro ⟨⟩, rfl⟩⟩
    · exact .inl ⟨_, rfl, rfl, rfl, rfl⟩
  | recovering rest =>
    cases rest with
    | nil =>
      cases h
      exact .inl ⟨_, rfl, rfl, rfl, rfl⟩
    | cons record rest =>
      simp only [step] at h
      split at h
      · cases h
        refine .inl ⟨_, rfl, ?_, rfl, rfl⟩
        split <;> rfl
      · split at h <;> next hTold =>
          cases h
          have hEffect : Effect cue _ [] r _ := .of_transition hTold
          have hSame := hEffect.lifecycle (by decide)
          first
          | exact .inl ⟨_, rfl, rfl, hSame.2.1, hSame.1⟩
          | exact .inr ⟨_, rfl, rfl, .inl ⟨by rintro ⟨⟩, hSame.1⟩⟩
      · cases h
        exact .inl ⟨_, rfl, rfl, rfl, rfl⟩
  | queueing id rest =>
    cases h
    exact .inl ⟨_, rfl, rfl, rfl, rfl⟩
  | finishing record rest =>
    cases h
    exact .inl ⟨_, rfl, rfl, rfl, rfl⟩
  | opening =>
    cases h
    exact .inr ⟨_, rfl, rfl, .inr rfl⟩

end Startup

-- ---------------------------------------------------------------------------
-- The steps of a shutdown
-- ---------------------------------------------------------------------------

namespace Shutdown

/-- Does a shutdown have its lock at this point? -/
def locked : Shutdown → Bool
  | .waiting => false
  | _ => true

/-- Has a shutdown marked the realm at this point? -/
def marked : Shutdown → Bool
  | .waiting | .marking _ => false
  | _ => true

variable {p : Progress Shutdown ShutdownReport}

theorem step_waiting (h : step cue r .waiting = some (r', p)) :
    r.lifecycleHeld = false ∧
      ((∃ result, p = .done result ∧ r' = r) ∨
        ∃ drain, p = .at (.marking drain) ∧
          r' = { r with lifecycle := .shutDown, lifecycleHeld := true }) := by
  simp only [step] at h
  split at h
  · cases h
  · next hHeld =>
    refine ⟨by simpa using hHeld, ?_⟩
    split at h <;> cases h
    · exact .inl ⟨_, rfl, rfl⟩
    · exact .inr ⟨_, rfl, rfl⟩
    · exact .inr ⟨_, rfl, rfl⟩

/-- A shutdown that goes on keeps its lock, and one that ends gives it back. It marks the realm
before it does anything else. -/
theorem step_locked {point : Shutdown} (hLocked : point.locked = true)
    (h : point.step cue r = some (r', p)) :
    r'.lifecycle = r.lifecycle ∧ (point.marked = false → r'.stopping = true) ∧
      ((∃ next, p = .at next ∧ next.locked = true ∧ r'.lifecycleHeld = r.lifecycleHeld) ∨
        ∃ result, p = .done result ∧ r'.lifecycleHeld = false) := by
  cases point with
  | waiting => cases hLocked
  | marking drain =>
    cases h
    exact ⟨rfl, fun _ => rfl, .inl ⟨_, rfl, rfl, rfl⟩⟩
  | closing drain =>
    simp only [step] at h
    split at h <;> cases h
    · exact ⟨rfl, by rintro ⟨⟩, .inl ⟨_, rfl, rfl, rfl⟩⟩
    · exact ⟨rfl, by rintro ⟨⟩, .inr ⟨_, rfl, rfl⟩⟩
  | draining deadline =>
    simp only [step] at h
    split at h
    · cases h
      exact ⟨rfl, by rintro ⟨⟩, .inl ⟨_, rfl, rfl, rfl⟩⟩
    · split at h <;> cases h
      exact ⟨rfl, by rintro ⟨⟩, .inl ⟨_, rfl, rfl, rfl⟩⟩
  | striking stuck report =>
    cases stuck with
    | nil =>
      cases h
      exact ⟨rfl, by rintro ⟨⟩, .inr ⟨_, rfl, rfl⟩⟩
    | cons entry stuck =>
      cases h
      exact ⟨rfl, by rintro ⟨⟩, .inl ⟨_, rfl, rfl, rfl⟩⟩
  | interrupting id stuck report =>
    simp only [step] at h
    split at h <;> next hTold =>
      cases h
      have hEffect : Effect cue _ [] r _ := .of_transition hTold
      have hSame := hEffect.lifecycle (by decide)
      exact ⟨hSame.1, by rintro ⟨⟩, .inl ⟨_, rfl, rfl, hSame.2.1⟩⟩
  | finishing record stuck report =>
    cases h
    exact ⟨rfl, by rintro ⟨⟩, .inl ⟨_, rfl, rfl, rfl⟩⟩

end Shutdown

-- ---------------------------------------------------------------------------
-- The lifecycle lock
-- ---------------------------------------------------------------------------

namespace Thread

/-- Is the thread starting or shutting down the realm? -/
def governs : Thread δ → Bool
  | .caller (.starting point) => point.locked
  | .caller (.stopping point) => point.locked
  | _ => false

theorem step_starting {point : Startup}
    (h : step cue r (.caller (.starting point)) = some (r', th', crew)) :
    (∃ next, point.step cue r = some (r', .at next) ∧ th' = .caller (.starting next)) ∨
      ∃ result answer, point.step cue r = some (r', .done result) ∧ th' = .answered answer := by
  rcases step_lifted rfl h with ⟨next, hPoint, hNext, -⟩ | ⟨result, hPoint, hAnswer, -⟩
  · exact .inl ⟨next, hPoint, hNext⟩
  · exact .inr ⟨result, _, hPoint, hAnswer⟩

theorem step_stopping {point : Shutdown}
    (h : step cue r (.caller (.stopping point)) = some (r', th', crew)) :
    (∃ next, point.step cue r = some (r', .at next) ∧ th' = .caller (.stopping next)) ∨
      ∃ result answer, point.step cue r = some (r', .done result) ∧ th' = .answered answer := by
  rcases step_lifted rfl h with ⟨next, hPoint, hNext, -⟩ | ⟨result, hPoint, hAnswer, -⟩
  · exact .inl ⟨next, hPoint, hNext⟩
  · exact .inr ⟨result, _, hPoint, hAnswer⟩

/-- Only starts and shutdowns touch the lifecycle. -/
theorem lifecycle_not_touched (hStart : ∀ point, th ≠ .caller (.starting point))
    (hStop : ∀ point, th ≠ .caller (.stopping point)) : Part.lifecycle ∉ th.touched := by
  intro hMem
  cases th with
  | caller point =>
    rcases CallPoint.mem_touched hMem with
      hPart | ⟨hPart, -⟩ | ⟨-, ⟨at', rfl⟩ | ⟨at', rfl⟩⟩ | ⟨hPart, -⟩
    · cases hPart
    · cases hPart
    · exact absurd rfl (hStart at')
    · exact absurd rfl (hStop at')
    · cases hPart
  | timer t => obtain ⟨hPart | hPart, -⟩ := Timer.mem_touched hMem <;> cases hPart
  | worker w =>
    rcases Worker.mem_touched hMem with
      ⟨hPart, -⟩ | ⟨hPart, -⟩ | ⟨hPart | hPart, -⟩ | ⟨hPart, -⟩ <;> cases hPart
  | answered answer => cases hMem

/-- A thread that neither starts nor shuts down the realm may only come to wait for that. -/
theorem governs_eq_false_of_step (hStart : ∀ point, th ≠ .caller (.starting point))
    (hStop : ∀ point, th ≠ .caller (.stopping point))
    (h : th.step cue r = some (r', th', crew)) : th'.governs = false := by
  cases th with
  | answered answer => cases h
  | worker w =>
    obtain ⟨w', -, rfl, -⟩ := step_worker h
    rfl
  | timer t =>
    obtain ⟨t', -, rfl, -⟩ := step_timer h
    rfl
  | caller point =>
    rcases step_caller h with ⟨next, hStep, rfl, -⟩ | ⟨answer, -, rfl, -⟩
    · cases point with
      | made call =>
        obtain ⟨-, hOpens⟩ := Call.opens_of_begin hStep
        cases hOpens <;> rfl
      | starting point => exact absurd rfl (hStart point)
      | stopping point => exact absurd rfl (hStop point)
      | canceling point =>
        obtain ⟨q, -, rfl⟩ := CallPoint.lift_eq_at (Option.some.inj hStep)
        rfl
      | admitting | scheduling | declaring =>
        obtain ⟨x, -, hLift⟩ := Option.map_eq_some_iff.mp hStep
        obtain ⟨q, -, rfl⟩ := CallPoint.lift_eq_at hLift
        rfl
    · rfl

end Thread

/-- What a thread's step does to the lifecycle of the realm and to its lock. -/
inductive Thread.Turn (r r' : Realm δ) (th th' : Thread δ) : Prop where
  /-- The thread is not starting or shutting down the realm, and does not come to do so. -/
  | apart (before : th.governs = false) (after : th'.governs = false)
    (held : r'.lifecycleHeld = r.lifecycleHeld) (lifecycle : r'.lifecycle = r.lifecycle)
  /-- A start or a shutdown takes the lock. -/
  | takes (before : th.governs = false) (after : th'.governs = true)
    (free : r.lifecycleHeld = false) (held : r'.lifecycleHeld = true)
    (role : (∃ point, th' = .caller (.starting point) ∧ r.lifecycle = .created ∧
        r'.lifecycle = .created) ∨
      ∃ drain, th' = .caller (.stopping (.marking drain)) ∧ r'.lifecycle = .shutDown)
  /-- A start or a shutdown goes on. -/
  | keeps (before : th.governs = true) (after : th'.governs = true)
    (held : r'.lifecycleHeld = r.lifecycleHeld) (lifecycle : r'.lifecycle = r.lifecycle)
    (role : (∃ point next, th = .caller (.starting point) ∧ th' = .caller (.starting next)) ∨
      ∃ point next, th = .caller (.stopping point) ∧ th' = .caller (.stopping next) ∧
        (point.marked = false → r'.stopping = true))
  /-- A start or a shutdown ends and gives the lock back. -/
  | releases (before : th.governs = true) (after : th'.governs = false)
    (held : r'.lifecycleHeld = false)
    (lifecycle : r'.lifecycle = r.lifecycle ∨ r'.lifecycle = .running)

namespace Thread

theorem turn_of_starting {point : Startup}
    (h : step cue r (.caller (.starting point)) = some (r', th', crew)) :
    Turn r r' (.caller (.starting point)) th' := by
  cases hLocked : point.locked with
  | true =>
    rcases step_starting h with ⟨next, hPoint, rfl⟩ | ⟨_, _, hPoint, rfl⟩ <;>
      rcases Startup.step_locked hLocked hPoint with
        ⟨q, hq, hLocked', hHeld, hSame⟩ | ⟨_, hq, hFree, hEnd⟩ <;>
      cases hq
    · exact .keeps hLocked hLocked' hHeld hSame (.inl ⟨point, next, rfl, rfl⟩)
    · exact .releases hLocked rfl hFree (hEnd.imp_left And.right)
  | false =>
    cases point with
    | waiting =>
      rcases step_starting h with ⟨next, hPoint, rfl⟩ | ⟨_, _, hPoint, rfl⟩ <;>
        obtain ⟨hFree, ⟨_, hq, rfl⟩ | ⟨q, hq, hLocked', hCreated, rfl⟩⟩ :=
          Startup.step_waiting hPoint <;>
        cases hq
      · exact .takes rfl hLocked' hFree rfl (.inl ⟨next, rfl, hCreated, hCreated⟩)
      · exact .apart rfl rfl rfl rfl
    | listing | recovering | queueing | finishing | opening => cases hLocked

theorem turn_of_stopping {point : Shutdown}
    (h : step cue r (.caller (.stopping point)) = some (r', th', crew)) :
    Turn r r' (.caller (.stopping point)) th' := by
  cases hLocked : point.locked with
  | true =>
    rcases step_stopping h with ⟨next, hPoint, rfl⟩ | ⟨_, _, hPoint, rfl⟩ <;>
      obtain ⟨hSame, hMarks, ⟨q, hq, hLocked', hHeld⟩ | ⟨_, hq, hFree⟩⟩ :=
        Shutdown.step_locked hLocked hPoint <;>
      cases hq
    · exact .keeps hLocked hLocked' hHeld hSame (.inr ⟨point, next, rfl, rfl, hMarks⟩)
    · exact .releases hLocked rfl hFree (.inl hSame)
  | false =>
    cases point with
    | waiting =>
      rcases step_stopping h with ⟨next, hPoint, rfl⟩ | ⟨_, _, hPoint, rfl⟩ <;>
        obtain ⟨hFree, ⟨_, hq, rfl⟩ | ⟨drain, hq, rfl⟩⟩ := Shutdown.step_waiting hPoint <;>
        cases hq
      · exact .takes rfl rfl hFree rfl (.inr ⟨drain, rfl, rfl⟩)
      · exact .apart rfl rfl rfl rfl
    | marking | closing | draining | striking | interrupting | finishing => cases hLocked

/-- Every step is one of the four turns. -/
theorem turn_of_step (h : th.step cue r = some (r', th', crew)) : Turn r r' th th' := by
  by_cases hStart : ∃ point, th = .caller (.starting point)
  · obtain ⟨point, rfl⟩ := hStart
    exact turn_of_starting h
  · by_cases hStop : ∃ point, th = .caller (.stopping point)
    · obtain ⟨point, rfl⟩ := hStop
      exact turn_of_stopping h
    · have hStart' : ∀ point, th ≠ .caller (.starting point) := fun p hEq => hStart ⟨p, hEq⟩
      have hStop' : ∀ point, th ≠ .caller (.stopping point) := fun p hEq => hStop ⟨p, hEq⟩
      obtain ⟨hSame, hHeld, -⟩ := (effect h).lifecycle (lifecycle_not_touched hStart' hStop')
      refine .apart ?_ (governs_eq_false_of_step hStart' hStop' h) hHeld hSame
      unfold governs
      split
      · next point => exact absurd rfl (hStart' point)
      · next point => exact absurd rfl (hStop' point)
      · rfl

end Thread

def lifecycleLock : Lock δ := ⟨(·.lifecycleHeld), Thread.governs⟩

theorem lifecycleLock_lawful : (lifecycleLock : Lock δ).Lawful where
  call _ := rfl
  crew hStep x hx := by
    rcases Thread.crew_of_step hStep x hx with rfl | rfl <;> rfl
  owner hStep hOwns hHeld := by
    cases Thread.turn_of_step hStep with
    | apart hNot => exact absurd (hOwns.symm.trans hNot) nofun
    | takes hNot => exact absurd (hOwns.symm.trans hNot) nofun
    | keeps _ hOwns' hSame => exact (hSame.trans hHeld).trans hOwns'.symm
    | releases _ hNot' hFree => exact hFree.trans hNot'.symm
  other hStep hNot := by
    cases Thread.turn_of_step hStep with
    | apart _ hNot' hSame => exact .inl ⟨hNot', hSame⟩
    | takes _ hOwns' hFree hHeld => exact .inr ⟨hOwns', hFree, hHeld⟩
    | keeps hOwns => exact absurd (hOwns.symm.trans hNot) nofun
    | releases hOwns => exact absurd (hOwns.symm.trans hNot) nofun
  sweep _ _ := rfl

-- ---------------------------------------------------------------------------
-- The life of a realm
-- ---------------------------------------------------------------------------

theorem Shutdown.locked_of_marked {point : Shutdown} (h : point.marked = true) :
    point.locked = true := by
  cases point <;> first | rfl | cases h

namespace Thread

/-- No step makes a realm one that was never started. -/
theorem lifecycle_ne_created_of_step (h : th.step cue r = some (r', th', crew))
    (hNot : r.lifecycle ≠ .created) : r'.lifecycle ≠ .created := by
  cases turn_of_step h with
  | apart _ _ _ hSame => rwa [hSame]
  | takes _ _ _ _ hRole =>
    rcases hRole with ⟨_, -, hCreated, -⟩ | ⟨_, -, hShutDown⟩
    · exact absurd hCreated hNot
    · rw [hShutDown]
      nofun
  | keeps _ _ _ hSame => rwa [hSame]
  | releases _ _ _ hEnd =>
    rcases hEnd with hSame | hRunning
    · rwa [hSame]
    · rw [hRunning]
      nofun

/-- Workers come when a start has gone all the way. -/
theorem lifecycle_of_crew {x : Thread δ} (h : th.step cue r = some (r', th', crew))
    (hx : x ∈ crew) : r'.lifecycle = .running := by
  cases th with
  | answered answer => cases h
  | worker w =>
    obtain ⟨_, -, -, rfl⟩ := step_worker h
    cases hx
  | timer t =>
    obtain ⟨_, -, -, rfl⟩ := step_timer h
    cases hx
  | caller point =>
    rcases step_caller h with ⟨_, -, -, rfl⟩ | ⟨_, -, -, rfl | rfl, -⟩
    · cases hx
    · cases hx
    · cases h
      rfl

end Thread

/-- There is no worker while a start takes up runs, and a shutdown that goes about them has marked
the realm as stopping. -/
structure Governed (s : System δ) : Prop where
  starting : ∀ {i : Nat} {point}, s.threads[i]? = some (.caller (.starting point)) →
    point.locked = true → s.realm.lifecycle = .created
  stopping : ∀ {i : Nat} {point}, s.threads[i]? = some (.caller (.stopping point)) →
    point.marked = true → s.realm.stopping = true
  working : ∀ {i : Nat} {w}, s.threads[i]? = some (.worker w) → s.realm.lifecycle ≠ .created

namespace System

variable {s u : System δ} {e : Event} {events : List Event}

/-- A start that has its lock goes on to find the realm as it was when it took the lock. -/
theorem starting_step (hKept : lifecycleLock.Kept s)
    (h : ∀ {i : Nat} {point}, s.threads[i]? = some (.caller (.starting point)) →
      point.locked = true → s.realm.lifecycle = .created) (hStep : s.step e = some u) {i : Nat}
    {point : Startup} (hAt : u.threads[i]? = some (.caller (.starting point)))
    (hLocked : point.locked = true) : u.realm.lifecycle = .created := by
  cases e with
  | call call =>
    cases hStep
    rcases threads_of_call hAt with hOld | ⟨-, hEq⟩
    · exact h hOld hLocked
    · cases hEq
  | sweep cutoff =>
    cases hStep
    exact h hAt hLocked
  | advance j cue =>
    obtain ⟨th, r', th', crew, hThread, hThreadStep, rfl⟩ := step_advance hStep
    rcases threads_of_advance hAt with ⟨-, rfl⟩ | ⟨hij, hOld⟩ | ⟨-, hMem⟩
    · cases Thread.turn_of_step hThreadStep with
      | apart _ hNot => exact absurd (hLocked.symm.trans hNot) nofun
      | takes _ _ _ _ hRole =>
        rcases hRole with ⟨_, -, -, hCreated⟩ | ⟨_, hEq, -⟩
        · exact hCreated
        · cases hEq
      | keeps hOwns _ _ hSame hRole =>
        rcases hRole with ⟨before, _, rfl, -⟩ | ⟨_, _, -, hEq, -⟩
        · exact hSame.trans (h hThread hOwns)
        · cases hEq
      | releases _ hNot => exact absurd (hLocked.symm.trans hNot) nofun
    · -- the lock is taken, so the thread that steps can neither have it nor get it
      have hHeld : s.realm.lifecycleHeld = true := hKept.held hOld hLocked
      cases Thread.turn_of_step hThreadStep with
      | apart _ _ _ hSame => exact hSame.trans (h hOld hLocked)
      | takes _ _ hFree => exact absurd (hHeld.symm.trans hFree) nofun
      | keeps hOwns => exact absurd (hKept.alone hOld hThread hLocked hOwns) hij
      | releases hOwns => exact absurd (hKept.alone hOld hThread hLocked hOwns) hij
    · rcases Thread.crew_of_step hThreadStep _ hMem with hEq | hEq <;> cases hEq

variable {r : Realm δ}

theorem stopping_of_run (hRun : (ofRealm r).run events = some u) :
    ∀ i : Nat, ∀ th, u.threads[i]? = some th → ∀ point, th = .caller (.stopping point) →
      point.marked = true → u.realm.stopping = true := by
  refine forall_threads_of_run (P := fun r th => ∀ point, th = .caller (.stopping point) →
    point.marked = true → r.stopping = true) ?_ ?_ ?_ ?_ ?_ hRun
  · rintro r call point ⟨⟩
  · intro cue r th r' th' crew hStep h
    refine ⟨?_, ?_⟩
    · rintro next rfl hMarked
      have hLocked := Shutdown.locked_of_marked hMarked
      cases Thread.turn_of_step hStep with
      | apart _ hNot => exact absurd (hLocked.symm.trans hNot) nofun
      | takes _ _ _ _ hRole =>
        rcases hRole with ⟨_, hEq, -⟩ | ⟨_, hEq, -⟩
        · cases hEq
        · cases hEq
          cases hMarked
      | keeps _ _ _ _ hRole =>
        rcases hRole with ⟨_, _, -, hEq⟩ | ⟨before, _, rfl, -, hMarks⟩
        · cases hEq
        · cases hBefore : before.marked with
          | true => exact (Thread.effect hStep).stopping (h before rfl hBefore)
          | false => exact hMarks hBefore
      | releases _ hNot => exact absurd (hLocked.symm.trans hNot) nofun
    · rintro x hx point rfl
      rcases Thread.crew_of_step hStep _ hx with hEq | hEq <;> cases hEq
  · intro cue r th r' th' crew hStep other h point hEq hMarked
    exact (Thread.effect hStep).stopping (h point hEq hMarked)
  · intro r cutoff other h
    exact h
  · intro i th hAt
    cases hAt

theorem working_of_run (hRun : (ofRealm r).run events = some u) :
    ∀ i : Nat, ∀ th, u.threads[i]? = some th → ∀ w, th = .worker w →
      u.realm.lifecycle ≠ .created := by
  refine forall_threads_of_run (P := fun r th => ∀ w, th = .worker w → r.lifecycle ≠ .created)
    ?_ ?_ ?_ ?_ ?_ hRun
  · rintro r call w ⟨⟩
  · intro cue r th r' th' crew hStep h
    refine ⟨?_, ?_⟩
    · rintro w' rfl
      obtain ⟨w, rfl, -⟩ := Thread.worker_of_step hStep
      exact Thread.lifecycle_ne_created_of_step hStep (h w rfl)
    · intro x hx w _
      rw [Thread.lifecycle_of_crew hStep hx]
      nofun
  · intro cue r th r' th' crew hStep other h w hEq
    exact Thread.lifecycle_ne_created_of_step hStep (h w hEq)
  · intro r cutoff other h
    exact h
  · intro i th hAt
    cases hAt

theorem governed_of_run (hRun : (ofRealm r).run events = some u) : Governed u where
  starting := run_induction (motive := fun _ u => ∀ {i : Nat} {point},
      u.threads[i]? = some (.caller (.starting point)) → point.locked = true →
        u.realm.lifecycle = .created) hRun nofun
    fun _ _ _ _ hBefore hStep ih _ _ hAt hLocked =>
      starting_step (Lock.kept_of_run lifecycleLock_lawful hBefore) ih hStep hAt hLocked
  stopping hAt hMarked := stopping_of_run hRun _ _ hAt _ rfl hMarked
  working hAt := working_of_run hRun _ _ hAt _ rfl

end System

end BackgroundJobs
