import BackgroundJobs.Proofs.Realm.Schedules

/-!
# Proofs — how often triggers fire

A pass moves every trigger on that is due, to a time after that of the pass if
the schedule is sound. So firings that were missed count as one, and a trigger on
an interval fires at most once in that interval, however the passes lie. An empty
interval leaves the trigger due. It cannot be read from a text or built with a
check, but a caller that holds one can hand it over.

Main results:

* `not_due_of_pass`   — after a pass no trigger on a sound schedule is due.
* `idle_of_quiet`     — a pass where no trigger is due changes nothing.
* `spawnedBy_of_pass` — a pass makes at most one run of a trigger.
* `spaced_of_run`     — the firings of a trigger on an interval lie apart.
* `paced_of_run`      — triggers fire no more often than their schedules say.
* `fires_out_of_time` — what lies outside of that: empty intervals, triggers that are put on
  another schedule, and leap seconds.
-/

namespace BackgroundJobs

variable {δ : Type} {cue : Cue} {r r' : Realm δ} {th th' : Thread δ} {crew : List (Thread δ)}
  {t : TriggerId} {now : Instant}

-- ---------------------------------------------------------------------------
-- Triggers that are not due
-- ---------------------------------------------------------------------------

/-- Is no trigger of the table due? -/
def Triggers.Quiet (table : Triggers) (now : Instant) : Prop :=
  ∀ t e, table.find? t = some e → e.isDue now = false

namespace TriggerEntry

variable {e after : TriggerEntry} {earlier : Instant}

theorem isDue_iff : e.isDue now = true ↔ ∃ time, e.nextFire = some time ∧ time ≤ now := by
  cases h : e.nextFire <;> simp [isDue, h]

theorem isDue_mono (hLe : earlier ≤ now) (h : e.isDue earlier = true) : e.isDue now = true := by
  obtain ⟨time, hNext, hTime⟩ := isDue_iff.mp h
  exact isDue_iff.mpr ⟨time, hNext, Instant.le_trans hTime hLe⟩

theorem isDue_eq_false_mono (hLe : earlier ≤ now) (h : e.isDue now = false) :
    e.isDue earlier = false := by
  by_contra hDue
  rw [isDue_mono hLe (by simpa using hDue)] at h
  cases h

/-- After a pass a trigger on a sound schedule is not due. -/
theorem Fired.isDue_eq_false (h : e.Fired now after) (hSound : e.schedule.Sound) :
    after.isDue now = false := by
  unfold Fired at h
  split at h
  · obtain ⟨made, rfl⟩ := h
    by_contra hDue
    have hNext : ((e.advance now).note made).nextFire = e.schedule.next? now := by
      cases made <;> rfl
    obtain ⟨time, hTime, hLe⟩ := isDue_iff.mp (by simpa using hDue)
    rw [hNext] at hTime
    exact Instant.not_lt.mpr hLe (hSound.lt hTime)
  · next hEarly =>
    rw [h]
    simpa using hEarly

/-- A firing keeps the schedule. -/
theorem Fired.schedule (h : e.Fired now after) : after.schedule = e.schedule := by
  unfold Fired at h
  split at h
  · obtain ⟨made, rfl⟩ := h
    cases made <;> rfl
  · rw [h]

end TriggerEntry

theorem Triggers.Quiet.mono {table : Triggers} {earlier : Instant} (h : table.Quiet now)
    (hLe : earlier ≤ now) : table.Quiet earlier :=
  fun t e hFound => TriggerEntry.isDue_eq_false_mono hLe (h t e hFound)

/-- Is the realm the same but for the lock of the table? -/
def Realm.OnlyLocks (r r' : Realm δ) : Prop :=
  ∃ held, r' = { r with triggersHeld := held }

/-- Where no trigger is due, the timer goes through the table and does nothing. -/
theorem Timer.step_of_quiet {rest : List TriggerId} {w' : Timer} (hQuiet : r.triggers.Quiet now)
    (h : (passing now rest).step cue r = some (r', w')) :
    r.OnlyLocks r' ∧ (w'.locked = true → ∃ rest', w' = .passing now rest') := by
  cases rest with
  | nil =>
    cases h
    exact ⟨⟨false, rfl⟩, fun hLocked => by cases hLocked⟩
  | cons id rest =>
    simp only [step] at h
    split at h
    · cases h
      exact ⟨⟨r.triggersHeld, rfl⟩, fun _ => ⟨rest, rfl⟩⟩
    · next e hFound =>
      rw [if_neg (by simp [hQuiet id e hFound])] at h
      cases h
      exact ⟨⟨r.triggersHeld, rfl⟩, fun _ => ⟨rest, rfl⟩⟩

-- ---------------------------------------------------------------------------
-- Passes
-- ---------------------------------------------------------------------------

/-- The triggers that the timer has still to come to. -/
def Timer.coming (w : Timer) : List TriggerId :=
  (w.pass?.map (·.2.2)).getD []

/-- The timer comes to one trigger after the other. -/
theorem Timer.coming_step {w w' : Timer} (hLocked : w.locked = true)
    (h : w.step cue r = some (r', w')) (hGoesOn : w'.locked = true) :
    (w.comes? = none ∧ w'.coming = w.coming) ∨
      ∃ now id, w.comes? = some (now, id) ∧ w.coming = id :: w'.coming := by
  cases stride_of_step hLocked h with
  | ends now before after =>
    subst after
    cases hGoesOn
  | passes now id rest before after =>
    subst before after
    exact .inr ⟨now, id, rfl, rfl⟩
  | comes now id rest e before after =>
    subst before
    refine .inr ⟨now, id, rfl, ?_⟩
    rw [coming, coming, after]
    rfl
  | works now id rest before after =>
    refine .inl ⟨?_, ?_⟩
    · cases w <;> first | rfl | cases before
    · rw [coming, coming, before, after]
  | notes now id rest made before after =>
    subst before after
    exact .inl ⟨rfl, rfl⟩

/-- Is the thread a timer that waits for the table of triggers since that time? -/
def Thread.waitsSince (now : Instant) : Thread δ → Bool
  | .timer (.waiting since) => since = now
  | _ => false

/-- Is the thread a timer that has been to all triggers, and gives the table back next? -/
def Thread.hasPassed : Thread δ → Bool
  | .timer (.passing _ []) => true
  | _ => false

theorem Thread.eq_of_waitsSince (h : th.waitsSince now = true) : th = .timer (.waiting now) := by
  unfold waitsSince at h
  split at h
  · rw [of_decide_eq_true h]
  · cases h

theorem Thread.eq_of_hasPassed (h : th.hasPassed = true) :
    ∃ since, th = .timer (.passing since []) := by
  unfold hasPassed at h
  split at h
  · next since => exact ⟨since, rfl⟩
  · cases h

/-- A thread that is about to put a trigger into the table does so in its next step. -/
theorem Thread.insert_of_pending {entry : TriggerEntry} (hPending : th.pending? = some (t, entry))
    (h : th.step cue r = some (r', th', crew)) :
    r.triggersHeld = false ∧ r' = { r with triggers := Triggers.insert t entry r.triggers } := by
  have hInsert : ∀ {r'} {p : Progress Registration (Except JobError TriggerId)},
      (Registration.inserting t entry).step cue r = some (r', p) → r.triggersHeld = false ∧
        r' = { r with triggers := Triggers.insert t entry r.triggers } := by
    intro r' p hStep
    simp only [Registration.step] at hStep
    split at hStep
    · cases hStep
    · next hFree =>
      cases hStep
      exact ⟨by simpa using hFree, rfl⟩
  cases th with
  | caller point =>
    obtain ⟨q, hStep⟩ : ∃ q, point.step cue r = some (r', q) := by
      rcases step_caller h with ⟨_, hStep, -⟩ | ⟨_, hStep, -⟩ <;> exact ⟨_, hStep⟩
    cases point with
    | scheduling point =>
      cases point with
      | opening request => cases hPending
      | inserting id e =>
        cases hPending
        obtain ⟨x, hPoint, hLift⟩ := Option.map_eq_some_iff.mp hStep
        obtain ⟨p, rfl⟩ := CallPoint.lift_eq hLift
        exact hInsert hPoint
    | declaring point =>
      obtain ⟨x, hPoint, hLift⟩ := Option.map_eq_some_iff.mp hStep
      obtain ⟨p, rfl⟩ := CallPoint.lift_eq hLift
      cases point with
      | next rest made => cases hPending
      | registering point rest made =>
        cases point with
        | opening request => cases hPending
        | inserting id e =>
          cases hPending
          obtain ⟨⟨r₁, p⟩, hInner, hEq⟩ := Option.map_eq_some_iff.mp hPoint
          split at hEq <;> next hPair =>
            cases hPair
            cases hEq
            exact hInsert hInner
    | made | admitting | starting | stopping | canceling => cases hPending
  | worker | timer | answered => cases hPending

namespace System

variable {s u v x y : System δ} {e : Event} {events more : List Event} {settings : RealmSettings}
  {registry : Registry δ} {store : Store} {i : Nat} {w w' : Timer} {entry : TriggerEntry}

/-- A pass of the timer, which is thread `i`, from where it waits for the table of triggers to
where it has been to all of them and gives the table back. -/
structure Pass (u : System δ) (i : Nat) (now : Instant) (v : System δ) (more : List Event)
    (x : System δ) : Prop where
  waits : u.threads[i]? = some (.timer (.waiting now))
  begins : ∃ cue, u.step (.advance i cue) = some v
  runs : v.run more = some x
  patrolled : v.Patrolled i more
  ends : ∃ now', x.threads[i]? = some (.timer (.passing now' []))

/-- Lets the timer, which is thread `i`, make a pass with the events that it takes after it has
begun: where it began, and where it has been to all triggers. -/
def pass? (u : System δ) (i : Nat) (cue : Cue) (now : Instant) (more : List Event) :
    Option (System δ × System δ) := do
  let v ← u.step (.advance i cue)
  let x ← v.run more
  if u.threads[i]?.any (·.waitsSince now) && x.threads[i]?.any (·.hasPassed) &&
      (v.trail (fun s _ => [s.threads[i]?.any (·.patrols)]) more).all id then
    return (v, x)
  else none

theorem pass_of_pass? (h : u.pass? i cue now more = some (v, x)) : u.Pass i now v more x := by
  obtain ⟨first, hBegins, h⟩ := Option.bind_eq_some_iff.mp h
  obtain ⟨last, hRuns, h⟩ := Option.bind_eq_some_iff.mp h
  split at h
  · next hChecks =>
    cases h
    simp only [Bool.and_eq_true] at hChecks
    obtain ⟨⟨hWaits, hEnds⟩, hPatrolled⟩ := hChecks
    refine ⟨?_, ⟨cue, hBegins⟩, hRuns, List.all_eq_true.mp hPatrolled, ?_⟩
    · obtain ⟨th, hAt, hWait⟩ := (Option.any_eq_true _ _).mp hWaits
      rw [hAt, Thread.eq_of_waitsSince hWait]
    · obtain ⟨th, hAt, hPassed⟩ := (Option.any_eq_true _ _).mp hEnds
      obtain ⟨now', rfl⟩ := Thread.eq_of_hasPassed hPassed
      exact ⟨now', hAt⟩
  · cases h

theorem length_dues_le (hAt : s.threads[i]? = some (.timer w)) {id : TriggerId}
    (hComes : w.comes? = some (now, id)) : (s.dues t (.advance i cue)).length ≤ [id].count t := by
  simp only [dues, hAt, Option.bind_some, Thread.comes?, hComes, List.count_singleton]
  by_cases hId : id = t
  · split <;> simp [hId]
  · simp [hId]

/-- In the course of a pass the timer comes to no trigger twice. -/
theorem dues_of_patrolled {r : Realm δ} (hRun : (ofRealm r).run events = some v)
    (hAt : v.threads[i]? = some (.timer w)) (hMore : v.run more = some x)
    (hPass : v.Patrolled i more) (hAt' : x.threads[i]? = some (.timer w'))
    (hLocked : w'.locked = true) (t : TriggerId) :
    (v.trail (dues t) more).length + w'.coming.count t ≤ w.coming.count t := by
  refine patrol_induction (motive := fun more _ w' =>
    (v.trail (dues t) more).length + w'.coming.count t ≤ w.coming.count t)
    hRun hAt hMore hPass (by simp [trail]) ?_ ?_ hAt' hLocked
  · intro before s cue u w₁ w₂ hBefore hAt _ hTimer hLocked hLocked' ih
    rw [trail_concat hBefore, List.length_append]
    rcases Timer.coming_step hLocked hTimer hLocked' with ⟨hApart, hSame⟩ | ⟨now, id, hComes, hNext⟩
    · rw [dues_of_apart hAt hApart, hSame]
      exact ih
    · have hOne : (s.dues t (.advance i cue)).length ≤ [id].count t :=
        length_dues_le hAt hComes
      rw [hNext, ← List.singleton_append, List.count_append] at ih
      omega
  · intro before s e u w₁ hBefore hAt _ hOther hLocked _ ih
    have hUpTo : (ofRealm r).run (events ++ before) = some s := by
      rw [run_append_of_run hRun, hBefore]
    have hNone : s.dues t e = [] := by
      cases e with
      | call call => rfl
      | sweep cutoff => rfl
      | advance j cue =>
        cases hth : s.threads[j]? with
        | none => simp [dues, hth]
        | some th =>
          refine dues_of_apart hth ?_
          by_contra hComes
          obtain ⟨y, hy⟩ := Option.ne_none_iff_exists'.mp hComes
          have hji : j = i := (Lock.kept_of_run triggersLock_lawful hUpTo).alone hth hAt
            (Thread.patrols_of_comes? hy) hLocked
          exact hOther cue (by rw [hji])
    rw [trail_concat hBefore, hNone, List.append_nil]
    exact ih

/-- Where the timer begins a pass nobody goes through the triggers, and it has all of them before
it. -/
theorem Pass.begun (h : u.Pass i now v more x) :
    u.realm.triggersHeld = false ∧ u.realm.OnlyLocks v.realm ∧
      v.threads = u.threads.set i (.timer (.passing now (u.realm.triggers.map (·.1)))) := by
  obtain ⟨cue, hBegins⟩ := h.begins
  obtain ⟨r', th', crew, hThread, rfl⟩ := step_advance_at h.waits hBegins
  obtain ⟨w, hTimer, rfl, rfl⟩ := Thread.step_timer hThread
  simp only [Timer.step] at hTimer
  split at hTimer
  · cases hTimer
  · next hFree =>
    cases hTimer
    exact ⟨by simpa using hFree, ⟨true, rfl⟩, List.append_nil _⟩

theorem Pass.run_begun {r : Realm δ} (h : u.Pass i now v more x)
    (hRun : (ofRealm r).run events = some u) : ∃ events', (ofRealm r).run events' = some v := by
  obtain ⟨cue, hBegins⟩ := h.begins
  exact ⟨_, run_concat_of_run hRun hBegins⟩

theorem Pass.run_through {r : Realm δ} {between : List Event} (h : u.Pass i now v more x)
    (hRun : (ofRealm r).run events = some u) (hBetween : x.run between = some y) :
    ∃ events', (ofRealm r).run events' = some y := by
  obtain ⟨events', hBegun⟩ := h.run_begun hRun
  refine ⟨events' ++ (more ++ between), ?_⟩
  rw [run_append_of_run hBegun, run_append_of_run h.runs, hBetween]

theorem Pass.at_start (h : u.Pass i now v more x) :
    v.threads[i]? = some (.timer (.passing now (u.realm.triggers.map (·.1)))) := by
  obtain ⟨hi, -⟩ := List.getElem?_eq_some_iff.mp h.waits
  rw [h.begun.2.2, List.getElem?_set_self hi]

/-- In the course of a pass no more than one run of a trigger is made. -/
theorem spawnedBy_of_pass (hRun : (initial settings registry store).run events = some u)
    (h : u.Pass i now v more x) (t : TriggerId) : spawnedBy t (v.trail admissions more) ≤ 1 := by
  obtain ⟨hFree, -, hThreads⟩ := h.begun
  obtain ⟨events', hRun'⟩ := h.run_begun hRun
  obtain ⟨now', hEnds⟩ := h.ends
  have hNone : v.gather Thread.undertakes = [] := by
    refine List.flatMap_eq_nil_iff.mpr fun th hth => ?_
    rw [hThreads] at hth
    rcases List.mem_or_eq_of_mem_set hth with hOld | rfl
    · exact Thread.undertakes_eq_nil (patrols_eq_false_of_free hRun hFree th hOld)
    · rfl
  have hMade := spawnedBy_of_run hRun' h.runs t
  have hDues := dues_of_patrolled hRun' h.at_start h.runs h.patrolled hEnds rfl t
  have hOnce : (u.realm.triggers.map (·.1)).count t ≤ 1 :=
    List.nodup_iff_count_le_one.mp (sorted_of_run hRun).nodup t
  have hComing : (Timer.passing now (u.realm.triggers.map (·.1))).coming =
      u.realm.triggers.map (·.1) := rfl
  rw [hNone, List.count_nil] at hMade
  rw [hComing] at hDues
  omega

/-- A pass puts no trigger into the table. -/
theorem find?_of_pass {r : Realm δ} (hRun : (ofRealm r).run events = some u)
    (h : u.Pass i now v more x) (hFound : x.realm.triggers.find? t = some entry) :
    ∃ first, u.realm.triggers.find? t = some first := by
  obtain ⟨-, ⟨held, hLocks⟩, -⟩ := h.begun
  obtain ⟨events', hRun'⟩ := h.run_begun hRun
  obtain ⟨now', hEnds⟩ := h.ends
  have hSame : (x.realm.triggers.find? t).isSome = (v.realm.triggers.find? t).isSome := by
    refine patrol_induction (motive := fun _ x _ =>
      (x.realm.triggers.find? t).isSome = (v.realm.triggers.find? t).isSome)
      hRun' h.at_start h.runs h.patrolled rfl ?_ ?_ hEnds rfl
    · intro _ s cue u w w' _ _ _ hTimer hLocked _ ih
      rw [(Timer.listed_step hLocked hTimer t).1, ih]
    · intro _ s e u w _ _ _ _ _ hTable ih
      rw [hTable, ih]
  rw [hFound, hLocks] at hSame
  exact Option.isSome_iff_exists.mp hSame.symm

/-- A pass lets every trigger fire that is due, and leaves the others alone. -/
theorem fired_of_pass (hRun : (initial settings registry store).run events = some u)
    (h : u.Pass i now v more x) (hFound : u.realm.triggers.find? t = some entry) :
    ∃ after, x.realm.triggers.find? t = some after ∧ entry.Fired now after := by
  obtain ⟨cue, hBegins⟩ := h.begins
  obtain ⟨now', hEnds⟩ := h.ends
  exact fired_of_run hRun h.waits hBegins h.runs h.patrolled hEnds hFound

/-- What is in the table after a pass was there before it. -/
theorem origin_of_pass (hRun : (initial settings registry store).run events = some u)
    (h : u.Pass i now v more x) (hFound : x.realm.triggers.find? t = some entry) :
    ∃ first, u.realm.triggers.find? t = some first ∧ first.Fired now entry := by
  obtain ⟨first, hFirst⟩ := find?_of_pass hRun h hFound
  obtain ⟨after, hAfter, hFired⟩ := fired_of_pass hRun h hFirst
  cases hFound.symm.trans hAfter
  exact ⟨first, hFirst, hFired⟩

/-- After a pass no trigger on a sound schedule is due at the time of the pass. -/
theorem not_due_of_pass (hRun : (initial settings registry store).run events = some u)
    (h : u.Pass i now v more x) (hFound : x.realm.triggers.find? t = some entry)
    (hSound : entry.schedule.Sound) : entry.isDue now = false := by
  obtain ⟨first, -, hFired⟩ := origin_of_pass hRun h hFound
  exact hFired.isDue_eq_false (hFired.schedule ▸ hSound)

theorem quiet_of_pass (hRun : (initial settings registry store).run events = some u)
    (h : u.Pass i now v more x)
    (hSound : ∀ t e, u.realm.triggers.find? t = some e → e.schedule.Sound) :
    x.realm.triggers.Quiet now := by
  intro t e hFound
  obtain ⟨first, hFirst, hFired⟩ := origin_of_pass hRun h hFound
  exact hFired.isDue_eq_false (hSound t first hFirst)

/-- A pass leaves a trigger alone that is not due. -/
theorem kept_of_pass (hRun : (initial settings registry store).run events = some u)
    (h : u.Pass i now v more x) (hFound : u.realm.triggers.find? t = some entry)
    (hEarly : entry.isDue now = false) : x.realm.triggers.find? t = some entry := by
  obtain ⟨after, hAfter, hFired⟩ := fired_of_pass hRun h hFound
  rw [TriggerEntry.Fired, if_neg (by simp [hEarly])] at hFired
  exact hFired ▸ hAfter

/-- Does a pass change nothing? The steps of the timer leave the realm as it is, but for the lock
of the table. -/
structure Idle (u : System δ) (i : Nat) (v : System δ) (more : List Event) (x : System δ) :
    Prop where
  begins : u.realm.OnlyLocks v.realm
  steps : ∀ first cue p q, first <+: more → v.run first = some p →
    p.step (.advance i cue) = some q → p.realm.OnlyLocks q.realm
  table : x.realm.triggers = u.realm.triggers

theorem Pass.locked (h : u.Pass i now v more x) {first : List Event} (hFirst : first <+: more)
    (hTo : v.run first = some s) :
    v.Patrolled i first ∧ ∃ w, s.threads[i]? = some (.timer w) ∧ w.locked = true := by
  obtain ⟨rest, rfl⟩ := hFirst
  have hPatrolled := h.patrolled
  rw [Patrolled, trail_append hTo] at hPatrolled
  refine ⟨fun b hb => hPatrolled b (List.mem_append_left _ hb), ?_⟩
  cases rest with
  | nil =>
    have hRuns := h.runs
    rw [List.append_nil, hTo] at hRuns
    cases hRuns
    obtain ⟨now', hEnds⟩ := h.ends
    exact ⟨_, hEnds, rfl⟩
  | cons e rest =>
    have hNow : s.threads[i]?.any (·.patrols) = true :=
      hPatrolled _ (List.mem_append_right _ List.mem_cons_self)
    obtain ⟨th, hth, hPatrols⟩ := (Option.any_eq_true _ _).mp hNow
    obtain ⟨w, rfl, hLocked⟩ := Thread.timer_of_patrols hPatrols
    exact ⟨w, hth, hLocked⟩

/-- A pass changes nothing if no trigger is due. -/
theorem idle_of_quiet {r : Realm δ} (hRun : (ofRealm r).run events = some u)
    (h : u.Pass i now v more x) (hQuiet : u.realm.triggers.Quiet now) : u.Idle i v more x := by
  obtain ⟨-, hBegins, -⟩ := h.begun
  obtain ⟨events', hRun'⟩ := h.run_begun hRun
  have hTable : v.realm.triggers = u.realm.triggers := by
    obtain ⟨held, hLocks⟩ := hBegins
    rw [hLocks]
  have hPassing : ∀ first s, first <+: more → v.run first = some s →
      (∃ rest, s.threads[i]? = some (.timer (.passing now rest))) ∧
        s.realm.triggers = u.realm.triggers := by
    intro first s hFirst hTo
    obtain ⟨hPatrolled, w, hAt, hLocked⟩ := h.locked hFirst hTo
    have hInv : (∃ rest, w = .passing now rest) ∧ s.realm.triggers = u.realm.triggers := by
      refine patrol_induction (motive := fun _ s w => (∃ rest, w = Timer.passing now rest) ∧
        s.realm.triggers = u.realm.triggers) hRun' h.at_start hTo hPatrolled ⟨⟨_, rfl⟩, hTable⟩
        ?_ ?_ hAt hLocked
      · rintro _ p cue q _ w' _ _ _ hTimer _ hLocked' ⟨⟨rest, rfl⟩, hSame⟩
        rw [← hSame] at hQuiet
        obtain ⟨⟨held, hLocks⟩, hGoesOn⟩ := Timer.step_of_quiet hQuiet hTimer
        exact ⟨hGoesOn hLocked', by rw [hLocks, hSame]⟩
      · rintro _ p e q w _ _ _ _ _ hKept ⟨hPasses, hSame⟩
        exact ⟨hPasses, hKept.trans hSame⟩
    obtain ⟨⟨rest, rfl⟩, hSame⟩ := hInv
    exact ⟨⟨rest, hAt⟩, hSame⟩
  refine ⟨hBegins, fun first cue p q hFirst hTo hStep => ?_,
    (hPassing more x (List.prefix_refl more) h.runs).2⟩
  obtain ⟨⟨rest, hAt⟩, hSame⟩ := hPassing first p hFirst hTo
  obtain ⟨r', th', crew, hThread, rfl⟩ := step_advance_at hAt hStep
  obtain ⟨w', hTimer, -, -⟩ := Thread.step_timer hThread
  rw [← hSame] at hQuiet
  exact (Timer.step_of_quiet hQuiet hTimer).1

-- ---------------------------------------------------------------------------
-- Triggers that have no next time
-- ---------------------------------------------------------------------------

/-- A trigger without a next time is not found due, and stays without one. -/
theorem ended_step (hStep : s.step e = some u) (hNew : t ∉ s.registrations e)
    (hKept : t ∉ s.reschedulings e)
    (h : ∀ entry, s.realm.triggers.find? t = some entry → entry.nextFire = none) :
    s.dues t e = [] ∧ ∀ entry, u.realm.triggers.find? t = some entry → entry.nextFire = none := by
  have hNone : s.dues t e = [] := by
    refine List.eq_nil_iff_forall_not_mem.mpr fun now hNow => ?_
    obtain ⟨entry, hFound, hDue⟩ := due_of_mem_dues hNow
    obtain ⟨time, hTime, -⟩ := TriggerEntry.isDue_iff.mp hDue
    rw [h entry hFound] at hTime
    cases hTime
  refine ⟨hNone, fun entry hFound => ?_⟩
  obtain ⟨before, hBefore, hMoves⟩ := moves_of_step hStep hNew hKept hFound
  rcases hMoves.next with ⟨-, hSame⟩ | ⟨now, hDue, -⟩
  · rw [hSame, h before hBefore]
  · rw [hNone] at hDue
    cases hDue

/-- A trigger without a next time never fires again. -/
theorem ended_of_run {r : Realm δ} (hRun : (ofRealm r).run events = some u)
    (hMore : u.run more = some x)
    (hEnded : ∀ entry, u.realm.triggers.find? t = some entry → entry.nextFire = none)
    (hIdle : ∀ th ∈ u.threads, th.trigger? ≠ some t)
    (hNew : t ∉ u.trail registrations more) (hKept : t ∉ u.trail reschedulings more) :
    u.trail (dues t) more = [] ∧ spawnedBy t (u.trail admissions more) = 0 := by
  have hDues : u.trail (dues t) more = [] := by
    refine (run_induction (motive := fun more x => t ∉ u.trail registrations more →
      t ∉ u.trail reschedulings more → u.trail (dues t) more = [] ∧
        ∀ entry, x.realm.triggers.find? t = some entry → entry.nextFire = none)
      hMore (fun _ _ => ⟨rfl, hEnded⟩) ?_ hNew hKept).1
    intro before s e v hBefore hStep ih hNew hKept
    rw [trail_concat hBefore, List.mem_append, not_or] at hNew hKept
    obtain ⟨hNever, hStill⟩ := ih hNew.1 hKept.1
    obtain ⟨hNone, hAfter⟩ := ended_step hStep hNew.2 hKept.2 hStill
    exact ⟨by rw [trail_concat hBefore, hNever, hNone, List.append_nil], hAfter⟩
  have hApart : (u.gather Thread.undertakes).count t = 0 := by
    refine List.count_eq_zero.mpr fun hMem => ?_
    obtain ⟨th, hth, hUndertakes⟩ := List.mem_flatMap.mp hMem
    exact hIdle th hth (Thread.trigger?_of_undertakes hUndertakes)
  have hMade := spawnedBy_of_run hRun hMore t
  rw [hApart, hDues, List.length_nil] at hMade
  exact ⟨hDues, by omega⟩

-- ---------------------------------------------------------------------------
-- Intervals
-- ---------------------------------------------------------------------------

/-- Do the times at which a trigger was found due lie an interval apart, and does it come to the
last of them next? -/
structure Spaced (s : System δ) (t : TriggerId) (d : Duration) (start : Instant)
    (times : List Instant) : Prop where
  chain : (start :: times).IsChain (Instant.Apart d)
  entry : ∀ e, s.realm.triggers.find? t = some e → e.schedule = .every d ∧
    ∀ last ∈ (start :: times).getLast?, e.nextFire = last.after? d

theorem spaced_step {d : Duration} {start : Instant} {times : List Instant}
    (hStep : s.step e = some u) (hNew : t ∉ s.registrations e) (hKept : t ∉ s.reschedulings e)
    (h : s.Spaced t d start times) : u.Spaced t d start (times ++ s.dues t e) := by
  rcases dues_cases s e t with hNone | ⟨now, hNow⟩
  · rw [hNone, List.append_nil]
    refine ⟨h.chain, fun entry hFound => ?_⟩
    obtain ⟨before, hBefore, hMoves⟩ := moves_of_step hStep hNew hKept hFound
    rcases hMoves.next with ⟨-, hSame⟩ | ⟨now, hDue, -⟩
    · rw [hMoves.schedule, hSame]
      exact h.entry before hBefore
    · rw [hNone] at hDue
      cases hDue
  · rw [hNow]
    refine ⟨?_, fun entry hFound => ?_⟩
    · rw [← List.cons_append]
      refine List.isChain_append.mpr
        ⟨h.chain, List.isChain_singleton now, fun last hLast y hy => ?_⟩
      obtain rfl : now = y := by simpa using hy
      obtain ⟨first, hFirst, hDue⟩ := due_of_mem_dues (t := t) (hNow ▸ List.mem_singleton_self now)
      obtain ⟨time, hTime, hLe⟩ := TriggerEntry.isDue_iff.mp hDue
      rw [(h.entry first hFirst).2 last hLast] at hTime
      exact ⟨time, hTime, hLe⟩
    · obtain ⟨before, hBefore, hMoves⟩ := moves_of_step hStep hNew hKept hFound
      have hEvery := (h.entry before hBefore).1
      refine ⟨hMoves.schedule.trans hEvery, fun last hLast => ?_⟩
      rw [← List.cons_append, List.getLast?_concat] at hLast
      obtain rfl : now = last := Option.mem_some_iff.mp hLast
      rcases hMoves.next with ⟨hNone, -⟩ | ⟨time, hDue, -, hNext⟩
      · rw [hNow] at hNone
        cases hNone
      · obtain rfl : now = time := by simpa [hNow] using hDue
        rw [hNext, hEvery]
        rfl

theorem spaced_of_run {d : Duration} {start : Instant} (hMore : v.run more = some x)
    (hNew : t ∉ v.trail registrations more) (hKept : t ∉ v.trail reschedulings more)
    (h : v.Spaced t d start []) : x.Spaced t d start (v.trail (dues t) more) := by
  refine run_induction (motive := fun more x => t ∉ v.trail registrations more →
    t ∉ v.trail reschedulings more → x.Spaced t d start (v.trail (dues t) more))
    hMore (fun _ _ => h) ?_ hNew hKept
  intro before s e u hBefore hStep ih hNew hKept
  rw [trail_concat hBefore, List.mem_append, not_or] at hNew hKept
  rw [trail_concat hBefore]
  exact spaced_step hStep hNew.2 hKept.2 (ih hNew.1 hKept.1)

/-- No more runs of a trigger are made than intervals fit into the time since it was registered. -/
theorem spawned_le_of_spaced {d : Duration} {start last : Instant} {times : List Instant}
    {spawned : Nat} (h : s.Spaced t d start times) (hMade : spawned ≤ times.length)
    (hSome : (Schedule.every d).Sound) (hRegular : ∀ now ∈ start :: times, now.isLeap = false)
    (hLast : last.isLeap = false) (hUpTo : ∀ now ∈ times, now ≤ last) :
    spawned ≤ (last.nanosSince start).toNat / d.nanos :=
  Nat.le_trans hMade (Instant.length_le_div h.chain hRegular hLast hUpTo hSome)

/-- A trigger that is about to be put into the table was made when its registration began. -/
theorem pending_of_run {r : Realm δ} (hRun : (ofRealm r).run events = some u)
    (hAt : u.threads[i]? = some th) (hPending : th.pending? = some (t, entry)) :
    ∃ request schedule cue, .advance i cue ∈ events ∧ request.trigger = .recurring schedule ∧
      entry = .make request schedule cue.now := by
  refine run_induction (motive := fun events u => ∀ (i : Nat) (th : Thread δ),
    u.threads[i]? = some th → th.pending? = some (t, entry) →
      ∃ request schedule cue, .advance i cue ∈ events ∧ request.trigger = .recurring schedule ∧
        entry = .make request schedule cue.now) hRun ?_ ?_ i th hAt hPending
  · intro i th hAt
    cases hAt
  · intro before s e v _ hStep ih j x hx hPending
    have hOld : s.threads[j]? = some x → ∃ request schedule cue, .advance j cue ∈ before ++ [e] ∧
        request.trigger = .recurring schedule ∧ entry = .make request schedule cue.now := by
      intro hAt
      obtain ⟨request, schedule, cue, hMem, hMade⟩ := ih j x hAt hPending
      exact ⟨request, schedule, cue, List.mem_append_left _ hMem, hMade⟩
    cases e with
    | call call =>
      cases hStep
      rcases threads_of_call hx with hAt | ⟨-, rfl⟩
      · exact hOld hAt
      · cases hPending
    | sweep cutoff =>
      cases hStep
      exact hOld hx
    | advance i cue =>
      obtain ⟨th, r', th', crew, hAt, hThread, rfl⟩ := step_advance hStep
      rcases threads_of_advance hx with ⟨rfl, rfl⟩ | ⟨-, hAt⟩ | ⟨-, hMem⟩
      · obtain ⟨request, hEntry⟩ := Thread.pending_of_step hThread hPending
        obtain ⟨-, -, schedule, hTrigger, rfl⟩ := Registration.entry_eq_ok.mp hEntry
        exact ⟨request, schedule, cue, List.mem_append_right _ List.mem_cons_self, hTrigger, rfl⟩
      · exact hOld hAt
      · rcases Thread.crew_of_step hThread x hMem with rfl | rfl <;> cases hPending

/-- A trigger on an interval that has just been registered. -/
theorem spaced_of_registration {r : Realm δ} {request : JobRequest} {d : Duration}
    {start : Instant} (hRun : (ofRealm r).run events = some u) (hAt : u.threads[i]? = some th)
    (hPending : th.pending? = some (t, .make request (.every d) start))
    (hStep : u.step (.advance i cue) = some v) :
    v.Spaced t d start [] ∧ (v.gather Thread.undertakes).count t = 0 := by
  obtain ⟨r', th', crew, hThread, rfl⟩ := step_advance_at hAt hStep
  obtain ⟨hFree, rfl⟩ := Thread.insert_of_pending hPending hThread
  refine ⟨⟨List.isChain_singleton start, fun e hFound => ?_⟩, ?_⟩
  · rw [Triggers.find?_insert_self] at hFound
    cases hFound
    refine ⟨rfl, fun last hLast => ?_⟩
    obtain rfl : start = last := by simpa using hLast
    rfl
  · refine List.count_eq_zero.mpr fun hMem => ?_
    obtain ⟨x, hx, hUndertakes⟩ := List.mem_flatMap.mp hMem
    have hNot := patrols_eq_false_of_free (run_concat_of_run hRun hStep) hFree x hx
    rw [Thread.undertakes_eq_nil hNot] at hUndertakes
    cases hUndertakes

-- ---------------------------------------------------------------------------
-- The cadence of all triggers
-- ---------------------------------------------------------------------------

/-- Do triggers fire no more often than their schedules say, in this system and in all that come
after it? -/
structure Paced (events : List Event) (u : System δ) : Prop where
  /-- A pass makes at most one run of a trigger. One that is due moves on to its next time, whether
  a run was made of it or not, and one that is not is left alone. -/
  passed : ∀ (i : Nat) now v more x, u.Pass i now v more x →
    (∀ t, spawnedBy t (v.trail admissions more) ≤ 1) ∧
      ∀ t e, u.realm.triggers.find? t = some e →
        ∃ e', x.realm.triggers.find? t = some e' ∧ e.Fired now e'
  /-- Every trigger is on a schedule that a call asked for. -/
  asked : ∀ t e, u.realm.triggers.find? t = some e →
    e.schedule ∈ events.flatMap Event.schedules
  /-- Every trigger is on a sound schedule if callers hand over none but checked ones. -/
  sound : (∀ schedule ∈ events.flatMap Event.handed, schedule.Checked) →
    ∀ t e, u.realm.triggers.find? t = some e → e.schedule.Sound
  /-- A trigger on a sound schedule is not due at the time of a pass when it is over, and another
  pass by that time or an earlier one leaves it alone, unless somebody else changed it. -/
  settled : ∀ (i : Nat) now v more x, u.Pass i now v more x →
    ∀ t e, x.realm.triggers.find? t = some e → e.schedule.Sound →
      e.isDue now = false ∧
        ∀ between y (j : Nat) earlier v' more' z, x.run between = some y →
          y.realm.triggers.find? t = some e → y.Pass j earlier v' more' z → earlier ≤ now →
            z.realm.triggers.find? t = some e
  /-- With none but sound schedules no trigger is due at the time of a pass when it is over, and
  another pass by that time or an earlier one changes nothing, unless the table was changed in
  between. -/
  collapsed : ∀ (i : Nat) now v more x, u.Pass i now v more x →
    (∀ t e, u.realm.triggers.find? t = some e → e.schedule.Sound) →
      x.realm.triggers.Quiet now ∧
        ∀ between y (j : Nat) earlier v' more' z, x.run between = some y →
          y.realm.triggers = x.realm.triggers → y.Pass j earlier v' more' z → earlier ≤ now →
            y.Idle j v' more' z
  /-- A trigger without a next time never fires again. -/
  ended : ∀ t e more x, u.realm.triggers.find? t = some e → e.nextFire = none →
    (∀ th ∈ u.threads, th.trigger? ≠ some t) → u.run more = some x →
      t ∉ u.trail registrations more → t ∉ u.trail reschedulings more →
        u.trail (dues t) more = [] ∧ spawnedBy t (u.trail admissions more) = 0
  /-- A trigger is registered as one that was made when its registration began. -/
  registered : ∀ (j : Nat) th t entry, u.threads[j]? = some th → th.pending? = some (t, entry) →
    ∃ request schedule cue, .advance j cue ∈ events ∧ request.trigger = .recurring schedule ∧
      entry = .make request schedule cue.now
  /-- From its registration on, the passes that find a trigger on an interval due lie at least the
  interval apart. No more runs of it are made by a time than intervals fit in until then. -/
  spaced : ∀ (j : Nat) th t request d start cue v more x, u.threads[j]? = some th →
    th.pending? = some (t, .make request (.every d) start) →
      u.step (.advance j cue) = some v → v.run more = some x →
        t ∉ v.trail registrations more → t ∉ v.trail reschedulings more →
          (start :: v.trail (dues t) more).IsChain (Instant.Apart d) ∧
            spawnedBy t (v.trail admissions more) ≤ (v.trail (dues t) more).length ∧
            ∀ last, (Schedule.every d).Sound → last.isLeap = false →
              (∀ now ∈ start :: v.trail (dues t) more, now.isLeap = false) →
                (∀ now ∈ v.trail (dues t) more, now ≤ last) →
                  spawnedBy t (v.trail admissions more) ≤
                    (last.nanosSince start).toNat / d.nanos

/-- However a run goes, triggers fire no more often than their schedules say. -/
theorem paced_of_run (hRun : (initial settings registry store).run events = some u) :
    u.Paced events where
  passed i now v more x hPass := by
    exact ⟨spawnedBy_of_pass hRun hPass, fun t e hFound => fired_of_pass hRun hPass hFound⟩
  asked t e hFound := scheduled_of_run hRun hFound
  sound hHanded t e hFound := soundly_scheduled_of_run hRun hHanded hFound
  settled i now v more x hPass t e hFound hSound := by
    have hEarly := not_due_of_pass hRun hPass hFound hSound
    refine ⟨hEarly, fun between y j earlier v' more' z hBetween hSame hAgain hEarlier => ?_⟩
    obtain ⟨upTo, hUpTo⟩ := hPass.run_through hRun hBetween
    exact kept_of_pass hUpTo hAgain hSame (TriggerEntry.isDue_eq_false_mono hEarlier hEarly)
  collapsed i now v more x hPass hSound := by
    have hQuiet := quiet_of_pass hRun hPass hSound
    refine ⟨hQuiet, fun between y j earlier v' more' z hBetween hSame hAgain hEarlier => ?_⟩
    obtain ⟨upTo, hUpTo⟩ := hPass.run_through hRun hBetween
    rw [← hSame] at hQuiet
    exact idle_of_quiet hUpTo hAgain (hQuiet.mono hEarlier)
  ended t e more x hFound hEnded hIdle hMore hNew hKept := by
    refine ended_of_run hRun hMore (fun entry hEntry => ?_) hIdle hNew hKept
    cases hFound.symm.trans hEntry
    exact hEnded
  registered j th t entry hAt hPending := pending_of_run hRun hAt hPending
  spaced j th t request d start cue v more x hAt hPending hStep hMore hNew hKept := by
    obtain ⟨hStart, hApart⟩ := spaced_of_registration hRun hAt hPending hStep
    have hSpaced := spaced_of_run hMore hNew hKept hStart
    have hMade := spawnedBy_of_run (run_concat_of_run hRun hStep) hMore t
    rw [hApart, Nat.zero_add] at hMade
    have hSpawned := Nat.le_of_add_right_le hMade
    exact ⟨hSpaced.chain, hSpawned, fun last hSound hLast hRegular hUpTo =>
      spawned_le_of_spaced hSpaced hSpawned hSound hRegular hLast hUpTo⟩

/-- A realm with one worker, that knows one job. -/
def oneWorker : System Unit :=
  initial { workers := 1 } ⟨Dict.empty.insert "job" ()⟩ Store.empty

/-- What a step finds at that time. The identifier that it may draw is a number. -/
def cueAt (now : Instant) (n : Nat) : Cue :=
  { now, fresh := ⟨BitVec.ofNat 128 n⟩ }

/-- Steps of one thread at one time. The identifiers that they draw count from `first` on. -/
def stepsAt (i : Nat) (now : Instant) (first count : Nat) : List Event :=
  (List.range' first count).map fun n => .advance i (cueAt now n)

/-- A realm is started, and a trigger on that schedule is about to be put into its table. -/
def registering (schedule : Schedule) (start : Instant) : List Event :=
  let request : JobRequest :=
    { jobKey := "job", name := "job", group := none, arguments := Dict.empty,
      metadata := Dict.empty, constraints := [], retryPolicy := none,
      trigger := .recurring schedule }
  .call .start :: stepsAt 0 start 1 5 ++ .call (.schedule request) :: stepsAt 3 start 6 2

/-- It is put there. A first pass comes too early for a trigger on ten seconds, a late one makes a
run of it, and the next one finds that the run still waits. -/
def ticking : List Event :=
  stepsAt 3 ⟨8, 0⟩ 8 1 ++ stepsAt 2 ⟨9, 0⟩ 9 4 ++ stepsAt 2 ⟨20, 0⟩ 13 10 ++ stepsAt 2 ⟨31, 0⟩ 23 6

theorem paced_of_run_late :
    ∃ u : System Unit,
      oneWorker.run (registering (.every (.ofSeconds 10)) ⟨7, 0⟩) = some u ∧
      u.threads.filterMap (fun th => th.pending?.map fun x => (x.1, x.2.nextFire)) =
        [(⟨⟨7⟩⟩, some ⟨17, 0⟩)] ∧
      u.trail (dues ⟨⟨7⟩⟩) ticking = [⟨20, 0⟩, ⟨31, 0⟩] ∧
      spawnedBy ⟨⟨7⟩⟩ (u.trail admissions ticking) = 1 ∧
      u.Paced (registering (.every (.ofSeconds 10)) ⟨7, 0⟩) := by
  have hSeen : (oneWorker.run (registering (.every (.ofSeconds 10)) ⟨7, 0⟩)).map (fun u =>
        (u.threads.filterMap fun th => th.pending?.map fun x => (x.1, x.2.nextFire),
          u.trail (dues ⟨⟨7⟩⟩) ticking, spawnedBy ⟨⟨7⟩⟩ (u.trail admissions ticking))) =
      some ([(⟨⟨7⟩⟩, some ⟨17, 0⟩)], [⟨20, 0⟩, ⟨31, 0⟩], 1) := by
    decide +kernel
  obtain ⟨u, hRun, hEq⟩ := Option.map_eq_some_iff.mp hSeen
  obtain ⟨hPending, hTicks⟩ := Prod.mk.inj hEq
  obtain ⟨hDues, hMade⟩ := Prod.mk.inj hTicks
  exact ⟨u, hRun, hPending, hDues, hMade, paced_of_run hRun⟩

/-- A trigger without a next time is put on another schedule, and a pass comes when it is due. -/
def reviving : List Event :=
  .call (.reschedule ⟨⟨7⟩⟩ (.every (.ofSeconds 1))) :: stepsAt 4 ⟨9, 0⟩ 9 1 ++
    stepsAt 2 ⟨10, 0⟩ 10 9

/-- A pass in a leap second makes a run, which a worker finishes. The second pass comes when that
second is over. -/
def leaping : List Event :=
  stepsAt 2 ⟨59, 1000000000⟩ 9 10 ++ stepsAt 1 ⟨59, 1000000000⟩ 19 10 ++ stepsAt 2 ⟨60, 0⟩ 29 10

/-- Some triggers fire out of time. One on an empty interval is still due after a pass, and a second
pass at the same time comes to it again. One without a next time fires when it was put on another
schedule. And one on a second makes two runs in little more than one, if a pass falls into a leap
second: the time from one instant to another does not count it. -/
theorem fires_out_of_time :
    (∃ u v x y v' z : System Unit,
      oneWorker.run (registering (.every ⟨0⟩) ⟨7, 0⟩ ++ stepsAt 3 ⟨8, 0⟩ 8 1 ++
        stepsAt 2 ⟨9, 0⟩ 9 1) = some u ∧
      u.Pass 2 ⟨9, 0⟩ v (stepsAt 2 ⟨9, 0⟩ 11 7) x ∧
      (x.realm.triggers.find? ⟨⟨7⟩⟩).map (·.isDue ⟨9, 0⟩) = some true ∧
      x.run (stepsAt 2 ⟨9, 0⟩ 18 2) = some y ∧
      y.realm.triggers.infos = x.realm.triggers.infos ∧
      y.Pass 2 ⟨9, 0⟩ v' (stepsAt 2 ⟨9, 0⟩ 21 3) z ∧
      z.realm.triggers.infos ≠ y.realm.triggers.infos) ∧
    (∃ u x : System Unit,
      oneWorker.run (registering (.every ⟨Duration.longestStep.nanos + 1⟩) ⟨7, 0⟩ ++
        stepsAt 3 ⟨8, 0⟩ 8 1) = some u ∧
      (u.realm.triggers.find? ⟨⟨7⟩⟩).map (·.nextFire) = some none ∧
      u.run reviving = some x ∧
      u.trail registrations reviving = [] ∧
      spawnedBy ⟨⟨7⟩⟩ (u.trail admissions reviving) = 1) ∧
    ∃ u x : System Unit,
      oneWorker.run (registering (.every (.ofSeconds 1)) ⟨58, 900000000⟩ ++
        stepsAt 3 ⟨59, 0⟩ 8 1) = some u ∧
      u.run leaping = some x ∧
      u.trail (dues ⟨⟨7⟩⟩) leaping = [⟨59, 1000000000⟩, ⟨60, 0⟩] ∧
      spawnedBy ⟨⟨7⟩⟩ (u.trail admissions leaping) = 2 ∧
      (Instant.nanosSince ⟨60, 0⟩ ⟨58, 900000000⟩).toNat / (Duration.ofSeconds 1).nanos = 1 := by
  refine ⟨?_, ?_, ?_⟩
  · have hSeen : (do
        let u ← oneWorker.run (registering (.every ⟨0⟩) ⟨7, 0⟩ ++ stepsAt 3 ⟨8, 0⟩ 8 1 ++
          stepsAt 2 ⟨9, 0⟩ 9 1)
        let (_, x) ← u.pass? 2 (cueAt ⟨9, 0⟩ 10) ⟨9, 0⟩ (stepsAt 2 ⟨9, 0⟩ 11 7)
        let y ← x.run (stepsAt 2 ⟨9, 0⟩ 18 2)
        let (_, z) ← y.pass? 2 (cueAt ⟨9, 0⟩ 20) ⟨9, 0⟩ (stepsAt 2 ⟨9, 0⟩ 21 3)
        return ((x.realm.triggers.find? ⟨⟨7⟩⟩).map (·.isDue ⟨9, 0⟩),
          decide (y.realm.triggers.infos = x.realm.triggers.infos),
          decide (z.realm.triggers.infos = y.realm.triggers.infos))) =
        some (some true, true, false) := by
      decide +kernel
    obtain ⟨u, hRun, hSeen⟩ := Option.bind_eq_some_iff.mp hSeen
    obtain ⟨⟨v, x⟩, hPass, hSeen⟩ := Option.bind_eq_some_iff.mp hSeen
    obtain ⟨y, hBetween, hSeen⟩ := Option.bind_eq_some_iff.mp hSeen
    obtain ⟨⟨v', z⟩, hAgain, hSeen⟩ := Option.bind_eq_some_iff.mp hSeen
    obtain ⟨hDue, hSeen⟩ := Prod.mk.inj (Option.some.inj hSeen)
    obtain ⟨hKept, hChanged⟩ := Prod.mk.inj hSeen
    exact ⟨u, v, x, y, v', z, hRun, pass_of_pass? hPass, hDue, hBetween,
      of_decide_eq_true hKept, pass_of_pass? hAgain, of_decide_eq_false hChanged⟩
  · have hSeen : (do
        let u ← oneWorker.run (registering (.every ⟨Duration.longestStep.nanos + 1⟩) ⟨7, 0⟩ ++
          stepsAt 3 ⟨8, 0⟩ 8 1)
        let _ ← u.run reviving
        return ((u.realm.triggers.find? ⟨⟨7⟩⟩).map (·.nextFire), u.trail registrations reviving,
          spawnedBy ⟨⟨7⟩⟩ (u.trail admissions reviving))) = some (some none, [], 1) := by
      decide +kernel
    obtain ⟨u, hRun, hSeen⟩ := Option.bind_eq_some_iff.mp hSeen
    obtain ⟨x, hMore, hSeen⟩ := Option.bind_eq_some_iff.mp hSeen
    obtain ⟨hEnded, hSeen⟩ := Prod.mk.inj (Option.some.inj hSeen)
    obtain ⟨hNew, hMade⟩ := Prod.mk.inj hSeen
    exact ⟨u, x, hRun, hEnded, hMore, hNew, hMade⟩
  · have hSeen : (do
        let u ← oneWorker.run (registering (.every (.ofSeconds 1)) ⟨58, 900000000⟩ ++
          stepsAt 3 ⟨59, 0⟩ 8 1)
        let _ ← u.run leaping
        return (u.trail (dues ⟨⟨7⟩⟩) leaping, spawnedBy ⟨⟨7⟩⟩ (u.trail admissions leaping))) =
        some ([⟨59, 1000000000⟩, ⟨60, 0⟩], 2) := by
      decide +kernel
    obtain ⟨u, hRun, hSeen⟩ := Option.bind_eq_some_iff.mp hSeen
    obtain ⟨x, hMore, hSeen⟩ := Option.bind_eq_some_iff.mp hSeen
    obtain ⟨hDues, hMade⟩ := Prod.mk.inj (Option.some.inj hSeen)
    exact ⟨u, x, hRun, hMore, hDues, hMade, by decide⟩

end System

end BackgroundJobs
