import BackgroundJobs.Proofs.Realm.Recurrence

/-!
# Proofs — triggers that are found due

When the timer comes to a trigger that is due, the trigger moves on to its next
time, and only then is a run made of it, or none. So the runs of a trigger are
no more than the times at which it was found due.

Main results:

* `Thread.Edit.origin` — where a trigger in the table comes from.
* `moves_of_step`      — what an event does to the next time of a trigger.
* `spawnedBy_of_run`   — how many runs are made of a trigger.
-/

namespace BackgroundJobs

variable {δ : Type} {cue : Cue} {r r' : Realm δ} {th th' : Thread δ} {crew : List (Thread δ)}
  {t : TriggerId} {now : Instant}

-- ---------------------------------------------------------------------------
-- Firings
-- ---------------------------------------------------------------------------

/-- The trigger that the timer comes to next, and the time that it goes by. -/
def Timer.comes? : Timer → Option (Instant × TriggerId)
  | .passing now (id :: _) => some (now, id)
  | _ => none

def Thread.comes? : Thread δ → Option (Instant × TriggerId)
  | .timer w => w.comes?
  | _ => none

/-- The trigger of which the timer may still make a run before it goes on to the next one. -/
def Timer.undertakes : Timer → List TriggerId
  | .checking _ id _ _ => [id]
  | .firing _ id _ _ point =>
    match point with
    | .waiting | .checking | .creating _ => [id]
    | .queueing _ | .counting _ => []
  | _ => []

def Thread.undertakes : Thread δ → List TriggerId
  | .timer w => w.undertakes
  | _ => []

theorem Thread.patrols_of_comes? {x : Instant × TriggerId} (h : th.comes? = some x) :
    th.patrols = true := by
  cases th with
  | timer w => cases w <;> first | rfl | cases h
  | caller | worker | answered => cases h

theorem Thread.undertakes_eq_nil (h : th.patrols = false) : th.undertakes = [] := by
  cases th with
  | timer w => cases w <;> first | rfl | cases h
  | caller | worker | answered => rfl

theorem Thread.trigger?_of_undertakes (h : t ∈ th.undertakes) : th.trigger? = some t := by
  cases th with
  | timer w =>
    cases w with
    | checking now id last rest =>
      rw [List.mem_singleton.mp h]
      rfl
    | firing now id rest a point =>
      cases point with
      | waiting | checking | creating =>
        rw [List.mem_singleton.mp h]
        rfl
      | queueing | counting => cases h
    | resting | waiting | passing | noting | retired => cases h
  | caller | worker | answered => cases h

/-- The timer takes a trigger on only when it comes to it and finds it due. -/
theorem Timer.undertakes_step {w w' : Timer} (h : w.step cue r = some (r', w')) :
    w'.undertakes.Sublist w.undertakes ∨ ∃ now id rest e, w = .passing now (id :: rest) ∧
      r.triggers.find? id = some e ∧ e.isDue now = true ∧ w'.undertakes.Sublist [id] := by
  have hFire : ∀ (r : Realm δ) now id rest e,
      (fire cue r now id rest e).undertakes.Sublist [id] := by
    intro r now id rest e
    unfold fire
    split
    · exact List.Sublist.refl _
    · exact List.nil_sublist _
  cases w with
  | resting =>
    cases h
    left
    split <;> exact List.Sublist.refl _
  | waiting now =>
    simp only [step] at h
    split at h <;> cases h
    exact .inl (List.Sublist.refl _)
  | passing now rest =>
    cases rest with
    | nil =>
      cases h
      exact .inl (List.Sublist.refl _)
    | cons id rest =>
      simp only [step] at h
      split at h
      · cases h
        exact .inl (List.Sublist.refl _)
      · next e hFound =>
        split at h
        · next hDue =>
          refine .inr ⟨now, id, rest, e, rfl, hFound, hDue, ?_⟩
          split at h <;> cases h
          · exact List.Sublist.refl _
          · exact hFire ..
        · cases h
          exact .inl (List.Sublist.refl _)
  | checking now id last rest =>
    simp only [step] at h
    split at h <;> cases h
    · exact .inl (hFire ..)
    · exact .inl (List.nil_sublist _)
  | firing now id rest a point =>
    obtain ⟨⟨r₁, p⟩, hStep, hEq⟩ := Option.map_eq_some_iff.mp h
    left
    cases p with
    | done result => cases result <;> cases hEq <;> exact List.nil_sublist _
    | «at» next =>
      cases hEq
      cases point with
      | waiting | checking | creating record => cases next <;> simp [undertakes]
      | queueing record =>
        cases hStep
        exact List.nil_sublist _
      | counting record => cases hStep
  | noting now id rest made =>
    cases made <;> cases h <;> exact .inl (List.nil_sublist _)
  | retired => cases h

/-- Where a trigger comes from when someone other than the timer has changed the table: it was there
before, it was registered, or it was put on another schedule. -/
theorem Thread.Edit.origin {entry : TriggerEntry} (h : Thread.Edit cue r r' th th')
    (hFound : r'.triggers.find? t = some entry) :
    r.triggers.find? t = some entry ∨ th.pending? = some (t, entry) ∨
      ∃ times before, th = .caller (.made (.reschedule t times)) ∧
        r.triggers.find? t = some before ∧ entry = before.reschedule times cue.now := by
  cases h with
  | leaves same => exact .inl (same.1 ▸ hFound)
  | begins now free held table => exact .inl (table ▸ hFound)
  | inserts id other before free held after table =>
    by_cases hId : t = id
    · subst hId
      rw [table, Triggers.find?_insert_self] at hFound
      cases hFound
      exact .inr (.inl before)
    · rw [table, Triggers.find?_insert_of_ne hId] at hFound
      exact .inl hFound
  | reschedules id before times found free held after table asked =>
    by_cases hId : t = id
    · subst hId
      rw [table, Triggers.find?_modify_self, found] at hFound
      cases hFound
      exact .inr (.inr ⟨times, before, asked, found, rfl⟩)
    · rw [table, Triggers.find?_modify_of_ne hId] at hFound
      exact .inl hFound
  | drops id free held after table =>
    rw [table, Triggers.find?_erase] at hFound
    split at hFound
    · cases hFound
    · exact .inl hFound

namespace System

variable {s u v x y : System δ} {e : Event} {events more : List Event} {settings : RealmSettings}
  {registry : Registry δ} {store : Store} {i : Nat} {w w' : Timer} {entry : TriggerEntry}

/-- The times of the passes that find a trigger due. -/
def dues (t : TriggerId) (s : System δ) : Event → List Instant
  | .advance i _ =>
    match s.threads[i]?.bind (·.comes?) with
    | some (now, id) =>
      if id = t ∧ (s.realm.triggers.find? t).any (·.isDue now) = true then [now] else []
    | none => []
  | _ => []

/-- The triggers that an event puts on another schedule. -/
def reschedulings (s : System δ) : Event → List TriggerId
  | .advance i _ =>
    match s.threads[i]? with
    | some (.caller (.made (.reschedule id _))) => [id]
    | _ => []
  | _ => []

theorem dues_of_apart (hAt : s.threads[i]? = some th) (hApart : th.comes? = none) :
    s.dues t (.advance i cue) = [] := by
  simp [dues, hAt, hApart]

theorem dues_of_due {id : TriggerId} {rest : List TriggerId}
    (hAt : s.threads[i]? = some (.timer (.passing now (id :: rest))))
    (hFound : s.realm.triggers.find? id = some entry) (hDue : entry.isDue now = true) :
    s.dues t (.advance i cue) = if id = t then [now] else [] := by
  by_cases hId : id = t
  · subst hId
    simp [dues, hAt, Thread.comes?, Timer.comes?, hFound, hDue]
  · simp [dues, hAt, Thread.comes?, Timer.comes?, hId]

theorem dues_cases (s : System δ) (e : Event) (t : TriggerId) :
    s.dues t e = [] ∨ ∃ now, s.dues t e = [now] := by
  cases e with
  | call call => exact .inl rfl
  | sweep cutoff => exact .inl rfl
  | advance i cue =>
    simp only [dues]
    split
    · split
      · exact .inr ⟨_, rfl⟩
      · exact .inl rfl
    · exact .inl rfl

/-- A trigger that is found due is in the table, and its time has come. -/
theorem due_of_mem_dues (h : now ∈ s.dues t e) :
    ∃ entry, s.realm.triggers.find? t = some entry ∧ entry.isDue now = true := by
  cases e with
  | call call => cases h
  | sweep cutoff => cases h
  | advance i cue =>
    simp only [dues] at h
    split at h
    · split at h
      · next hDue =>
        obtain rfl := List.mem_singleton.mp h
        exact (Option.any_eq_true _ _).mp hDue.2
      · cases h
    · cases h

/-- Is this what an event makes of the times of a trigger? A firing moves it on, and no other event
does. -/
structure Moves (s : System δ) (e : Event) (t : TriggerId) (before after : TriggerEntry) :
    Prop where
  schedule : after.schedule = before.schedule
  next : (s.dues t e = [] ∧ after.nextFire = before.nextFire) ∨
    ∃ now, s.dues t e = [now] ∧ before.isDue now = true ∧
      after.nextFire = before.schedule.next? now

theorem Moves.of_same (hNone : s.dues t e = []) {after : TriggerEntry}
    (hSchedule : after.schedule = entry.schedule) (hNext : after.nextFire = entry.nextFire) :
    s.Moves e t entry after :=
  ⟨hSchedule, .inl ⟨hNone, hNext⟩⟩

/-- Anyone but the timer leaves the times of a trigger alone, unless the trigger is registered anew
or put on another schedule. -/
theorem moves_of_edit (hAt : s.threads[i]? = some th) (hPatrols : th.patrols = false)
    (hThread : th.step cue s.realm = some (r', th', crew))
    (hNew : t ∉ s.registrations (.advance i cue)) (hKept : t ∉ s.reschedulings (.advance i cue))
    (hFound : r'.triggers.find? t = some entry) :
    ∃ before, s.realm.triggers.find? t = some before ∧ s.Moves (.advance i cue) t before entry := by
  have hApart : th.comes? = none := by
    by_contra hComes
    obtain ⟨x, hx⟩ := Option.ne_none_iff_exists'.mp hComes
    rw [Thread.patrols_of_comes? hx] at hPatrols
    cases hPatrols
  rcases (Thread.edit_of_step hPatrols hThread).origin hFound with
    hBefore | hPending | ⟨times, _, rfl, -, -⟩
  · exact ⟨entry, hBefore, .of_same (dues_of_apart hAt hApart) rfl rfl⟩
  · exact absurd (by simp [registrations, hAt, hPending]) hNew
  · exact absurd (by simp [reschedulings, hAt]) hKept

/-- The timer moves on the trigger that it finds due. -/
theorem moves_of_stride (hAt : s.threads[i]? = some (.timer w)) (hLocked : w.locked = true)
    (hTimer : w.step cue s.realm = some (r', w')) (hFound : r'.triggers.find? t = some entry) :
    ∃ before, s.realm.triggers.find? t = some before ∧ s.Moves (.advance i cue) t before entry := by
  cases Timer.stride_of_step hLocked hTimer with
  | ends now before after free table =>
    subst before
    exact ⟨entry, table ▸ hFound, .of_same (dues_of_apart hAt rfl) rfl rfl⟩
  | passes now id rest before after early same =>
    subst before
    have hEarly : ¬(id = t ∧ (s.realm.triggers.find? t).any (·.isDue now) = true) := by
      rintro ⟨rfl, hDue⟩
      obtain ⟨found, hFound', hTime⟩ := (Option.any_eq_true _ _).mp hDue
      rw [early found hFound'] at hTime
      cases hTime
    have hNone : s.dues t (.advance i cue) = [] := by
      simp only [dues, hAt, Option.bind_some, Thread.comes?, Timer.comes?, if_neg hEarly]
    exact ⟨entry, same.1 ▸ hFound, .of_same hNone rfl rfl⟩
  | comes now id rest first before after found due held table =>
    subst before
    have hDues : s.dues t (.advance i cue) = if id = t then [now] else [] :=
      dues_of_due hAt found due
    by_cases hId : id = t
    · subst hId
      rw [if_pos rfl] at hDues
      rw [table, Triggers.find?_modify_self, found] at hFound
      cases hFound
      exact ⟨first, found, ⟨rfl, .inr ⟨now, hDues, due, rfl⟩⟩⟩
    · rw [if_neg hId] at hDues
      rw [table, Triggers.find?_modify_of_ne (Ne.symm hId)] at hFound
      exact ⟨entry, hFound, .of_same hDues rfl rfl⟩
  | works now id rest before after same =>
    have hApart : (Thread.timer w : Thread δ).comes? = none := by
      cases w <;> first | rfl | cases before
    exact ⟨entry, same.1 ▸ hFound, .of_same (dues_of_apart hAt hApart) rfl rfl⟩
  | notes now id rest made before after held table =>
    subst before
    have hNone : s.dues t (.advance i cue) = [] := dues_of_apart hAt rfl
    rw [table, Triggers.find?_modify] at hFound
    split at hFound
    · obtain ⟨before, hBefore, rfl⟩ := Option.map_eq_some_iff.mp hFound
      exact ⟨before, hBefore, .of_same hNone (by cases made <;> rfl) (by cases made <;> rfl)⟩
    · exact ⟨entry, hFound, .of_same hNone rfl rfl⟩

theorem moves_of_step (hStep : s.step e = some u) (hNew : t ∉ s.registrations e)
    (hKept : t ∉ s.reschedulings e) (hFound : u.realm.triggers.find? t = some entry) :
    ∃ before, s.realm.triggers.find? t = some before ∧ s.Moves e t before entry := by
  cases e with
  | call call =>
    cases hStep
    exact ⟨entry, hFound, .of_same rfl rfl rfl⟩
  | sweep cutoff =>
    cases hStep
    exact ⟨entry, hFound, .of_same rfl rfl rfl⟩
  | advance i cue =>
    obtain ⟨th, r', th', crew, hAt, hThread, rfl⟩ := step_advance hStep
    cases hPatrols : th.patrols with
    | false => exact moves_of_edit hAt hPatrols hThread hNew hKept hFound
    | true =>
      obtain ⟨w, rfl, hLocked⟩ := Thread.timer_of_patrols hPatrols
      obtain ⟨w', hTimer, -⟩ := Thread.step_timer hThread
      exact moves_of_stride hAt hLocked hTimer hFound

-- ---------------------------------------------------------------------------
-- Runs that are made of firings
-- ---------------------------------------------------------------------------

/-- The step of the timer that makes a run. -/
theorem spawnedBy_creating {rest : List TriggerId} {a : Admission} {record : JobRecord}
    {id : TriggerId}
    (hAt : s.threads[i]? = some (.timer (.firing now id rest a (.creating record))))
    (hTimer : (Timer.firing now id rest a (.creating record)).step cue s.realm = some (r', w'))
    (hBound : ∀ x ∈ s.admissions (.advance i cue), x.2.triggerId = some id) :
    spawnedBy t (s.admissions (.advance i cue)) + w'.undertakes.count t ≤ [id].count t := by
  obtain ⟨⟨r₁, p⟩, hStep, hEq⟩ := Option.map_eq_some_iff.mp hTimer
  simp only [Admission.step] at hStep
  split at hStep
  · next hTold =>
    cases hStep
    cases hEq
    have hMade : s.admissions (.advance i cue) = [(a, record)] := by
      simp [admissions, hAt, Thread.admission?, hTold]
    have hTrigger : record.triggerId = some id :=
      hBound (a, record) (by rw [hMade]; exact List.mem_cons_self)
    simp [hMade, spawnedBy, hTrigger, Timer.undertakes, List.count_singleton]
  · next hTold =>
    cases hStep
    cases hEq
    have hNone : s.admissions (.advance i cue) = [] := by
      simp [admissions, hAt, Thread.admission?, hTold]
    simp [hNone, spawnedBy, Timer.undertakes]

/-- The timer makes a run of a trigger only after it has found it due, and no more than one. -/
theorem spawnedBy_stride (hAt : s.threads[i]? = some (.timer w))
    (hTimer : w.step cue s.realm = some (r', w'))
    (hBound : ∀ x ∈ s.admissions (.advance i cue), x.2.triggerId = w.trigger?) :
    spawnedBy t (s.admissions (.advance i cue)) + w'.undertakes.count t ≤
      w.undertakes.count t + (s.dues t (.advance i cue)).length := by
  by_cases hCreating : ∃ now id rest a record, w = .firing now id rest a (.creating record)
  · obtain ⟨now, id, rest, a, record, rfl⟩ := hCreating
    have hOne := spawnedBy_creating (t := t) hAt hTimer hBound
    exact Nat.le_add_right_of_le hOne
  · have hNone : s.admissions (.advance i cue) = [] := by
      cases w with
      | firing now id rest a point =>
        cases point with
        | creating record => exact absurd ⟨now, id, rest, a, record, rfl⟩ hCreating
        | waiting | checking | queueing | counting => simp [admissions, hAt, Thread.admission?]
      | resting | waiting | passing | checking | noting | retired =>
        simp [admissions, hAt, Thread.admission?]
    rw [hNone, spawnedBy, List.countP_nil, Nat.zero_add]
    rcases Timer.undertakes_step hTimer with hFewer | ⟨now, id, rest, e, rfl, hFound, hDue, hOne⟩
    · exact Nat.le_add_right_of_le (hFewer.count_le t)
    · have hDues : (s.dues t (.advance i cue)).length = [id].count t := by
        rw [dues_of_due hAt hFound hDue, List.count_singleton]
        by_cases hId : id = t <;> simp [hId]
      rw [hDues]
      exact Nat.le_add_left_of_le (hOne.count_le t)


/-- Only the timer makes runs of triggers. -/
theorem spawnedBy_advance {r : Realm δ} (hRun : (ofRealm r).run events = some s)
    (hAt : s.threads[i]? = some th) (hThread : th.step cue s.realm = some (r', th', crew)) :
    spawnedBy t (s.admissions (.advance i cue)) + th'.undertakes.count t ≤
      th.undertakes.count t + (s.dues t (.advance i cue)).length := by
  have hBound : ∀ x ∈ s.admissions (.advance i cue), x.2.triggerId = th.trigger? := fun x hx =>
    triggerId_of_admissions hRun hAt hx
  have hOther : th.trigger? = none → spawnedBy t (s.admissions (.advance i cue)) = 0 := by
    intro hNone
    refine spawnedBy_eq_zero fun x hx hTrigger => ?_
    rw [hBound x hx, hNone] at hTrigger
    cases hTrigger
  cases th with
  | timer w =>
    obtain ⟨w', hTimer, rfl, -⟩ := Thread.step_timer hThread
    exact spawnedBy_stride hAt hTimer hBound
  | caller point =>
    rw [hOther rfl]
    rcases Thread.step_caller hThread with ⟨_, -, rfl, -⟩ | ⟨_, -, rfl, -⟩ <;> exact Nat.zero_le _
  | worker w =>
    obtain ⟨_, -, rfl, -⟩ := Thread.step_worker hThread
    rw [hOther rfl]
    exact Nat.zero_le _
  | answered answer => cases hThread

/-- In the course of a run no more runs of a trigger are made than it was found due, besides those
that were undertaken before. -/
theorem spawnedBy_of_run {r : Realm δ} (hRun : (ofRealm r).run events = some v)
    (hMore : v.run more = some x) (t : TriggerId) :
    spawnedBy t (v.trail admissions more) + (x.gather Thread.undertakes).count t ≤
      (v.gather Thread.undertakes).count t + (v.trail (dues t) more).length := by
  refine run_induction (motive := fun more x =>
    spawnedBy t (v.trail admissions more) + (x.gather Thread.undertakes).count t ≤
      (v.gather Thread.undertakes).count t + (v.trail (dues t) more).length)
    hMore (by simp [trail, spawnedBy]) ?_
  intro before s e u hBefore hStep ih
  have hUpTo : (ofRealm r).run (events ++ before) = some s := by
    rw [run_append_of_run hRun, hBefore]
  have hOne : spawnedBy t (s.admissions e) + (u.gather Thread.undertakes).count t ≤
      (s.gather Thread.undertakes).count t + (s.dues t e).length := by
    cases e with
    | call call =>
      rw [gather_of_call hStep rfl]
      simp [admissions, spawnedBy]
    | sweep cutoff =>
      cases hStep
      simp [admissions, spawnedBy, gather]
    | advance i cue =>
      obtain ⟨th, r', th', crew, hAt, hThread, rfl⟩ := step_advance hStep
      have hCrew : ∀ x ∈ crew, x.undertakes = [] := by
        intro x hx
        rcases Thread.crew_of_step hThread x hx with rfl | rfl <;> rfl
      obtain ⟨others, hOld, hNew⟩ := gather_of_advance hAt hCrew r' th'
      have hTurn := spawnedBy_advance (t := t) hUpTo hAt hThread
      rw [hOld.count_eq, hNew.count_eq, List.count_append, List.count_append]
      omega
  rw [trail_concat hBefore, trail_concat hBefore, spawnedBy, List.countP_append, ← spawnedBy,
    ← spawnedBy, List.length_append]
  omega

end System

end BackgroundJobs
