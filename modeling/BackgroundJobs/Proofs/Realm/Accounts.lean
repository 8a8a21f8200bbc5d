import BackgroundJobs.Proofs.Realm.Firing

/-!
# Proofs — the runs of a trigger

The timer makes a run of a trigger only if the last run that it made is over.
So the last run is the only one that may be active, and the others need not be
looked at. Between two passes of the timer the entry of a trigger tells which
run that is, and how many runs were made; in the course of a pass the timer may
know better.

Main results:

* `accounts_advance` — a step of the timer keeps its accounts.
* `tracks_of_run`    — what the table, the timer and the store say of the runs of a trigger.
-/

namespace BackgroundJobs

variable {δ : Type} {cue : Cue} {r r' : Realm δ} {th th' : Thread δ} {crew : List (Thread δ)}
  {t : TriggerId}

-- ---------------------------------------------------------------------------
-- What an entry says of its runs
-- ---------------------------------------------------------------------------

/-- Is no run of the trigger active but the given one? -/
def Store.Lone (s : Store) (t : TriggerId) (last : Option JobId) : Prop :=
  ∀ x ∈ s.records, x.isActive = true → x.triggerId = some t → last = some x.id

/-- How far the timer has come with a run of a trigger. -/
inductive Timer.Stage where
  /-- The entry of the trigger is up to date. -/
  | noted
  /-- The last run was found to be over. -/
  | clear
  /-- A run was made, and is not in the entry yet. -/
  | made (job : JobId)

def AdmissionPoint.stage : AdmissionPoint → Timer.Stage
  | .queueing record | .counting record => .made record.id
  | .waiting | .checking | .creating _ => .clear

def Timer.stage (t : TriggerId) : Timer → Stage
  | .firing _ id _ _ point => if id = t then point.stage else .noted
  | .noting _ id _ (some job) => if id = t then .made job else .noted
  | _ => .noted

/-- Does the entry of a trigger tell how many runs were made of it, and which one may be active? -/
def Timer.Stage.Agrees (t : TriggerId) (n : Nat) (e : TriggerEntry) (s : Store) : Stage → Prop
  | noted => e.spawned = n ∧ s.Lone t e.lastJob
  | clear => e.spawned = n ∧ s.Lone t none
  | made job => e.spawned + 1 = n ∧ s.Lone t (some job)

/-- The run that the timer is about to look up, and the trigger that it was made of. -/
def Timer.lookup? : Timer → Option (TriggerId × JobId)
  | .checking _ id last _ => some (id, last)
  | _ => none

/-- Does the entry of a trigger agree with the runs of it, and with what the timer has read? -/
structure Timer.Accounts (w : Timer) (t : TriggerId) (n : Nat) (e : TriggerEntry) (s : Store) :
    Prop where
  agrees : (w.stage t).Agrees t n e s
  last : ∀ last, w.lookup? = some (t, last) → e.lastJob = some last

section Accounts

variable {n : Nat} {e e' : TriggerEntry} {s s' : Store} {w w' : Timer} {last : Option JobId}

theorem Store.Lone.of_none (h : s.Lone t none) : s.Lone t last := by
  intro x hx hActive hTrigger
  cases h x hx hActive hTrigger

theorem Timer.Stage.Agrees.lone {stage : Timer.Stage} (h : stage.Agrees t n e s) :
    ∃ last, s.Lone t last := by
  cases stage with
  | noted | clear | made job => exact ⟨_, h.2⟩

/-- Only the count of an entry and its last run matter, and which runs are active. -/
theorem Timer.Stage.Agrees.imp {stage : Timer.Stage} (h : stage.Agrees t n e s)
    (hSpawned : e'.spawned = e.spawned) (hLast : e'.lastJob = e.lastJob)
    (hLone : ∀ last, s.Lone t last → s'.Lone t last) : stage.Agrees t n e' s' := by
  cases stage with
  | noted =>
    obtain ⟨hCount, hOld⟩ := h
    rw [← hSpawned] at hCount
    rw [← hLast] at hOld
    exact ⟨hCount, hLone _ hOld⟩
  | clear | made job =>
    obtain ⟨hCount, hOld⟩ := h
    rw [← hSpawned] at hCount
    exact ⟨hCount, hLone _ hOld⟩

theorem Timer.Accounts.imp (h : w.Accounts t n e s) (hSpawned : e'.spawned = e.spawned)
    (hLast : e'.lastJob = e.lastJob) (hLone : ∀ last, s.Lone t last → s'.Lone t last) :
    w.Accounts t n e' s' :=
  ⟨h.agrees.imp hSpawned hLast hLone,
    fun last hLookup => by rw [hLast, h.last last hLookup]⟩

/-- Only a timer that is about to look up a run has read something of an entry. -/
theorem Timer.Accounts.of_agrees (hApart : w.lookup? = none)
    (h : (w.stage t).Agrees t n e s) : w.Accounts t n e s :=
  ⟨h, fun last hLookup => by
    rw [hApart] at hLookup
    cases hLookup⟩

/-- A timer that has nothing in hand of a trigger leaves its entry to speak for itself. -/
theorem Timer.Accounts.of_noted (hStage : w.stage t = .noted) (hApart : w.lookup? = none)
    (hSpawned : e.spawned = n) (hLone : s.Lone t e.lastJob) : w.Accounts t n e s := by
  refine .of_agrees hApart ?_
  rw [hStage]
  exact ⟨hSpawned, hLone⟩

/-- The timer begins to make a run when none is active. -/
theorem Timer.accounts_fire {now : Instant} {id : TriggerId} {rest : List TriggerId}
    {e₀ : TriggerEntry} (hSpawned : e.spawned = n) (hLone : s.Lone t e.lastJob)
    (hClear : id = t → s.Lone t none) : (fire cue r now id rest e₀).Accounts t n e s := by
  unfold fire
  split
  · by_cases hId : id = t
    · refine .of_agrees rfl ?_
      rw [stage, if_pos hId]
      exact ⟨hSpawned, hClear hId⟩
    · exact .of_noted (by rw [stage, if_neg hId]) rfl hSpawned hLone
  · exact .of_noted rfl rfl hSpawned hLone

/-- A change of an entry that leaves alone its count and its last run. -/
theorem Triggers.find?_modify_of_same {table : Triggers} (hFound : table.find? t = some e)
    (id : TriggerId) (change : TriggerEntry → TriggerEntry)
    (hSpawned : ∀ e, (change e).spawned = e.spawned)
    (hLast : ∀ e, (change e).lastJob = e.lastJob) :
    ∃ e', (table.modify id change).find? t = some e' ∧ e'.spawned = e.spawned ∧
      e'.lastJob = e.lastJob := by
  rw [find?_modify, hFound]
  split
  · exact ⟨change e, rfl, hSpawned e, hLast e⟩
  · exact ⟨e, rfl, rfl, rfl⟩

/-- A step of the timer outside of an admission. -/
theorem Timer.accounts_step (hPlain : ∀ now id rest a point, w ≠ .firing now id rest a point)
    (h : w.step cue r = some (r', w')) (hFound : r.triggers.find? t = some e)
    (hOld : w.Accounts t n e r.store) :
    ∃ e', r'.triggers.find? t = some e' ∧ w'.Accounts t n e' r'.store := by
  cases w with
  | resting =>
    cases h
    refine ⟨e, hFound, .of_noted ?_ ?_ hOld.agrees.1 hOld.agrees.2⟩
    · split <;> rfl
    · split <;> rfl
  | waiting now =>
    simp only [step] at h
    split at h <;> cases h
    exact ⟨e, hFound, .of_noted rfl rfl hOld.agrees.1 hOld.agrees.2⟩
  | passing now rest =>
    cases rest with
    | nil =>
      cases h
      exact ⟨e, hFound, .of_noted rfl rfl hOld.agrees.1 hOld.agrees.2⟩
    | cons id rest =>
      obtain ⟨hSpawned, hLone⟩ := hOld.agrees
      simp only [step] at h
      split at h
      · cases h
        exact ⟨e, hFound, .of_noted rfl rfl hSpawned hLone⟩
      · next e₀ hAt =>
        split at h
        · obtain ⟨e', hFound', hSpawned', hLast'⟩ := Triggers.find?_modify_of_same
            hFound id (·.advance now) (fun _ => rfl) fun _ => rfl
          -- the timer reads the entry of the trigger that it comes to
          have hSame : id = t → e₀ = e := by
            rintro rfl
            exact Option.some.inj (hAt.symm.trans hFound)
          rw [← hLast'] at hLone
          rw [← hSpawned'] at hSpawned
          split at h
          · next last hLast =>
            cases h
            refine ⟨e', hFound', ⟨⟨hSpawned, hLone⟩, fun last hLookup => ?_⟩⟩
            cases hLookup
            rw [hLast', ← hSame rfl, hLast]
          · next hLast =>
            cases h
            refine ⟨e', hFound', accounts_fire hSpawned hLone fun hId => ?_⟩
            rwa [hLast', ← hSame hId, hLast] at hLone
        · cases h
          exact ⟨e, hFound, .of_noted rfl rfl hSpawned hLone⟩
  | checking now id last rest =>
    obtain ⟨hSpawned, hLone⟩ := hOld.agrees
    simp only [step] at h
    split at h
    · next hOver _ =>
      cases h
      refine ⟨e, hFound, accounts_fire hSpawned hLone ?_⟩
      -- the last run was found to be over, so no run of the trigger is active
      rintro rfl x hx hActive hTrigger
      have hLast := hLone x hx hActive hTrigger
      rw [hOld.last last rfl] at hLast
      cases hLast
      simp only [Realm.ask, Store.find?_of_mem hx] at hOver
      cases hFault : cue.fault <;> simp [hFault, hActive] at hOver
    · cases h
      exact ⟨e, hFound, .of_noted rfl rfl hSpawned hLone⟩
  | firing now id rest a point => exact absurd rfl (hPlain now id rest a point)
  | noting now id rest made =>
    cases made with
    | none =>
      cases h
      obtain ⟨hSpawned, hLone⟩ := hOld.agrees
      obtain ⟨e', hFound', hSpawned', hLast'⟩ := Triggers.find?_modify_of_same
        hFound id (·.noteSkipped) (fun _ => rfl) fun _ => rfl
      exact ⟨e', hFound', .of_noted rfl rfl (hSpawned'.trans hSpawned) (by rwa [hLast'])⟩
    | some job =>
      cases h
      have hAgrees := hOld.agrees
      by_cases hId : id = t
      · subst hId
        rw [stage, if_pos rfl] at hAgrees
        refine ⟨e.noteSpawned job, ?_, .of_noted rfl rfl hAgrees.1 hAgrees.2⟩
        show (r.triggers.modify id (·.noteSpawned job)).find? id = _
        rw [Triggers.find?_modify_self, hFound]
        rfl
      · rw [stage, if_neg hId] at hAgrees
        refine ⟨e, ?_, .of_noted rfl rfl hAgrees.1 hAgrees.2⟩
        show (r.triggers.modify id (·.noteSpawned job)).find? t = _
        rw [Triggers.find?_modify_of_ne (Ne.symm hId), hFound]
  | retired => cases h

/-- The point of an admission that the timer goes on to, or how it ended. -/
def Progress.stage : Progress AdmissionPoint (Except JobError JobRecord) → Timer.Stage
  | .at point => point.stage
  | .done (.ok record) => .made record.id
  | .done (.error _) => .noted

/-- A step of an admission that has the store do nothing. -/
theorem Admission.agrees_step {a : Admission} {point : AdmissionPoint}
    {p : Progress AdmissionPoint (Except JobError JobRecord)}
    (h : a.step cue r point = some (r', p)) (hPlain : point.op? = none)
    (hOld : point.stage.Agrees t n e r.store) : p.stage.Agrees t n e r'.store := by
  have hSame : r'.store = r.store := by
    rw [(Admission.effect h).store, hPlain]
    rfl
  rw [hSame]
  cases point with
  | waiting =>
    obtain ⟨-, -, rfl⟩ := step_waiting h
    exact hOld
  | checking =>
    simp only [step] at h
    split at h
    · cases h
      exact ⟨hOld.1, hOld.2.of_none⟩
    · split at h <;> cases h
      · exact ⟨hOld.1, hOld.2.of_none⟩
      · exact hOld
  | creating record => cases hPlain
  | queueing record | counting record =>
    cases h
    exact hOld

/-- After the step of an admission the timer stands where the admission does. -/
theorem Timer.stage_of_firing {now : Instant} {id : TriggerId} {rest : List TriggerId}
    {a : Admission} {point : AdmissionPoint}
    (h : (firing now id rest a point).step cue r = some (r', w')) :
    ∃ p, a.step cue r point = some (r', p) ∧ w'.stage t = (if id = t then p.stage else .noted) ∧
      w'.lookup? = none := by
  obtain ⟨⟨r₁, p⟩, hStep, hEq⟩ := Option.map_eq_some_iff.mp h
  refine ⟨p, ?_, ?_⟩
  · split at hEq <;> next hPair =>
      cases hPair
      cases hEq
      exact hStep
  · split at hEq <;> next hPair =>
      cases hPair
      cases hEq
      refine ⟨?_, rfl⟩
      first
        | rfl
        | exact (ite_self _).symm

end Accounts

namespace System

variable {s u : System δ} {e : TriggerEntry} {n i : Nat} {w w' : Timer}

/-- The number of runs of a trigger among those that were admitted. -/
def spawnedBy (t : TriggerId) (admitted : List (Admission × JobRecord)) : Nat :=
  admitted.countP (·.2.triggerId = some t)

/-- An event that makes no run of a trigger makes none of its runs active. -/
theorem lone_of_step {event : Event} {last : Option JobId} (hStep : s.step event = some u)
    (hOther : ∀ x ∈ s.admissions event, x.2.triggerId ≠ some t)
    (h : s.realm.store.Lone t last) : u.realm.store.Lone t last := by
  intro x' hx' hActive hTrigger
  rcases active_of_step hStep hx' hActive with ⟨x, hx, hOld, hSame⟩ | ⟨a, hAdmitted⟩
  · rw [hSame.id]
    exact h x hx hOld (by rw [← hSame.triggerId, hTrigger])
  · exact absurd hTrigger (hOther _ hAdmitted)

theorem spawnedBy_eq_zero {admitted : List (Admission × JobRecord)}
    (h : ∀ x ∈ admitted, x.2.triggerId ≠ some t) : spawnedBy t admitted = 0 :=
  List.countP_eq_zero.mpr fun x hx => by simpa using h x hx

/-- A step of an admission that the timer makes for a trigger. -/
theorem agrees_firing {now : Instant} {rest : List TriggerId} {a : Admission}
    {point : AdmissionPoint} {p : Progress AdmissionPoint (Except JobError JobRecord)}
    (hAt : s.threads[i]? = some (.timer (.firing now t rest a point)))
    (hStep : a.step cue s.realm point = some (r', p))
    (hBound : ∀ x ∈ s.admissions (.advance i cue), x.2.triggerId = some t)
    (hOld : point.stage.Agrees t n e s.realm.store) :
    p.stage.Agrees t (n + spawnedBy t (s.admissions (.advance i cue))) e r'.store := by
  cases hOp : point.op? with
  | none =>
    have hNone : s.admissions (.advance i cue) = [] := by
      cases point with
      | creating record => cases hOp
      | waiting | checking | queueing | counting => simp [admissions, hAt, Thread.admission?]
    rw [hNone]
    exact Admission.agrees_step hStep hOp hOld
  | some op =>
    cases point with
    | waiting | checking | queueing | counting => cases hOp
    | creating record =>
      obtain ⟨hSpawned, hLone⟩ := hOld
      simp only [Admission.step] at hStep
      split at hStep
      · next hTold =>
        cases hStep
        have hMade : s.admissions (.advance i cue) = [(a, record)] := by
          simp [admissions, hAt, Thread.admission?, hTold]
        have hTrigger : record.triggerId = some t :=
          hBound (a, record) (by rw [hMade]; exact List.mem_cons_self)
        have hOne : spawnedBy t (s.admissions (.advance i cue)) = 1 := by
          simp [hMade, spawnedBy, hTrigger]
        rw [hOne]
        refine ⟨by rw [hSpawned], fun x hx hActive hx' => ?_⟩
        obtain ⟨store, hCreated, rfl⟩ := Realm.create_eq_ok _ _ hTold
        have hMem : x ∈ store.records := hx
        rw [(Store.records_of_create_ok hCreated).1, List.mem_append] at hMem
        rcases hMem with hOld | hLast
        · cases hLone x hOld hActive hx'
        · rw [List.mem_singleton.mp hLast]
      · next hTold =>
        cases hStep
        cases Realm.tell_eq_error _ _ hTold
        have hNone : s.admissions (.advance i cue) = [] := by
          simp [admissions, hAt, Thread.admission?, hTold]
        rw [hNone]
        exact ⟨hSpawned, hLone.of_none⟩

/-- A step of the timer keeps the entry of every trigger in agreement with the runs of it. -/
theorem accounts_advance (hAt : s.threads[i]? = some (.timer w))
    (hStep : s.step (.advance i cue) = some u) (h : w.step cue s.realm = some (u.realm, w'))
    (hBound : ∀ x ∈ s.admissions (.advance i cue), x.2.triggerId = w.trigger?)
    (hFound : s.realm.triggers.find? t = some e) (hOld : w.Accounts t n e s.realm.store) :
    ∃ e', u.realm.triggers.find? t = some e' ∧
      w'.Accounts t (n + spawnedBy t (s.admissions (.advance i cue))) e' u.realm.store := by
  by_cases hFiring : ∃ now id rest a point, w = .firing now id rest a point
  · obtain ⟨now, id, rest, a, point, rfl⟩ := hFiring
    obtain ⟨p, hPoint, hStage, hApart⟩ := Timer.stage_of_firing (t := t) h
    have hSame := (Admission.sameTable hPoint).1
    refine ⟨e, by rw [hSame, hFound], .of_agrees hApart ?_⟩
    rw [hStage]
    have hAgrees := hOld.agrees
    by_cases hId : id = t
    · subst hId
      rw [Timer.stage, if_pos rfl] at hAgrees
      rw [if_pos rfl]
      exact agrees_firing hAt hPoint hBound hAgrees
    · rw [Timer.stage, if_neg hId] at hAgrees
      have hOther : ∀ x ∈ s.admissions (.advance i cue), x.2.triggerId ≠ some t := by
        intro x hx hTrigger
        rw [hBound x hx] at hTrigger
        exact hId (Option.some.inj hTrigger)
      rw [if_neg hId, spawnedBy_eq_zero hOther]
      exact ⟨hAgrees.1, lone_of_step hStep hOther hAgrees.2⟩
  · have hIdle : (Thread.timer w : Thread δ).admission? = none := by
      cases w with
      | firing now id rest a point => exact absurd ⟨now, id, rest, a, point, rfl⟩ hFiring
      | resting | waiting | passing | checking | noting | retired => rfl
    have hNone : s.admissions (.advance i cue) = [] := by
      simp [admissions, hAt, hIdle]
    rw [hNone]
    have hPlain : ∀ now id rest a point, w ≠ .firing now id rest a point :=
      fun now id rest a point hEq => hFiring ⟨now, id, rest, a, point, hEq⟩
    exact Timer.accounts_step hPlain h hFound hOld

-- ---------------------------------------------------------------------------
-- All the way along a run
-- ---------------------------------------------------------------------------

/-- Do the table, the timer and the store agree on the runs of a trigger, of which so many were
made? -/
structure Tracks (s : System δ) (t : TriggerId) (made : Nat) : Prop where
  lone : ∃ last, s.realm.store.Lone t last
  /-- In the course of a pass the timer accounts for the trigger. -/
  timer : ∀ {i : Nat} {w e}, s.threads[i]? = some (.timer w) → w.locked = true →
    s.realm.triggers.find? t = some e → w.Accounts t made e s.realm.store
  /-- Between two passes the entry speaks for itself. -/
  entry : (∀ th ∈ s.threads, th.patrols = false) → ∀ {e}, s.realm.triggers.find? t = some e →
    e.spawned = made ∧ s.realm.store.Lone t e.lastJob

/-- A step that leaves the table and the timer alone. -/
theorem Tracks.keep (h : s.Tracks t n) (hTable : u.realm.triggers = s.realm.triggers)
    (hLone : ∀ last, s.realm.store.Lone t last → u.realm.store.Lone t last)
    (hTimer : ∀ {j : Nat} {x}, u.threads[j]? = some x → x.patrols = true →
      s.threads[j]? = some x)
    (hFree : (∀ x ∈ u.threads, x.patrols = false) → ∀ x ∈ s.threads, x.patrols = false) :
    u.Tracks t n where
  lone := h.lone.imp hLone
  timer hAt hLocked hFound := by
    rw [hTable] at hFound
    exact (h.timer (hTimer hAt hLocked) hLocked hFound).imp rfl rfl hLone
  entry hNone e hFound := by
    rw [hTable] at hFound
    obtain ⟨hSpawned, hLast⟩ := h.entry (hFree hNone) hFound
    exact ⟨hSpawned, hLone _ hLast⟩

/-- While nobody goes through the triggers it is enough to look at the entry. -/
theorem Tracks.of_free (hNone : ∀ x ∈ u.threads, x.patrols = false)
    (hLone : ∃ last, u.realm.store.Lone t last)
    (hEntry : ∀ {e}, u.realm.triggers.find? t = some e →
      e.spawned = n ∧ u.realm.store.Lone t e.lastJob) : u.Tracks t n where
  lone := hLone
  timer hAt hLocked _ := by
    have hNot : Timer.locked _ = false := hNone _ (List.mem_of_getElem? hAt)
    rw [hLocked] at hNot
    cases hNot
  entry _ _ hFound := hEntry hFound

/-- Who goes through the triggers after the step of a thread that does not is another thread. -/
theorem patrols_of_advance {crew : List (Thread δ)} {j : Nat} {x : Thread δ}
    (hThread : th.step cue s.realm = some (r', th', crew)) (hAfter : th'.patrols = false)
    (hx : (s.threads.set i th' ++ crew)[j]? = some x) (hPatrols : x.patrols = true) :
    j ≠ i ∧ s.threads[j]? = some x := by
  rcases threads_of_advance hx with ⟨-, rfl⟩ | hOld | ⟨-, hMem⟩
  · rw [hAfter] at hPatrols
    cases hPatrols
  · exact hOld
  · rcases Thread.crew_of_step hThread x hMem with rfl | rfl <;> cases hPatrols

/-- A step of a timer that goes through the triggers. -/
theorem tracks_patrol {r : Realm δ} {events : List Event}
    (hRun : (ofRealm r).run events = some s) (hAt : s.threads[i]? = some (.timer w))
    (hLocked : w.locked = true) (hStep : s.step (.advance i cue) = some u) (h : s.Tracks t n) :
    u.Tracks t (n + spawnedBy t (s.admissions (.advance i cue))) := by
  obtain ⟨r₁, th', crew, hThread, rfl⟩ := step_advance_at hAt hStep
  obtain ⟨w', hTimer, rfl, rfl⟩ := Thread.step_timer hThread
  rw [List.append_nil] at hStep ⊢
  have hSame := (Timer.listed_step hLocked hTimer t).1
  have hAccounts : ∀ {e'}, r₁.triggers.find? t = some e' →
      w'.Accounts t (n + spawnedBy t (s.admissions (.advance i cue))) e' r₁.store := by
    intro e' hFound'
    rw [hFound'] at hSame
    obtain ⟨e, hFound⟩ := Option.isSome_iff_exists.mp hSame.symm
    obtain ⟨e₁, hFound₁, hAccounts⟩ := accounts_advance hAt hStep hTimer
      (fun x hx => triggerId_of_admissions hRun hAt hx) hFound (h.timer hAt hLocked hFound)
    cases hFound'.symm.trans hFound₁
    exact hAccounts
  refine ⟨?_, fun {j w₁ e'} hAt' hLocked' hFound' => ?_, fun hNone e' hFound' => ?_⟩
  · cases hFound' : r₁.triggers.find? t with
    | some e' => exact (hAccounts hFound').agrees.lone
    | none =>
      have hAbsent : s.realm.triggers.find? t = none := by
        rw [hFound'] at hSame
        simpa using hSame.symm
      exact h.lone.imp fun last => lone_of_step hStep (triggerId_ne_of_absent hRun hAbsent)
  · -- nobody else goes through the triggers
    have hOnly : j = i := by
      by_contra hNe
      have hOld : s.threads[j]? = some (.timer w₁) := by
        rw [← hAt', List.getElem?_set_ne (Ne.symm hNe)]
      exact hNe ((Lock.kept_of_run triggersLock_lawful hRun).alone hOld hAt hLocked' hLocked)
    subst hOnly
    rw [List.getElem?_set_self (List.getElem?_eq_some_iff.mp hAt).1] at hAt'
    cases hAt'
    exact hAccounts hFound'
  · have hMem : (Thread.timer w' : Thread δ) ∈ s.threads.set i (.timer w') :=
      List.mem_set (List.getElem?_eq_some_iff.mp hAt).1 _
    have hOver : w'.locked = false := hNone _ hMem
    have hAgrees := (hAccounts hFound').agrees
    cases w' with
    | resting | waiting | retired => exact hAgrees
    | passing | checking | firing | noting => cases hOver

/-- A step of a thread that changes the table while nobody goes through it. -/
theorem Tracks.of_edit {r : Realm δ} {events : List Event} {crew : List (Thread δ)}
    (hRun : (ofRealm r).run events = some s) (hFree : s.realm.triggersHeld = false)
    (hThread : th.step cue s.realm = some (r', th', crew)) (hAfter : th'.patrols = false)
    (hLone : ∃ last, r'.store.Lone t last)
    (hEntry : ∀ {e}, r'.triggers.find? t = some e → e.spawned = n ∧ r'.store.Lone t e.lastJob) :
    Tracks ⟨r', s.threads.set i th' ++ crew⟩ t n := by
  refine .of_free (fun x hx => ?_) hLone hEntry
  obtain ⟨j, hj⟩ := List.getElem?_of_mem hx
  cases hPatrols : x.patrols with
  | false => rfl
  | true =>
    have hOld := (patrols_of_advance hThread hAfter hj hPatrols).2
    have hNot := patrols_eq_false_of_free hRun hFree x (List.mem_of_getElem? hOld)
    rw [hPatrols] at hNot
    cases hNot

/-- A step of a thread that does not go through the triggers. -/
theorem tracks_edit {r : Realm δ} {events : List Event}
    (hRun : (ofRealm r).run events = some s) (hAt : s.threads[i]? = some th)
    (hPatrols : th.patrols = false) (hStep : s.step (.advance i cue) = some u)
    (hBirth : t ∈ s.registrations (.advance i cue) → n = 0 ∧ s.realm.store.Lone t none)
    (h : s.Tracks t n) : u.Tracks t (n + spawnedBy t (s.admissions (.advance i cue))) := by
  obtain ⟨r₁, th', crew, hThread, rfl⟩ := step_advance_at hAt hStep
  -- only a timer that goes through the triggers makes runs of them
  have hOther : ∀ x ∈ s.admissions (.advance i cue), x.2.triggerId ≠ some t := by
    intro x hx hTrigger
    rw [triggerId_of_admissions hRun hAt hx] at hTrigger
    rw [Thread.patrols_of_trigger? hTrigger] at hPatrols
    cases hPatrols
  have hLone : ∀ last, s.realm.store.Lone t last → r₁.store.Lone t last := fun last =>
    lone_of_step hStep hOther
  rw [spawnedBy_eq_zero hOther, Nat.add_zero]
  cases Thread.edit_of_step hPatrols hThread with
  | leaves same after =>
    refine h.keep same.1 hLone (fun hx hx' => (patrols_of_advance hThread after hx hx').2) ?_
    intro hNone x hx
    obtain ⟨j, hj⟩ := List.getElem?_of_mem hx
    by_cases hji : j = i
    · subst hji
      rw [hAt] at hj
      cases hj
      exact hPatrols
    · refine hNone x (List.mem_of_getElem? (thread_of_step_of_ne hStep hj ?_))
      rintro cue' ⟨⟩
      exact hji rfl
  | begins now free held table after =>
    have hNone := patrols_eq_false_of_free hRun free
    subst after
    refine ⟨h.lone.imp hLone, fun {j w e} hAt' hLocked hFound => ?_, fun hFree => ?_⟩
    · rw [show r₁.triggers = s.realm.triggers from table] at hFound
      obtain ⟨hSpawned, hLast⟩ := h.entry hNone hFound
      rcases threads_of_advance hAt' with ⟨-, hEq⟩ | ⟨-, hOld⟩ | ⟨-, hMem⟩
      · cases hEq
        exact .of_noted rfl rfl hSpawned (hLone _ hLast)
      · have hNot : Timer.locked w = false := hNone _ (List.mem_of_getElem? hOld)
        rw [hLocked] at hNot
        cases hNot
      · rcases Thread.crew_of_step hThread _ hMem with hEq | hEq <;> cases hEq
        cases hLocked
    · have hBusy := hFree _ (List.mem_of_getElem? (thread_of_advance_self hAt))
      cases hBusy
  | inserts id entry before free held after table =>
    refine .of_edit hRun free hThread after (h.lone.imp hLone) fun hFound => ?_
    rw [table] at hFound
    by_cases hId : t = id
    · subst hId
      rw [Triggers.find?_insert_self] at hFound
      cases hFound
      obtain ⟨hSpawned, hLast⟩ := blank_of_run hRun hAt _ _ before
      obtain ⟨rfl, hNew⟩ := hBirth (by simp [registrations, hAt, before])
      rw [hLast]
      exact ⟨hSpawned, hLone _ hNew⟩
    · rw [Triggers.find?_insert_of_ne hId] at hFound
      exact (h.entry (patrols_eq_false_of_free hRun free) hFound).imp_right (hLone _)
  | reschedules id entry times found free held after table =>
    refine .of_edit hRun free hThread after (h.lone.imp hLone) fun hFound => ?_
    have hOld : ∀ {e}, s.realm.triggers.find? t = some e → _ :=
      h.entry (patrols_eq_false_of_free hRun free)
    rw [table, Triggers.find?_modify] at hFound
    split at hFound
    · next hId =>
      subst hId
      rw [found] at hFound
      cases hFound
      exact (@hOld entry found).imp_right (hLone _)
    · exact (hOld hFound).imp_right (hLone _)
  | drops id free held after table =>
    refine .of_edit hRun free hThread after (h.lone.imp hLone) fun hFound => ?_
    rw [table, Triggers.find?_erase] at hFound
    split at hFound
    · cases hFound
    · exact (h.entry (patrols_eq_false_of_free hRun free) hFound).imp_right (hLone _)

theorem tracks_step {r : Realm δ} {event : Event} {events : List Event}
    (hRun : (ofRealm r).run events = some s) (hStep : s.step event = some u)
    (hBirth : t ∈ s.registrations event → n = 0 ∧ s.realm.store.Lone t none)
    (h : s.Tracks t n) : u.Tracks t (n + spawnedBy t (s.admissions event)) := by
  cases event with
  | call call =>
    cases hStep
    refine h.keep rfl (fun _ hLone => hLone) (fun hx hPatrols => ?_) fun hNone x hx =>
      hNone x (List.mem_append_left _ hx)
    rcases threads_of_call hx with hOld | ⟨-, rfl⟩
    · exact hOld
    · cases hPatrols
  | sweep cutoff =>
    have hLone : ∀ last, s.realm.store.Lone t last → u.realm.store.Lone t last := fun last =>
      lone_of_step hStep fun x hx => (List.not_mem_nil hx).elim
    cases hStep
    exact h.keep rfl hLone (fun hx _ => hx) fun hNone => hNone
  | advance i cue =>
    obtain ⟨th, r', th', crew, hAt, -⟩ := step_advance hStep
    cases hPatrols : th.patrols with
    | true =>
      obtain ⟨w, rfl, hLocked⟩ := Thread.timer_of_patrols hPatrols
      exact tracks_patrol hRun hAt hLocked hStep h
    | false => exact tracks_edit hRun hAt hPatrols hStep hBirth h

/-- After every run the table, the timer and the store agree on the runs of every trigger that was
registered no more than once. -/
theorem tracks_of_run {settings : RealmSettings} {registry : Registry δ} {store : Store}
    {events : List Event} (hRun : (initial settings registry store).run events = some u)
    (hIds : ((initial settings registry store).trail registrations events).Nodup)
    (hNew : ∀ x ∈ store.records, x.triggerId ≠ some t) :
    u.Tracks t (spawnedBy t ((initial settings registry store).trail admissions events)) := by
  refine run_induction (motive := fun events u =>
    ((initial settings registry store).trail registrations events).Nodup →
      u.Tracks t (spawnedBy t ((initial settings registry store).trail admissions events)))
    hRun (fun _ => ?_) ?_ hIds
  · exact .of_free (fun x hx => (List.not_mem_nil hx).elim)
      ⟨none, fun x hx _ hTrigger => (hNew x hx hTrigger).elim⟩ fun hFound => by cases hFound
  · intro before s e v hBefore hStep ih hIds
    rw [trail_concat hBefore] at hIds
    rw [trail_concat hBefore, spawnedBy, List.countP_append]
    refine tracks_step hBefore hStep (fun hMem => ?_) (ih (List.nodup_append.mp hIds).1)
    have hUnborn : t ∉ (initial settings registry store).trail registrations before :=
      fun hOld => (List.nodup_append.mp hIds).2.2 t hOld t hMem rfl
    obtain ⟨-, hNever, hNone⟩ := unborn_of_run hBefore hNew hUnborn
    exact ⟨spawnedBy_eq_zero hNever, fun x hx _ hTrigger => (hNone x hx hTrigger).elim⟩

end System

end BackgroundJobs
