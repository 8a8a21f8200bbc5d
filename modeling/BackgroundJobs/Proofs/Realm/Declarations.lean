import BackgroundJobs.Proofs.Job.Constraint
import BackgroundJobs.Proofs.Realm.Enlistments

/-!
# Proofs — declared jobs

The recurring jobs that a configuration declares are looked at twice: when the
settings are checked, and when an open realm registers them. Both agree. Every
entry that passed the check is registered, if its job is known, with the schedule
that it names and in a group that the realm serves. When such a trigger fires
later, the job is still known and the group still served, whatever happened in
between.

Main results:

* `RecurringSettings.not_refused_of_declarable` — a declared entry is not refused.
* `RecurringSettings.Makes.declares` — what a declared entry is registered as.
* `takes_of_run`                     — the realm could make runs of every trigger
  in the table.
* `declared_of_run`                  — the declared jobs are registered, and fire.
-/

namespace BackgroundJobs

variable {δ : Type} {cue : Cue} {r r' : Realm δ} {th th' : Thread δ} {crew : List (Thread δ)}
  {settings : RealmSettings}

-- ---------------------------------------------------------------------------
-- The check of the settings
-- ---------------------------------------------------------------------------

/-- Is that the trigger which the entry declares, in a realm of these settings? -/
structure RecurringSettings.Declares (entry : RecurringSettings) (settings : RealmSettings)
    (e : TriggerEntry) : Prop where
  schedule : entry.parsedSchedule = .ok e.schedule
  template : entry.toRequest = .ok e.template
  group : e.template.group = entry.group
  served : entry.group.getD settings.defaultGroup ∈ settings.groups
  unused : ∃ now, e = .make e.template e.schedule now

/-- A check of the settings that finds no fault finds none with any entry. -/
theorem RealmSettings.checkRecurring_of_check (h : settings.check = .ok ())
    {entry : RecurringSettings} (hMem : entry ∈ settings.recurring) :
    settings.checkRecurring entry = .ok () := by
  simp only [check, bind, Except.bind] at h
  repeat' split at h
  all_goals first
    | cases h
    | exact forM_eq_ok_iff.mp h entry hMem

theorem RealmSettings.served_of_checkRecurring {entry : RecurringSettings}
    (hServes : settings.groups ≠ []) (h : settings.checkRecurring entry = .ok ()) :
    (∃ schedule, entry.parsedSchedule = .ok schedule) ∧
      entry.group.getD settings.defaultGroup ∈ settings.groups := by
  unfold checkRecurring at h
  cases hParsed : entry.parsedSchedule with
  | error e =>
    rw [hParsed] at h
    cases h
  | ok schedule =>
    refine ⟨⟨schedule, rfl⟩, ?_⟩
    rw [hParsed] at h
    cases hGroup : entry.group with
    | none => exact defaultGroup_mem hServes
    | some group =>
      rw [hGroup] at h
      change faultIf (!settings.groups.contains group) _ = .ok () at h
      unfold faultIf at h
      split at h
      · cases h
      · next hServed => exact List.contains_iff_mem.mp (by simpa using hServed)

/-- Do the settings pass their check, and does the realm know the jobs that they declare? -/
structure Realm.Declarable (r : Realm δ) : Prop where
  checked : r.settings.check = .ok ()
  known : ∀ entry ∈ r.settings.recurring, r.registry.contains entry.jobKey = true

namespace RecurringSettings

variable {entry : RecurringSettings}

/-- An open realm has no reason to refuse an entry that its settings declare. -/
theorem not_refused_of_declarable (h : r.Declarable) (hOpen : r.stopping = false)
    (hMem : entry ∈ r.settings.recurring) (e : JobError) : ¬ entry.Refused r e := by
  obtain ⟨⟨schedule, hParsed⟩, hServed⟩ := RealmSettings.served_of_checkRecurring
    (RealmSettings.groups_ne_nil_of_check h.checked)
    (RealmSettings.checkRecurring_of_check h.checked hMem)
  rintro (unreadable | stops | unknown | ⟨wanted, unserved⟩)
  · cases hParsed.symm.trans unreadable
  · cases hOpen.symm.trans stops
  · cases (h.known entry hMem).symm.trans unknown
  · rw [wanted] at hServed
    exact unserved hServed

/-- What the realm registers an entry as that its settings declare. -/
theorem Makes.declares {e : TriggerEntry} (h : entry.Makes r e) (hRealm : r.Declarable)
    (hMem : entry ∈ r.settings.recurring) : entry.Declares r.settings e where
  schedule := h.schedule
  template := h.template
  group := h.group
  served := (RealmSettings.served_of_checkRecurring
    (RealmSettings.groups_ne_nil_of_check hRealm.checked)
    (RealmSettings.checkRecurring_of_check hRealm.checked hMem)).2
  unused := h.unused

end RecurringSettings

-- ---------------------------------------------------------------------------
-- Registering what is declared
-- ---------------------------------------------------------------------------

/-- An open realm registers all that its settings declare. -/
theorem Thread.Enlisting.declared_of_answered {made : List (TriggerId × TriggerEntry)} {left : Nat}
    {answer : Answer} (h : Enlisting r settings.recurring made left (.answered answer))
    (hSettings : r.settings = settings) (hRealm : r.Declarable) (hOpen : r.stopping = false) :
    answer = .ok (.triggers (made.map (·.1))) ∧
      List.Forall₂ (fun entry x => entry.Declares settings x.2) settings.recurring made := by
  subst hSettings
  cases h with
  | accepted enlisted =>
    have hListed := (List.forall₂_and_left _ _).mpr ⟨fun entry hMem => hMem, enlisted⟩
    exact ⟨rfl, hListed.imp fun entry x h => h.2.declares hRealm h.1⟩
  | @refused past rest _ entry _ split _ why =>
    have hMem : entry ∈ r.settings.recurring := by simp [split]
    exact (RecurringSettings.not_refused_of_declarable hRealm hOpen hMem _ why).elim

namespace System

variable {s u : System δ} {events more : List Event} {registry : Registry δ} {store : Store}

/-- Neither the settings nor the known jobs ever change. -/
theorem declarable_of_run (h : s.realm.Declarable) (hMore : s.run more = some u) :
    u.realm.Declarable := by
  constructor
  · rw [settings_of_run hMore]
    exact h.checked
  · rw [settings_of_run hMore, registry_of_run hMore]
    exact h.known

/-- A trigger that is registered in the course of a run was not in the table before it. -/
theorem absent_of_registrations (hRun : (initial settings registry store).run events = some s)
    (hIds : ((initial settings registry store).trail registrations (events ++ more)).Nodup)
    {t : TriggerId} (ht : t ∈ s.trail registrations more) : s.realm.triggers.find? t = none := by
  rw [trail_append hRun] at hIds
  have hOld : t ∉ (initial settings registry store).trail registrations events := fun hMem =>
    (List.disjoint_of_nodup_append hIds) hMem ht
  have hStart : (initial settings registry store).run [] = some (initial settings registry store) :=
    rfl
  exact (absent_of_run hStart hRun rfl hOld).1

theorem registered_sublist (i : Nat) (s : System δ) (e : Event) :
    ((registered i s e).map (·.1)).Sublist (s.registrations e) := by
  cases e with
  | advance j cue =>
    by_cases hSame : j = i
    · subst hSame
      simp only [registered, registrations, if_pos]
      cases s.threads[j]?.bind (·.pending?) <;> simp
    · simp [registered, hSame]
  | call | sweep => exact .slnil

end System

-- ---------------------------------------------------------------------------
-- Firing
-- ---------------------------------------------------------------------------

/-- A request that the realm takes is admitted to the check of its constraints. -/
theorem Admission.make_of_takes {request : JobRequest} (h : r.Takes request)
    (triggerId : Option TriggerId) : ∃ a, Admission.make r request triggerId = .ok a := by
  obtain ⟨⟨definition, hKnown⟩, group, hServed⟩ := h
  refine ⟨⟨request, triggerId, group, request.retryPolicy.getD r.settings.retryPolicy⟩, ?_⟩
  rw [make, hKnown, hServed]
  rfl

/-- An admission fails only if the store is in trouble or a constraint turns the request away. -/
theorem Admission.error_of_step {a : Admission} {point : AdmissionPoint} {e : JobError}
    (h : a.step cue r point = some (r', .done (.error e))) :
    (∃ x, e = .store x) ∨ ∃ x, e = .rejected x := by
  cases point with
  | waiting =>
    simp only [step] at h
    split at h <;> cases h
  | checking =>
    simp only [step] at h
    split at h
    · cases h
      exact .inl ⟨_, rfl⟩
    · split at h <;> cases h
      exact .inr ⟨_, rfl⟩
  | creating record =>
    simp only [step] at h
    split at h <;> cases h
    exact .inl ⟨_, rfl⟩
  | queueing record | counting record => cases h

/-- Why the timer makes no run of a trigger that is due. -/
inductive Timer.Skips (w : Timer) (cue : Cue) (r : Realm δ) (now : Instant) (id : TriggerId)
    (rest : List TriggerId) : Prop where
  /-- The run before is still active, or whether it is cannot be told. -/
  | active (last : JobId) (before : w = .checking now id last rest)
    (goesOn : ∀ record, r.ask cue (·.find? last) = .ok record → record.any (·.isActive) = true)
  | troubled (a : Admission) (point : AdmissionPoint) (e : StoreError)
    (before : w = .firing now id rest a point)
    (failed : ∃ r', a.step cue r point = some (r', .done (.error (.store e))))
  | rejected (a : Admission) (point : AdmissionPoint) (violation : Violation)
    (before : w = .firing now id rest a point)
    (failed : ∃ r', a.step cue r point = some (r', .done (.error (.rejected violation))))

/-- A firing of a trigger that the realm could make runs of begins an admission. -/
theorem Timer.fire_ne_noting {now now' : Instant} {rest rest' : List TriggerId} {e : TriggerEntry}
    {made : Option JobId} {t t' : TriggerId} (h : r.Takes e.template) :
    fire cue r now t rest e ≠ .noting now' t' rest' made := by
  have hInstance : r.Takes (e.template.instanceOf cue.fresh) := h
  obtain ⟨a, hMake⟩ := Admission.make_of_takes hInstance (some t)
  rw [fire, hMake]
  nofun

theorem Timer.skips_of_step {w : Timer} {now : Instant} {id : TriggerId} {rest : List TriggerId}
    (hTakes : ∀ id e, r.triggers.find? id = some e → r.Takes e.template)
    (hListed : ∀ id, w.trigger? = some id → (r.triggers.find? id).isSome = true)
    (h : w.step cue r = some (r', .noting now id rest none)) :
    w.Skips cue r now id rest := by
  cases w with
  | resting =>
    simp only [step] at h
    split at h <;> cases h
  | waiting now' =>
    simp only [step] at h
    split at h <;> cases h
  | passing now' rest' =>
    cases rest' with
    | nil => cases h
    | cons id' rest' =>
      simp only [step] at h
      split at h
      · cases h
      · next e hFound =>
        split at h
        · split at h
          · cases h
          · cases hFire : fire cue { r with triggers := r.triggers.modify id' (·.advance now') }
              now' id' rest' e <;> rw [hFire] at h <;> cases h
            exact (fire_ne_noting (hTakes id' e hFound) hFire).elim
        · cases h
  | checking now' id' last rest' =>
    simp only [step] at h
    split at h
    · next e hIdle hFound =>
      cases hFire : fire cue r now' id' rest' e <;> rw [hFire] at h <;> cases h
      exact (fire_ne_noting (hTakes id' e hFound) hFire).elim
    · next hNot =>
      cases h
      refine .active last rfl fun record hAsked => ?_
      rw [hAsked] at hNot
      obtain ⟨e, hFound⟩ := Option.isSome_iff_exists.mp (hListed id rfl)
      by_contra hIdle
      exact hNot e (by simpa using hIdle) hFound
  | firing now' id' rest' a point =>
    obtain ⟨⟨r₁, p⟩, hStep, hEq⟩ := Option.map_eq_some_iff.mp h
    split at hEq
    · cases hEq
    · cases hEq
    · next hPair =>
      cases hPair
      cases hEq
      rcases Admission.error_of_step hStep with ⟨e, rfl⟩ | ⟨violation, rfl⟩
      · exact .troubled a point e rfl ⟨_, hStep⟩
      · exact .rejected a point violation rfl ⟨_, hStep⟩
  | noting now' id' rest' made => cases made <;> cases h
  | retired => cases h

namespace System

variable {s u v : System δ} {e : Event} {events more : List Event} {registry : Registry δ}
  {store : Store} {i : Nat}

/-- Every entry of the table was there before, with the same request, or has just been put there. -/
theorem template_of_step {t : TriggerId} {x' : TriggerEntry} (hStep : s.step e = some u)
    (hFound : u.realm.triggers.find? t = some x') :
    (∃ x, s.realm.triggers.find? t = some x ∧ x'.template = x.template) ∨
      ∃ (j : Nat) (th : Thread δ), s.threads[j]? = some th ∧ th.pending? = some (t, x') := by
  cases tableChange_of_step hStep with
  | leaves table => exact .inl ⟨x', by rw [← table, hFound], rfl⟩
  | modifies id change keeps table =>
    rw [table, Triggers.find?_modify] at hFound
    split at hFound
    · next hSame =>
      obtain ⟨x, hx, rfl⟩ := Option.map_eq_some_iff.mp hFound
      exact .inl ⟨x, hx, keeps x (hSame ▸ hx)⟩
    · exact .inl ⟨x', hFound, rfl⟩
  | inserts id entry pending table =>
    obtain ⟨j, cue, th, -, hAt, hPending⟩ := pending
    by_cases hSame : t = id
    · subst hSame
      rw [table, Triggers.find?_insert_self] at hFound
      cases hFound
      exact .inr ⟨j, th, hAt, hPending⟩
    · rw [table, Triggers.find?_insert_of_ne hSame] at hFound
      exact .inl ⟨x', hFound, rfl⟩
  | drops id table =>
    rw [table, Triggers.find?_erase] at hFound
    split at hFound
    · cases hFound
    · exact .inl ⟨x', hFound, rfl⟩

/-- The realm could make runs of every trigger that is about to be put into the table. -/
theorem takes_of_pending {r : Realm δ} (hRun : (ofRealm r).run events = some u)
    (hAt : u.threads[i]? = some th) {t : TriggerId} {x : TriggerEntry}
    (hPending : th.pending? = some (t, x)) : u.realm.Takes x.template := by
  refine forall_threads_of_run (P := fun r th => ∀ t x, th.pending? = some (t, x) →
    r.Takes x.template) ?_ ?_ ?_ ?_ ?_ hRun i th hAt t x hPending
  · intro _ call t x hNone
    cases hNone
  · intro cue r th r' th' crew hStep _
    refine ⟨fun t x hPending => ?_, fun y hy t x hPending => ?_⟩
    · obtain ⟨request, hEntry⟩ := Thread.pending_of_step hStep hPending
      obtain ⟨-, hTakes, schedule, -, rfl⟩ := Registration.entry_eq_ok.mp hEntry
      exact (Realm.takes_congr (Thread.effect hStep).settings (Thread.effect hStep).registry).mpr
        hTakes
    · rcases Thread.crew_of_step hStep y hy with rfl | rfl <;> cases hPending
  · intro cue r th r' th' crew hStep other hOther t x hPending
    exact (Realm.takes_congr (Thread.effect hStep).settings (Thread.effect hStep).registry).mpr
      (hOther t x hPending)
  · intro _ _ other hOther
    exact hOther
  · intro j x hx
    cases hx

/-- The realm could make runs of every trigger in the table. -/
theorem takes_of_run (hRun : (initial settings registry store).run events = some u)
    {t : TriggerId} {x : TriggerEntry} (hFound : u.realm.triggers.find? t = some x) :
    u.realm.Takes x.template := by
  refine run_induction (motive := fun _ u => ∀ t x, u.realm.triggers.find? t = some x →
    u.realm.Takes x.template) hRun ?_ ?_ t x hFound
  · intro t x hNone
    cases hNone
  · intro before s e v hBefore hStep ih t x' hFound
    refine (Realm.takes_congr (settings_of_step hStep) (registry_of_step hStep)).mpr ?_
    rcases template_of_step hStep hFound with ⟨x, hx, hSame⟩ | ⟨j, th, hAt, hPending⟩
    · rw [hSame]
      exact ih t x hx
    · exact takes_of_pending hBefore hAt hPending

/-- What comes of registering the declared jobs, from where thread `i` was about to begin with it in
`s`, in the course of a run that has led to `u` so far. -/
structure Declared (settings : RealmSettings) (i : Nat) (s : System δ) (more : List Event)
    (u : System δ) : Prop where
  /-- The thread gets an answer as soon as it has the table for itself for long enough. -/
  finishes : u.realm.triggersHeld = false → ∀ cues : List Cue,
    3 * settings.recurring.length + 2 ≤ cues.length → ∃ mine v ids, mine <+: cues ∧
      u.run (mine.map (.advance i)) = some v ∧
      v.threads[i]? = some (.answered (.ok (.triggers ids)))
  /-- The answer lists the triggers that were registered, one for each entry and in that order. -/
  answer : ∀ answer, u.threads[i]? = some (.answered answer) →
    answer = .ok (.triggers ((s.trail (registered i) more).map (·.1))) ∧
      List.Forall₂ (fun entry x => entry.Declares settings x.2) settings.recurring
        (s.trail (registered i) more)
  /-- No trigger of that id was there before. -/
  fresh : ((s.trail (registered i) more).map (·.1)).Nodup ∧
    ∀ x ∈ s.trail (registered i) more, s.realm.triggers.find? x.1 = none
  /-- Each step of the thread puts the next trigger into the table, or changes nothing at all. -/
  own : ∀ cue v, u.step (.advance i cue) = some v → v.realm = { u.realm with
    triggers := u.realm.triggers.insertAll (registered i u (.advance i cue)) }
  /-- Unless others take steps too, the new triggers are all that the table has gained, and every
  earlier one is as it was. -/
  alone : (∀ e ∈ more, ∃ cue, e = .advance i cue) → ∃ table,
    u.realm = { s.realm with triggers := table } ∧ ∀ t, table.find? t =
      ((s.trail (registered i) more).lookup t).or (s.realm.triggers.find? t)
  /-- Whatever happens later, a firing finds the job, and the group among those of the realm. -/
  admits : ∀ later v, u.run later = some v → ∀ t e, v.realm.triggers.find? t = some e →
    ∀ fresh, ∃ a, Admission.make v.realm (e.template.instanceOf fresh) (some t) = .ok a ∧
      a.group ∈ settings.groups
  /-- A firing that makes no run has another reason. -/
  skips : ∀ later v, u.run later = some v → ∀ (j : Nat) (w : Timer),
    v.threads[j]? = some (.timer w) → ∀ cue r' now t rest,
      w.step cue v.realm = some (r', .noting now t rest none) → w.Skips cue v.realm now t rest

/-- Settings that pass their check, and whose declared jobs are known, are registered as they
declare it, by every realm of these settings that stays open meanwhile; and no firing fails for
want of the job or of the group. -/
theorem declared_of_run (hCheck : settings.check = .ok ())
    (hKnown : ∀ entry ∈ settings.recurring, registry.contains entry.jobKey = true)
    (hRun : (initial settings registry store).run events = some s)
    (hAt : s.threads[i]? = some (.caller (.made (.declare settings.recurring))))
    (hMore : s.run more = some u) (hOpen : u.realm.stopping = false)
    (hIds : ((initial settings registry store).trail registrations (events ++ more)).Nodup) :
    Declared settings i s more u := by
  have hSettings : s.realm.settings = settings := settings_of_run hRun
  have hRegistry : s.realm.registry = registry := registry_of_run hRun
  have hSettings' : u.realm.settings = settings := (settings_of_run hMore).trans hSettings
  have hAll : (initial settings registry store).run (events ++ more) = some u := by
    rw [run_append_of_run hRun, hMore]
  subst hSettings hRegistry
  have hRealm : s.realm.Declarable := ⟨hCheck, hKnown⟩
  have hRealm' : u.realm.Declarable := declarable_of_run hRealm hMore
  obtain ⟨left, th, hThread, hEnlisting⟩ := enlisting_of_run hAt hMore
  have hIncluded := trail_sublist (registered_sublist i) s more
  have hNodup : ((s.trail (registered i) more).map (·.1)).Nodup := by
    rw [trail_append hRun] at hIds
    exact hIncluded.nodup hIds.of_append_right
  constructor
  case finishes =>
    intro hFree cues hEnough
    obtain ⟨mine, v, answer, made, hMine, hOwn, hLater, hAnswered, hDone⟩ :=
      answered_of_enlisting hFree hThread hEnlisting (hEnlisting.left_le.trans hEnough)
    have hStill : v.realm.stopping = false := by rw [hLater, hOpen]
    obtain ⟨rfl, -⟩ := hDone.declared_of_answered ((settings_of_run hOwn).trans hSettings')
      (declarable_of_run hRealm' hOwn) hStill
    exact ⟨mine, v, _, hMine, hOwn, hAnswered⟩
  case answer =>
    intro answer hAnswered
    cases hThread.symm.trans hAnswered
    exact hEnlisting.declared_of_answered hSettings' hRealm' hOpen
  case fresh =>
    exact ⟨hNodup, fun x hx => absent_of_registrations hRun hIds
      (hIncluded.subset (List.mem_map_of_mem hx))⟩
  case own =>
    intro cue v hStep
    exact realm_of_enlisting hThread hEnlisting hStep
  case alone =>
    intro hOwn
    exact ⟨_, realm_of_own_steps hAt hMore hOwn,
      Triggers.find?_insertAll hNodup s.realm.triggers⟩
  case admits =>
    intro later v hLater t e hFound fresh
    have hTakes := takes_of_run (by rw [run_append_of_run hAll, hLater]) hFound
    have hInstance : v.realm.Takes (e.template.instanceOf fresh) := hTakes
    obtain ⟨a, hMake⟩ := Admission.make_of_takes hInstance (some t)
    have hServed : v.realm.settings = s.realm.settings :=
      (settings_of_run hLater).trans hSettings'
    rw [← hServed] at hCheck ⊢
    exact ⟨a, hMake,
      Admission.group_mem_of_make (RealmSettings.groups_ne_nil_of_check hCheck) hMake⟩
  case skips =>
    intro later v hLater j w hTimer cue r' now t rest hStep
    have hUpTo : (initial s.realm.settings s.realm.registry store).run
        (events ++ more ++ later) = some v :=
      (run_append_of_run hAll).trans hLater
    exact Timer.skips_of_step (fun id e hFound => takes_of_run hUpTo hFound)
      (fun id hTrigger => listed_of_run hUpTo hTimer hTrigger) hStep

/-- Settings that declare two jobs, one of them for a group and under a name of its own. -/
def twoDeclared : RealmSettings :=
  { groups := ["default", "reports"]
    recurring := [{ jobKey := "job", schedule := "every 5m" },
      { jobKey := "job", schedule := "0 0 3 * * *", group := some "reports",
        name := some "nightly" }] }

/-- A caller registers another trigger, and a second one comes to register what is declared. -/
def beforeDeclared : List Event :=
  let request : JobRequest :=
    { jobKey := "job", name := "job", group := none, arguments := Dict.empty,
      metadata := Dict.empty, constraints := [], retryPolicy := none,
      trigger := .recurring (.every (.ofSeconds 1)) }
  let advance (n : Nat) : Event := .advance 0 { now := ⟨n, 0⟩, fresh := ⟨BitVec.ofNat 128 n⟩ }
  [.call (.schedule request), advance 1, advance 2, advance 3,
    .call (.declare twoDeclared.recurring)]

/-- The steps of the second caller, up to the answer. -/
def whileDeclared : List Event :=
  (List.range 8).map fun n =>
    .advance 1 { now := ⟨(10 + n : Nat), 0⟩, fresh := ⟨BitVec.ofNat 128 (10 + n)⟩ }

/-- Both jobs are registered, beside the trigger that was there. -/
theorem declared_of_run_twice :
    ∃ s u : System Unit,
      (initial twoDeclared ⟨Dict.empty.insert "job" ()⟩ Store.empty).run beforeDeclared = some s ∧
      s.run whileDeclared = some u ∧
      u.realm.triggers.map (·.1) = [⟨⟨2⟩⟩, ⟨⟨12⟩⟩, ⟨⟨15⟩⟩] ∧
      Declared twoDeclared 1 s whileDeclared u := by
  have hBefore : (initial twoDeclared ⟨Dict.empty.insert "job" ()⟩ Store.empty).run
      beforeDeclared = some (⟨_, [.answered (.ok (.trigger ⟨⟨2⟩⟩)),
        .caller (.made (.declare twoDeclared.recurring))]⟩ : System Unit) := rfl
  have hEnd : ((initial twoDeclared ⟨Dict.empty.insert "job" ()⟩ Store.empty).run
      (beforeDeclared ++ whileDeclared)).map (fun u : System Unit =>
        (u.realm.stopping, u.realm.triggers.map (·.1))) =
      some (false, [⟨⟨2⟩⟩, ⟨⟨12⟩⟩, ⟨⟨15⟩⟩]) := by
    decide +kernel
  have hIds : ((initial twoDeclared ⟨Dict.empty.insert "job" ()⟩ Store.empty :
      System Unit).trail registrations (beforeDeclared ++ whileDeclared)).Nodup := by
    decide +kernel
  rw [run_append_of_run hBefore] at hEnd
  obtain ⟨u, hRun, hSeen⟩ := Option.map_eq_some_iff.mp hEnd
  obtain ⟨hOpen, hTriggers⟩ := Prod.mk.inj hSeen
  exact ⟨_, u, hBefore, hRun, hTriggers,
    declared_of_run (by decide +kernel) (by decide +kernel) hBefore rfl hRun hOpen hIds⟩

end System

end BackgroundJobs
