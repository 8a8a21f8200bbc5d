import BackgroundJobs.Proofs.Realm.Firing
import BackgroundJobs.Proofs.Realm.Recovery
import BackgroundJobs.Proofs.Realm.Undisturbed

/-!
# Proofs — registering a list of jobs

A list of recurring jobs is registered entry by entry. Each one is looked at only
when its turn comes: it is put into the table of triggers, or it ends the call with
an error, and nobody takes back what was registered before it. So a call that fails
leaves the triggers of the entries before the one that it failed at, and changes
nothing only if that was the first one. A call that succeeds has registered all.

Main results:

* `Registration.makes_of_entry`, `Registration.refused_of_entry` — an entry is
  registered, or there is a reason why it is not.
* `Thread.Enlisting.step`          — what each step of the call does.
* `answered_of_enlisting`          — the call gets its answer.
* `enlisted_of_run`                — what is registered, and what an error says.
-/

namespace BackgroundJobs

variable {δ : Type} {cue : Cue} {r r' : Realm δ} {th th' : Thread δ} {crew : List (Thread δ)}
  {entry : RecurringSettings} {entries : List RecurringSettings}

-- ---------------------------------------------------------------------------
-- One entry
-- ---------------------------------------------------------------------------

/-- Is that a trigger of the entry, which has not fired yet and which the realm can make runs of? -/
structure RecurringSettings.Makes (entry : RecurringSettings) (r : Realm δ) (e : TriggerEntry) :
    Prop where
  schedule : entry.parsedSchedule = .ok e.schedule
  template : entry.toRequest = .ok e.template
  group : e.template.group = entry.group
  taken : r.Takes e.template
  unused : ∃ now, e = .make e.template e.schedule now

/-- Why a realm does not register an entry, with the error that says so. -/
inductive RecurringSettings.Refused (entry : RecurringSettings) (r : Realm δ) : JobError → Prop
  | schedule {e : ScheduleError} (unreadable : entry.parsedSchedule = .error e) :
      Refused entry r (.invalidSchedule e)
  | closed (stops : r.stopping = true) : Refused entry r (.shutDown r.settings.name)
  | job (unknown : r.registry.contains entry.jobKey = false) :
      Refused entry r (.unknownJob entry.jobKey)
  | group {group : String} (wanted : entry.group = some group)
      (unserved : group ∉ r.settings.groups) :
      Refused entry r (.unknownGroup r.settings.name group)

theorem Registry.lookup_eq_error {registry : Registry δ} {key : String} {e : JobError} :
    registry.lookup key = .error e ↔ registry.contains key = false ∧ e = .unknownJob key := by
  unfold lookup contains Dict.contains
  cases registry.definitions.get? key <;> simp [eq_comm]

theorem Realm.resolveGroup_eq_error {wanted : Option String} {e : JobError} :
    r.resolveGroup wanted = .error e ↔ ∃ group, wanted = some group ∧
      group ∉ r.settings.groups ∧ e = .unknownGroup r.settings.name group := by
  cases wanted with
  | none => simp [resolveGroup]
  | some group => by_cases h : group ∈ r.settings.groups <;> simp [resolveGroup, h, eq_comm]

theorem RecurringSettings.request_of_toRequest {request : JobRequest}
    (h : entry.toRequest = .ok request) :
    ∃ schedule, entry.parsedSchedule = .ok schedule ∧ request.trigger = .recurring schedule ∧
      request.jobKey = entry.jobKey ∧ request.group = entry.group := by
  unfold toRequest at h
  split at h
  · cases h
  · next schedule hParsed =>
    cases h
    exact ⟨schedule, hParsed, rfl, rfl, rfl⟩

theorem RecurringSettings.refused_of_toRequest {e : JobError} (h : entry.toRequest = .error e)
    (r : Realm δ) : entry.Refused r e := by
  unfold toRequest at h
  split at h
  · next hParsed =>
    cases h
    exact .schedule hParsed
  · cases h

theorem Registration.makes_of_entry {request : JobRequest} {now : Instant} {e : TriggerEntry}
    (hRequest : entry.toRequest = .ok request) (h : Registration.entry r request now = .ok e) :
    entry.Makes r e := by
  obtain ⟨schedule, hParsed, hTrigger, -, hGroup⟩ := RecurringSettings.request_of_toRequest hRequest
  obtain ⟨-, hTakes, schedule', hSame, rfl⟩ := entry_eq_ok.mp h
  cases hTrigger.symm.trans hSame
  exact ⟨hParsed, hRequest, hGroup, hTakes, now, rfl⟩

theorem Registration.refused_of_entry {request : JobRequest} {now : Instant} {e : JobError}
    (hRequest : entry.toRequest = .ok request) (h : Registration.entry r request now = .error e) :
    entry.Refused r e := by
  obtain ⟨schedule, -, hTrigger, hKey, hGroup⟩ := RecurringSettings.request_of_toRequest hRequest
  unfold Registration.entry at h
  split at h
  · next hStopping =>
    cases h
    exact .closed hStopping
  · rw [hTrigger] at h
    cases hKnown : r.registry.lookup request.jobKey with
    | error x =>
      rw [hKnown] at h
      cases h
      obtain ⟨hUnknown, rfl⟩ := Registry.lookup_eq_error.mp hKnown
      rw [hKey] at hUnknown ⊢
      exact .job hUnknown
    | ok definition =>
      cases hServed : r.resolveGroup request.group with
      | error x =>
        rw [hKnown, hServed] at h
        cases h
        obtain ⟨group, hWanted, hUnserved, rfl⟩ := Realm.resolveGroup_eq_error.mp hServed
        exact .group (hGroup.symm.trans hWanted) hUnserved
      | ok group =>
        rw [hKnown, hServed] at h
        cases h

namespace RecurringSettings

/-- An open realm has no reason to refuse an entry whose trigger it could make runs of. -/
theorem Makes.not_refused {e : TriggerEntry} {error : JobError} (h : entry.Makes r e)
    (hOpen : r.stopping = false) : ¬ entry.Refused r error := by
  intro hRefused
  obtain ⟨schedule, hParsed, -, hKey, hGroup⟩ := request_of_toRequest h.template
  obtain ⟨⟨definition, hKnown⟩, group, hServed⟩ := h.taken
  cases hRefused with
  | schedule unreadable => cases hParsed.symm.trans unreadable
  | closed stops => cases hOpen.symm.trans stops
  | job unknown =>
    rw [hKey, Registry.lookup_eq_error.mpr ⟨unknown, rfl⟩] at hKnown
    cases hKnown
  | group wanted unserved =>
    rw [hGroup, Realm.resolveGroup_eq_error.mpr ⟨_, wanted, unserved, rfl⟩] at hServed
    cases hServed

theorem Makes.mono {e : TriggerEntry} (h : entry.Makes r e) (hSettings : r'.settings = r.settings)
    (hRegistry : r'.registry = r.registry) : entry.Makes r' e :=
  { h with taken := (Realm.takes_congr hSettings hRegistry).mpr h.taken }

/-- A realm never changes its mind, but that it may close. -/
theorem Refused.mono {e : JobError} (h : entry.Refused r e)
    (hSettings : r'.settings = r.settings) (hRegistry : r'.registry = r.registry)
    (hStopping : r.stopping = true → r'.stopping = true) : entry.Refused r' e := by
  cases h with
  | schedule unreadable => exact .schedule unreadable
  | closed stops =>
    rw [← hSettings]
    exact .closed (hStopping stops)
  | job unknown => exact .job (hRegistry ▸ unknown)
  | group wanted unserved =>
    rw [← hSettings] at unserved ⊢
    exact .group wanted unserved

end RecurringSettings

-- ---------------------------------------------------------------------------
-- Entry by entry
-- ---------------------------------------------------------------------------

/-- The table with more triggers put into it, one after the other. -/
def Triggers.insertAll (table : Triggers) (more : List (TriggerId × TriggerEntry)) : Triggers :=
  more.foldl (fun t x => insert x.1 x.2 t) table

theorem Triggers.insertAll_append (table : Triggers) (l l' : List (TriggerId × TriggerEntry)) :
    table.insertAll (l ++ l') = (table.insertAll l).insertAll l' :=
  List.foldl_append

/-- The table binds every new trigger and is otherwise what it was. -/
theorem Triggers.find?_insertAll {more : List (TriggerId × TriggerEntry)}
    (hNodup : (more.map (·.1)).Nodup) (table : Triggers) (t : TriggerId) :
    (table.insertAll more).find? t = (more.lookup t).or (table.find? t) := by
  induction more generalizing table with
  | nil => rfl
  | cons first rest ih =>
    obtain ⟨id, entry⟩ := first
    obtain ⟨hNew, hRest⟩ := List.nodup_cons.mp hNodup
    rw [insertAll, List.foldl_cons]
    refine (ih hRest _).trans ?_
    by_cases hSame : t = id
    · subst hSame
      have hOnce : rest.lookup t = none := by
        refine List.lookup_eq_none_iff.mpr fun x hx => ?_
        have hNe : t ≠ x.1 := fun hEq => hNew (hEq ▸ List.mem_map_of_mem (f := (·.1)) hx)
        simpa using hNe
      simp [hOnce, find?_insert_self]
    · rw [find?_insert_of_ne hSame, List.lookup_cons, beq_false_of_ne hSame]

/-- New triggers change the table. -/
theorem Triggers.insertAll_eq_self {table : Triggers} {more : List (TriggerId × TriggerEntry)}
    (hNodup : (more.map (·.1)).Nodup) (hNew : ∀ x ∈ more, table.find? x.1 = none) :
    table.insertAll more = table ↔ more = [] := by
  refine ⟨fun hSame => ?_, fun hNone => by rw [hNone]; rfl⟩
  cases more with
  | nil => rfl
  | cons x others =>
    have hFound := find?_insertAll hNodup table x.1
    rw [hSame, hNew x List.mem_cons_self, List.lookup_cons_self] at hFound
    cases hFound

/-- Where a thread is that registers a list of entries, with the triggers that it has put into the
table and the number of steps that it has yet to take. -/
inductive Thread.Enlisting (r : Realm δ) (entries : List RecurringSettings) :
    List (TriggerId × TriggerEntry) → Nat → Thread δ → Prop
  | made : Enlisting r entries [] (3 * entries.length + 2) (.caller (.made (.declare entries)))
  | next {past rest : List RecurringSettings} {made : List (TriggerId × TriggerEntry)}
      (split : entries = past ++ rest)
      (enlisted : List.Forall₂ (fun entry x => entry.Makes r x.2) past made) :
      Enlisting r entries made (3 * rest.length + 1)
        (.caller (.declaring (.next rest (made.map (·.1)))))
  | opening {past rest : List RecurringSettings} {made : List (TriggerId × TriggerEntry)}
      {entry : RecurringSettings} {request : JobRequest}
      (split : entries = past ++ entry :: rest)
      (enlisted : List.Forall₂ (fun entry x => entry.Makes r x.2) past made)
      (requests : entry.toRequest = .ok request) :
      Enlisting r entries made (3 * rest.length + 3)
        (.caller (.declaring (.registering (.opening request) rest (made.map (·.1)))))
  | inserting {past rest : List RecurringSettings} {made : List (TriggerId × TriggerEntry)}
      {entry : RecurringSettings} {id : TriggerId} {e : TriggerEntry}
      (split : entries = past ++ entry :: rest)
      (enlisted : List.Forall₂ (fun entry x => entry.Makes r x.2) past made)
      (makes : entry.Makes r e) :
      Enlisting r entries made (3 * rest.length + 2)
        (.caller (.declaring (.registering (.inserting id e) rest (made.map (·.1)))))
  | accepted {made : List (TriggerId × TriggerEntry)}
      (enlisted : List.Forall₂ (fun entry x => entry.Makes r x.2) entries made) :
      Enlisting r entries made 0 (.answered (.ok (.triggers (made.map (·.1)))))
  | refused {past rest : List RecurringSettings} {made : List (TriggerId × TriggerEntry)}
      {entry : RecurringSettings} {error : JobError}
      (split : entries = past ++ entry :: rest)
      (enlisted : List.Forall₂ (fun entry x => entry.Makes r x.2) past made)
      (why : entry.Refused r error) :
      Enlisting r entries made 0 (.answered (.error error))

namespace Thread.Enlisting

variable {made : List (TriggerId × TriggerEntry)} {left : Nat}

theorem mono (h : Enlisting r entries made left th) (hSettings : r'.settings = r.settings)
    (hRegistry : r'.registry = r.registry) (hStopping : r.stopping = true → r'.stopping = true) :
    Enlisting r' entries made left th := by
  have hMakes {entry : RecurringSettings} {x : TriggerEntry} (h : entry.Makes r x) :
      entry.Makes r' x :=
    h.mono hSettings hRegistry
  cases h with
  | made => exact .made
  | next split enlisted => exact .next split (enlisted.imp fun _ _ => hMakes)
  | opening split enlisted requests =>
    exact .opening split (enlisted.imp fun _ _ => hMakes) requests
  | inserting split enlisted makes =>
    exact .inserting split (enlisted.imp fun _ _ => hMakes) (hMakes makes)
  | accepted enlisted => exact .accepted (enlisted.imp fun _ _ => hMakes)
  | refused split enlisted why =>
    exact .refused split (enlisted.imp fun _ _ => hMakes) (why.mono hSettings hRegistry hStopping)

/-- Each step brings the thread closer to its answer, and changes nothing but that it puts the
trigger into the table which the thread has in hand. -/
theorem step (h : Enlisting r entries made left th)
    (hStep : th.step cue r = some (r', th', crew)) :
    crew = [] ∧ r' = { r with triggers := r.triggers.insertAll th.pending?.toList } ∧
      ∃ left' < left, Enlisting r' entries (made ++ th.pending?.toList) left' th' := by
  cases h with
  | made =>
    cases hStep
    have hSplit : entries = [] ++ entries := rfl
    refine ⟨rfl, rfl, _, ?_, .next hSplit .nil⟩
    omega
  | @next past rest _ split enlisted =>
    have hNothing : made ++ ([] : List (TriggerId × TriggerEntry)) = made := List.append_nil made
    cases rest with
    | nil =>
      cases hStep
      rw [List.append_nil] at split
      exact ⟨rfl, rfl, 0, by omega, hNothing.symm ▸ .accepted (split ▸ enlisted)⟩
    | cons entry rest =>
      cases hRequest : entry.toRequest with
      | error e =>
        simp only [Thread.step, CallPoint.step, Declaration.step, hRequest] at hStep
        cases hStep
        refine ⟨rfl, rfl, 0, by omega, hNothing.symm ▸ .refused split enlisted ?_⟩
        exact RecurringSettings.refused_of_toRequest hRequest _
      | ok request =>
        simp only [Thread.step, CallPoint.step, Declaration.step, hRequest] at hStep
        cases hStep
        refine ⟨rfl, rfl, 3 * rest.length + 3, ?_, hNothing.symm ▸ .opening split enlisted hRequest⟩
        rw [List.length_cons]
        omega
  | @opening past rest _ entry request split enlisted hRequest =>
    have hNothing : made ++ ([] : List (TriggerId × TriggerEntry)) = made := List.append_nil made
    cases hEntry : Registration.entry r request cue.now with
    | ok e =>
      simp only [Thread.step, CallPoint.step, Declaration.step, Registration.step, hEntry] at hStep
      cases hStep
      refine ⟨rfl, rfl, 3 * rest.length + 2, by omega, hNothing.symm ▸ .inserting split enlisted ?_⟩
      exact Registration.makes_of_entry hRequest hEntry
    | error e =>
      simp only [Thread.step, CallPoint.step, Declaration.step, Registration.step, hEntry] at hStep
      cases hStep
      refine ⟨rfl, rfl, 0, by omega, hNothing.symm ▸ .refused split enlisted ?_⟩
      exact Registration.refused_of_entry hRequest hEntry
  | @inserting past rest _ entry id e split enlisted hMakes =>
    simp only [Thread.step, CallPoint.step, Declaration.step, Registration.step] at hStep
    split at hStep
    · cases hStep
    · cases hStep
      refine ⟨rfl, rfl, 3 * rest.length + 1, by omega, ?_⟩
      have hMade : (made ++ [(id, e)]).map (·.1) = made.map (·.1) ++ [id] := by simp
      have hSplit : entries = (past ++ [entry]) ++ rest := by simp [split]
      have hNext : Enlisting r entries (made ++ [(id, e)]) (3 * rest.length + 1)
          (.caller (.declaring (.next rest (made.map (·.1) ++ [id]))) : Thread δ) := by
        rw [← hMade]
        exact .next hSplit (List.rel_append enlisted (.cons hMakes .nil))
      exact hNext.mono rfl rfl fun hStops => hStops
  | accepted | refused => cases hStep

/-- Only the table of triggers makes the thread wait. -/
theorem exists_step (h : Enlisting r entries made left th) (hLeft : left ≠ 0)
    (hFree : r.triggersHeld = false) (cue : Cue) : ∃ result, th.step cue r = some result := by
  cases h with
  | made => exact ⟨_, rfl⟩
  | @next past rest _ split enlisted =>
    cases rest with
    | nil => exact ⟨_, rfl⟩
    | cons entry rest => cases hRequest : entry.toRequest <;>
        simp [Thread.step, CallPoint.step, Declaration.step, hRequest]
  | @opening past rest _ entry request split enlisted hRequest =>
    cases hEntry : Registration.entry r request cue.now <;>
      simp [Thread.step, CallPoint.step, Declaration.step, Registration.step, hEntry]
  | inserting split enlisted makes =>
    simp [Thread.step, CallPoint.step, Declaration.step, Registration.step, hFree]
  | accepted | refused => exact (hLeft rfl).elim

theorem left_le (h : Enlisting r entries made left th) : left ≤ 3 * entries.length + 2 := by
  cases h with
  | made => exact Nat.le_refl _
  | next split enlisted =>
    rw [split, List.length_append]
    omega
  | opening split enlisted | inserting split enlisted =>
    rw [split, List.length_append, List.length_cons]
    omega
  | accepted | refused => omega

theorem answered_of_zero (h : Enlisting r entries made 0 th) : ∃ answer, th = .answered answer := by
  cases h <;> exact ⟨_, rfl⟩

theorem accepted_of_answered {reply : Reply}
    (h : Enlisting r entries made left (.answered (.ok reply))) :
    reply = .triggers (made.map (·.1)) ∧
      List.Forall₂ (fun entry x => entry.Makes r x.2) entries made := by
  cases h with
  | accepted enlisted => exact ⟨rfl, enlisted⟩

theorem refused_of_answered {e : JobError}
    (h : Enlisting r entries made left (.answered (.error e))) :
    ∃ past entry rest, entries = past ++ entry :: rest ∧
      List.Forall₂ (fun entry x => entry.Makes r x.2) past made ∧ entry.Refused r e := by
  cases h with
  | refused split enlisted why => exact ⟨_, _, _, split, enlisted, why⟩

/-- Nothing was registered before an error exactly if it is about the first entry. -/
theorem made_eq_nil_iff {e : JobError} (h : Enlisting r entries made left (.answered (.error e)))
    (hClosed : r.stopping = true → made = []) :
    made = [] ↔ ∃ first rest, entries = first :: rest ∧ first.Refused r e := by
  obtain ⟨past, entry, rest, hSplit, hMade, hWhy⟩ := h.refused_of_answered
  constructor
  · rintro rfl
    rw [List.forall₂_nil_right_iff.mp hMade] at hSplit
    exact ⟨entry, rest, hSplit, hWhy⟩
  · rintro ⟨first, others, hFirst, hFails⟩
    cases hMade with
    | nil => rfl
    | cons hMakes _ =>
      cases hFirst.symm.trans hSplit
      have hOpen : r.stopping = false := by
        by_contra hStops
        cases hClosed (by simpa using hStops)
      exact (hMakes.not_refused hOpen hFails).elim

end Thread.Enlisting

-- ---------------------------------------------------------------------------
-- Runs
-- ---------------------------------------------------------------------------

namespace System

variable {s u v : System δ} {e : Event} {events more : List Event} {i : Nat}
  {made : List (TriggerId × TriggerEntry)} {left : Nat}

/-- The triggers that thread `i` puts into the table. -/
def registered (i : Nat) (s : System δ) : Event → List (TriggerId × TriggerEntry)
  | .advance j _ => if j = i then (s.threads[i]?.bind (·.pending?)).toList else []
  | _ => []

theorem registered_self (hAt : s.threads[i]? = some th) :
    registered i s (.advance i cue) = th.pending?.toList := by
  simp only [registered, if_pos, hAt, Option.bind_some]

theorem registered_of_ne (hOther : ∀ cue, e ≠ .advance i cue) : registered i s e = [] := by
  cases e with
  | advance j cue => exact if_neg fun hEq => hOther cue (by rw [hEq])
  | call | sweep => rfl

/-- What a thread that registers a list of entries has put into the table so far. -/
theorem enlisting_of_run (hAt : s.threads[i]? = some (.caller (.made (.declare entries))))
    (hMore : s.run more = some u) : ∃ left th, u.threads[i]? = some th ∧
      th.Enlisting u.realm entries (s.trail (registered i) more) left := by
  refine run_induction (motive := fun more u => ∃ left th, u.threads[i]? = some th ∧
    th.Enlisting u.realm entries (s.trail (registered i) more) left) hMore ⟨_, _, hAt, .made⟩ ?_
  rintro before v e w hBefore hStep ⟨left, th, hThread, hEnlisting⟩
  rw [trail_concat hBefore]
  by_cases hOwn : ∃ cue, e = .advance i cue
  · obtain ⟨cue, rfl⟩ := hOwn
    obtain ⟨r', th', crew, hTaken, rfl⟩ := step_advance_at hThread hStep
    obtain ⟨-, -, left', -, hNext⟩ := hEnlisting.step hTaken
    rw [registered_self hThread]
    exact ⟨left', th', thread_of_advance_self hThread, hNext⟩
  · have hOther : ∀ cue, e ≠ .advance i cue := fun cue hEq => hOwn ⟨cue, hEq⟩
    rw [registered_of_ne hOther, List.append_nil]
    exact ⟨left, th, thread_of_step_of_ne hStep hThread hOther,
      hEnlisting.mono (settings_of_step hStep) (registry_of_step hStep) (stopping_of_step hStep)⟩

/-- A thread that registers a list of entries gets its answer while it has the table for itself. -/
theorem answered_of_enlisting (hFree : s.realm.triggersHeld = false)
    (hAt : s.threads[i]? = some th) (hEnlisting : th.Enlisting s.realm entries made left)
    {cues : List Cue} (hEnough : left ≤ cues.length) :
    ∃ mine v answer made', mine <+: cues ∧ s.run (mine.map (.advance i)) = some v ∧
      v.realm = { s.realm with triggers := v.realm.triggers } ∧
      v.threads[i]? = some (.answered answer) ∧
      (Thread.answered answer : Thread δ).Enlisting v.realm entries made' 0 := by
  induction left using Nat.strong_induction_on generalizing s th made cues with
  | _ left ih =>
    rcases Nat.eq_zero_or_pos left with rfl | hLeft
    · obtain ⟨answer, rfl⟩ := hEnlisting.answered_of_zero
      exact ⟨[], s, answer, made, List.nil_prefix, rfl, rfl, hAt, hEnlisting⟩
    obtain ⟨cue, rest, rfl⟩ := List.exists_cons_of_length_pos (Nat.lt_of_lt_of_le hLeft hEnough)
    rw [List.length_cons] at hEnough
    obtain ⟨⟨r', th', crew⟩, hTaken⟩ := hEnlisting.exists_step hLeft.ne' hFree cue
    have hStep : s.step (.advance i cue) = some ⟨r', s.threads.set i th' ++ crew⟩ := by
      simp [System.step, hAt, hTaken]
    obtain ⟨rfl, rfl, left', hFewer, hNext⟩ := hEnlisting.step hTaken
    have hEnough' : left' ≤ rest.length := by omega
    obtain ⟨mine, v, answer, made', hMine, hRun, hSame, hAnswer, hDone⟩ := ih left' hFewer
      (s := ⟨{ s.realm with triggers := s.realm.triggers.insertAll th.pending?.toList },
        s.threads.set i th' ++ []⟩)
      hFree (thread_of_advance_self hAt) hNext hEnough'
    refine ⟨cue :: mine, v, answer, made', List.cons_prefix_cons.mpr ⟨rfl, hMine⟩, ?_, hSame,
      hAnswer, hDone⟩
    rw [List.map_cons, run, hStep, Option.bind_some, hRun]

/-- What a step of the thread that registers a list of entries does to the realm. -/
theorem realm_of_enlisting (hAt : s.threads[i]? = some th)
    (hEnlisting : th.Enlisting s.realm entries made left)
    (hStep : s.step (.advance i cue) = some v) :
    v.realm = { s.realm with
      triggers := s.realm.triggers.insertAll (registered i s (.advance i cue)) } := by
  obtain ⟨r', th', crew, hTaken, rfl⟩ := step_advance_at hAt hStep
  obtain ⟨-, rfl, -⟩ := hEnlisting.step hTaken
  rw [registered_self hAt]

/-- What the thread makes of the realm if nobody else takes a step. -/
theorem realm_of_own_steps (hAt : s.threads[i]? = some (.caller (.made (.declare entries))))
    (hMore : s.run more = some u) (hOwn : ∀ e ∈ more, ∃ cue, e = .advance i cue) :
    u.realm = { s.realm with
      triggers := s.realm.triggers.insertAll (s.trail (registered i) more) } := by
  refine run_induction (motive := fun more u => (∀ e ∈ more, ∃ cue, e = .advance i cue) →
    u.realm = { s.realm with
      triggers := s.realm.triggers.insertAll (s.trail (registered i) more) })
    hMore (fun _ => rfl) ?_ hOwn
  intro before v e w hBefore hStep ih hOwn
  rw [List.forall_mem_append] at hOwn
  obtain ⟨cue, rfl⟩ := hOwn.2 e (List.mem_singleton_self e)
  obtain ⟨left, th, hThread, hEnlisting⟩ := enlisting_of_run hAt hBefore
  rw [realm_of_enlisting hThread hEnlisting hStep, trail_concat hBefore, Triggers.insertAll_append,
    ih hOwn.1]

/-- A closed realm registers nothing. -/
theorem registered_of_closed (hStops : s.realm.stopping = true) (hAt : s.threads[i]? = some th)
    (hPending : th.pending? = none) (hMore : s.run more = some u) :
    s.trail (registered i) more = [] := by
  suffices s.trail (registered i) more = [] ∧ u.realm.stopping = true ∧
      ∃ th, u.threads[i]? = some th ∧ th.pending? = none from this.1
  refine run_induction (motive := fun more u => s.trail (registered i) more = [] ∧
    u.realm.stopping = true ∧ ∃ th, u.threads[i]? = some th ∧ th.pending? = none) hMore
    ⟨rfl, hStops, th, hAt, hPending⟩ ?_
  rintro before v e w hBefore hStep ⟨hNone, hClosed, th, hThread, hPending⟩
  have hStill : w.realm.stopping = true := stopping_of_step hStep hClosed
  rw [trail_concat hBefore, hNone, List.nil_append]
  by_cases hOwn : ∃ cue, e = .advance i cue
  · obtain ⟨cue, rfl⟩ := hOwn
    obtain ⟨r', th', crew, hTaken, rfl⟩ := step_advance_at hThread hStep
    refine ⟨?_, hStill, th', thread_of_advance_self hThread, ?_⟩
    · rw [registered_self hThread, hPending]
      rfl
    · by_contra hSome
      obtain ⟨⟨t, x⟩, hNew⟩ := Option.ne_none_iff_exists'.mp hSome
      obtain ⟨request, hEntry⟩ := Thread.pending_of_step hTaken hNew
      obtain ⟨hOpen, -⟩ := Registration.entry_eq_ok.mp hEntry
      cases hOpen.symm.trans hClosed
  · have hOther : ∀ cue, e ≠ .advance i cue := fun cue hEq => hOwn ⟨cue, hEq⟩
    exact ⟨registered_of_ne hOther, hStill, th, thread_of_step_of_ne hStep hThread hOther, hPending⟩

/-- What comes of registering a list of entries, from where thread `i` was about to begin with it in
`s`, in the course of a run that has led to `u` so far. -/
structure Enlisted (entries : List RecurringSettings) (i : Nat) (s : System δ) (more : List Event)
    (u : System δ) : Prop where
  /-- The thread gets an answer as soon as it has the table for itself for long enough. -/
  finishes : u.realm.triggersHeld = false → ∀ cues : List Cue,
    3 * entries.length + 2 ≤ cues.length → ∃ mine v answer, mine <+: cues ∧
      u.run (mine.map (.advance i)) = some v ∧ v.threads[i]? = some (.answered answer)
  /-- Success means that there is a trigger for each entry, in that order. -/
  accepted : ∀ reply, u.threads[i]? = some (.answered (.ok reply)) →
    reply = .triggers ((s.trail (registered i) more).map (·.1)) ∧
      List.Forall₂ (fun entry x => entry.Makes u.realm x.2) entries (s.trail (registered i) more)
  /-- An error says what is wrong with an entry, and there is a trigger for each entry before it. -/
  refused : ∀ e, u.threads[i]? = some (.answered (.error e)) → ∃ past entry rest,
    entries = past ++ entry :: rest ∧
      List.Forall₂ (fun entry x => entry.Makes u.realm x.2) past (s.trail (registered i) more) ∧
      entry.Refused u.realm e
  /-- Each step of the thread puts the next trigger into the table, or changes nothing at all. -/
  own : ∀ cue v, u.step (.advance i cue) = some v → v.realm = { u.realm with
    triggers := u.realm.triggers.insertAll (registered i u (.advance i cue)) }
  /-- A realm that was closed before gets no trigger. -/
  closed : s.realm.stopping = true → s.trail (registered i) more = []
  /-- Unless others take steps too, these triggers are all that the table has gained, and every
  earlier one is as it was. -/
  alone : (∀ e ∈ more, ∃ cue, e = .advance i cue) →
    u.realm = { s.realm with triggers := u.realm.triggers } ∧ ∀ t, u.realm.triggers.find? t =
      ((s.trail (registered i) more).lookup t).or (s.realm.triggers.find? t)
  /-- Then an error leaves the table as it was only if it is about the first entry. -/
  unchanged : (∀ e ∈ more, ∃ cue, e = .advance i cue) →
    ∀ e, u.threads[i]? = some (.answered (.error e)) →
      (u.realm.triggers = s.realm.triggers ↔
        ∃ first rest, entries = first :: rest ∧ first.Refused s.realm e)

/-- A list of entries is registered up to the first one that the realm refuses, which the error
tells; and a list that has none is registered as a whole. -/
theorem enlisted_of_run (hAt : s.threads[i]? = some (.caller (.made (.declare entries))))
    (hMore : s.run more = some u)
    (hIds : ((s.trail (registered i) more).map (·.1)).Nodup)
    (hNew : ∀ x ∈ s.trail (registered i) more, s.realm.triggers.find? x.1 = none) :
    Enlisted entries i s more u := by
  obtain ⟨left, th, hThread, hEnlisting⟩ := enlisting_of_run hAt hMore
  have hClosed (hStops : s.realm.stopping = true) : s.trail (registered i) more = [] :=
    registered_of_closed hStops hAt rfl hMore
  constructor
  case finishes =>
    intro hFree cues hEnough
    obtain ⟨mine, v, answer, -, hMine, hRun, -, hAnswer, -⟩ :=
      answered_of_enlisting hFree hThread hEnlisting (hEnlisting.left_le.trans hEnough)
    exact ⟨mine, v, answer, hMine, hRun, hAnswer⟩
  case accepted =>
    intro reply hAnswered
    cases hThread.symm.trans hAnswered
    exact hEnlisting.accepted_of_answered
  case refused =>
    intro e hAnswered
    cases hThread.symm.trans hAnswered
    exact hEnlisting.refused_of_answered
  case own => exact fun cue v hStep => realm_of_enlisting hThread hEnlisting hStep
  case closed => exact hClosed
  case alone =>
    intro hOwn
    rw [realm_of_own_steps hAt hMore hOwn]
    exact ⟨rfl, Triggers.find?_insertAll hIds s.realm.triggers⟩
  case unchanged =>
    intro hOwn e hAnswered
    cases hThread.symm.trans hAnswered
    have hRealm := realm_of_own_steps hAt hMore hOwn
    have hStopping : u.realm.stopping = s.realm.stopping := by rw [hRealm]
    have hTable : u.realm.triggers = s.realm.triggers ↔ s.trail (registered i) more = [] := by
      rw [hRealm]
      exact Triggers.insertAll_eq_self hIds hNew
    have hSame (first : RecurringSettings) : first.Refused u.realm e ↔ first.Refused s.realm e := by
      constructor <;> intro h
      · exact h.mono (settings_of_run hMore).symm (registry_of_run hMore).symm (hStopping ▸ id)
      · exact h.mono (settings_of_run hMore) (registry_of_run hMore) (hStopping ▸ id)
    rw [hTable, hEnlisting.made_eq_nil_iff (hStopping ▸ hClosed)]
    simp only [hSame]

/-- A list of jobs, with one that nobody knows in the middle. -/
def oneUnknown : List RecurringSettings :=
  [{ jobKey := "job", schedule := "every 5m" }, { jobKey := "missing", schedule := "every 5m" },
    { jobKey := "job", schedule := "every 1h" }]

/-- The steps of caller `i` up to the entry that is refused, from the time `n` on. -/
def whileEnlisted (i n : Nat) : List Event :=
  (List.range 6).map fun k =>
    .advance i { now := ⟨(n + k : Nat), 0⟩, fresh := ⟨BitVec.ofNat 128 (n + k)⟩ }

/-- A second call fails as the first one did, and leaves another trigger of the same job. -/
theorem enlisted_of_run_again :
    ∃ s u : System Unit,
      (initial {} ⟨Dict.empty.insert "job" ()⟩ Store.empty).run
        (.call (.declare oneUnknown) :: whileEnlisted 0 0 ++ [.call (.declare oneUnknown)]) =
          some s ∧
      s.run (whileEnlisted 1 10) = some u ∧
      u.realm.triggers.map (·.1) = [⟨⟨2⟩⟩, ⟨⟨12⟩⟩] ∧
      Enlisted oneUnknown 1 s (whileEnlisted 1 10) u := by
  refine ⟨_, _, rfl, rfl, rfl, enlisted_of_run rfl rfl ?_ ?_⟩
  · decide +kernel
  · decide +kernel

/-- An error leaves a trigger behind. -/
theorem enlists_partly :
    ∃ s u : System Unit,
      (initial {} ⟨Dict.empty.insert "job" ()⟩ Store.empty).run [.call (.declare oneUnknown)] =
        some s ∧
      s.run (whileEnlisted 0 0) = some u ∧
      u.threads[0]? = some (.answered (.error (.unknownJob "missing"))) ∧
      s.realm.triggers = [] ∧ u.realm.triggers ≠ s.realm.triggers := by
  refine ⟨_, _, rfl, rfl, rfl, rfl, ?_⟩
  nofun

end System

end BackgroundJobs
