import BackgroundJobs.Proofs.Realm.Accounts

/-!
# Proofs — recurring triggers

The timer comes to every trigger of the table once in a pass, since the table
is in order and nobody else works on it meanwhile. If the trigger is due, the
timer either makes a run of it or notes that it made none.

Main results:

* `tallied_of_run` — what a pass does to the counters of a trigger.
* `solo_of_run`    — a recurring trigger does not overlap itself.
-/

namespace BackgroundJobs

variable {δ : Type} {cue : Cue} {r r' : Realm δ} {th th' : Thread δ} {crew : List (Thread δ)}
  {t : TriggerId}

-- ---------------------------------------------------------------------------
-- Passes
-- ---------------------------------------------------------------------------

namespace TriggerEntry

/-- Was one more firing counted, either as one that made a run or as one that made none? -/
def Counted (before after : TriggerEntry) : Prop :=
  (after.spawned = before.spawned + 1 ∧ after.skipped = before.skipped) ∨
    (after.spawned = before.spawned ∧ after.skipped = before.skipped + 1)

/-- Is this what a pass at the given time makes of an entry? -/
def Passed (now : Instant) (before after : TriggerEntry) : Prop :=
  if before.isDue now = true then before.Counted after else after = before

/-- Is this what a pass makes of an entry, its next time included? That is the same whether the
firing made a run or not. -/
def Fired (now : Instant) (before after : TriggerEntry) : Prop :=
  if before.isDue now = true then ∃ made, after = (before.advance now).note made
  else after = before

theorem Fired.passed {now : Instant} {before after : TriggerEntry} (h : before.Fired now after) :
    before.Passed now after := by
  unfold Fired at h
  unfold Passed
  split
  · next hDue =>
    rw [if_pos hDue] at h
    obtain ⟨made, rfl⟩ := h
    cases made with
    | some job => exact .inl ⟨rfl, rfl⟩
    | none => exact .inr ⟨rfl, rfl⟩
  · next hEarly => rwa [if_neg hEarly] at h

end TriggerEntry

/-- How far the timer has come with a trigger in the course of a pass. -/
inductive Timer.Round (w : Timer) (table : Triggers) (t : TriggerId) (now : Instant)
    (first : TriggerEntry) : Prop where
  | ahead (current : Option TriggerId) (rest : List TriggerId)
    (pass : w.pass? = some (now, current, rest)) (once : (current.toList ++ rest).Nodup)
    (waits : t ∈ rest) (found : table.find? t = some first)
  | here (rest : List TriggerId)
    (pass : w.pass? = some (now, some t, rest)) (once : t ∉ rest)
    (due : first.isDue now = true) (found : table.find? t = some (first.advance now))
  | behind (current : Option TriggerId) (rest : List TriggerId) (e : TriggerEntry)
    (pass : w.pass? = some (now, current, rest)) (past : t ∉ current.toList ++ rest)
    (found : table.find? t = some e) (fired : first.Fired now e)

section Round

variable {w w' : Timer} {now : Instant} {first : TriggerEntry}

/-- A step of the timer that does not end the pass. -/
theorem Timer.round_step (hLocked : w.locked = true) (h : w.step cue r = some (r', w'))
    (hGoesOn : w'.locked = true) (hRound : w.Round r.triggers t now first) :
    w'.Round r'.triggers t now first := by
  cases stride_of_step hLocked h with
  | ends _ before after =>
    subst after
    cases hGoesOn
  | passes now' id rest before after early same =>
    subst before after
    rw [same.1]
    cases hRound with
    | ahead current rest' pass once waits found =>
      cases pass
      obtain ⟨hId, hRest⟩ := List.nodup_cons.mp once
      rcases List.mem_cons.mp waits with rfl | hWaits
      · refine .behind none rest first rfl hId found ?_
        rw [TriggerEntry.Fired, if_neg (by simp [early first found])]
      · exact .ahead none rest rfl hRest hWaits found
    | here rest' pass => cases pass
    | behind current rest' e pass past found fired =>
      cases pass
      exact .behind none rest e rfl (fun hMem => past (List.mem_cons_of_mem _ hMem)) found fired
  | comes now' id rest e before after hFound due held table =>
    subst before
    rw [table]
    cases hRound with
    | ahead current rest' pass once waits found =>
      cases pass
      rcases List.mem_cons.mp waits with rfl | hWaits
      · cases hFound.symm.trans found
        refine .here rest after (List.nodup_cons.mp once).1 due ?_
        rw [Triggers.find?_modify_self, found]
        rfl
      · have hNe : t ≠ id := fun hEq => (List.nodup_cons.mp once).1 (hEq ▸ hWaits)
        exact .ahead (some id) rest after once hWaits
          (by rw [Triggers.find?_modify_of_ne hNe, found])
    | here rest' pass => cases pass
    | behind current rest' e' pass past found fired =>
      cases pass
      have hNe : t ≠ id := fun hEq => past (hEq ▸ List.mem_cons_self)
      exact .behind (some id) rest e' after past
        (by rw [Triggers.find?_modify_of_ne hNe, found]) fired
  | works now' id rest before after same =>
    rw [same.1]
    cases hRound with
    | ahead current rest' pass once waits found =>
      exact .ahead current rest' (after.trans (before.symm.trans pass)) once waits found
    | here rest' pass once due found =>
      exact .here rest' (after.trans (before.symm.trans pass)) once due found
    | behind current rest' e pass past found fired =>
      exact .behind current rest' e (after.trans (before.symm.trans pass)) past found fired
  | notes now' id rest made before after held table =>
    subst before after
    rw [table]
    cases hRound with
    | ahead current rest' pass once waits found =>
      cases pass
      have hNe : t ≠ id := fun hEq => (List.nodup_cons.mp once).1 (hEq ▸ waits)
      exact .ahead none rest rfl (List.nodup_cons.mp once).2 waits
        (by rw [Triggers.find?_modify_of_ne hNe, found])
    | here rest' pass once due found =>
      cases pass
      refine .behind none rest ((first.advance now).note made) rfl once ?_ ?_
      · rw [Triggers.find?_modify_self, found]
        rfl
      · rw [TriggerEntry.Fired, if_pos due]
        exact ⟨made, rfl⟩
    | behind current rest' e pass past found fired =>
      cases pass
      have hNe : t ≠ id := fun hEq => past (hEq ▸ List.mem_cons_self)
      exact .behind none rest e rfl (fun hMem => past (List.mem_cons_of_mem _ hMem))
        (by rw [Triggers.find?_modify_of_ne hNe, found]) fired

/-- At the end of a pass the timer has been to every trigger. -/
theorem Timer.Round.fired {now' : Instant} {table : Triggers}
    (h : (Timer.passing now' []).Round table t now first) :
    ∃ e, table.find? t = some e ∧ first.Fired now e := by
  cases h with
  | ahead current rest pass once waits =>
    cases pass
    cases waits
  | here rest pass => cases pass
  | behind current rest e pass past found fired => exact ⟨e, found, fired⟩

end Round

namespace System

variable {s u v x : System δ} {e : Event} {events more : List Event} {settings : RealmSettings}
  {registry : Registry δ} {store : Store} {i : Nat} {now : Instant} {w : Timer}
  {first entry : TriggerEntry}

/-- A run in whose course a thread goes through the triggers without a break. -/
def Patrolled (s : System δ) (i : Nat) (events : List Event) : Prop :=
  ∀ b ∈ s.trail (fun u _ => [u.threads[i]?.any (·.patrols)]) events, b = true

/-- Nobody changes the table while another thread goes through it. -/
theorem triggers_of_patrolled {r : Realm δ} (hRun : (ofRealm r).run events = some s)
    (hAt : s.threads[i]? = some th) (hPatrols : th.patrols = true) (hStep : s.step e = some u)
    (hOther : ∀ cue, e ≠ .advance i cue) : u.realm.triggers = s.realm.triggers := by
  have hKept := Lock.kept_of_run triggersLock_lawful hRun
  have hHeld : s.realm.triggersHeld = true := hKept.held hAt hPatrols
  cases e with
  | call call =>
    cases hStep
    rfl
  | sweep cutoff =>
    cases hStep
    rfl
  | advance j cue =>
    obtain ⟨th₁, r', th', crew, hAt₁, hThread, rfl⟩ := step_advance hStep
    have hApart : th₁.patrols = false := by
      by_contra hOwns
      have hPatrols₁ : th₁.patrols = true := by simpa using hOwns
      have hji : j = i := hKept.alone hAt₁ hAt hPatrols₁ hPatrols
      exact hOther cue (by rw [hji])
    cases Thread.edit_of_step hApart hThread with
    | leaves same => exact same.1
    | begins now free | inserts id entry before free | reschedules id entry times found free
    | drops id free =>
      rw [hHeld] at free
      cases free

/-- What holds when a thread begins to go through the triggers, and is kept by its steps and by
those of others, holds as long as it goes on. -/
theorem patrol_induction {r : Realm δ} {motive : List Event → System δ → Timer → Prop}
    (hRun : (ofRealm r).run events = some v) (hAt : v.threads[i]? = some (.timer w))
    (hMore : v.run more = some x) (hPass : v.Patrolled i more) (hStart : motive [] v w)
    (hOwn : ∀ before s cue u w w', v.run before = some s → s.threads[i]? = some (.timer w) →
      s.step (.advance i cue) = some u → w.step cue s.realm = some (u.realm, w') →
      w.locked = true → w'.locked = true → motive before s w →
        motive (before ++ [.advance i cue]) u w')
    (hOther : ∀ before s e u w, v.run before = some s → s.threads[i]? = some (.timer w) →
      s.step e = some u → (∀ cue, e ≠ .advance i cue) → w.locked = true →
      u.realm.triggers = s.realm.triggers → motive before s w → motive (before ++ [e]) u w)
    {w' : Timer} (hAt' : x.threads[i]? = some (.timer w')) (hLocked : w'.locked = true) :
    motive more x w' := by
  refine run_induction (motive := fun more x => v.Patrolled i more → ∀ w' : Timer,
    x.threads[i]? = some (.timer w') → w'.locked = true → motive more x w')
    hMore ?_ ?_ hPass w' hAt' hLocked
  · intro _ w' hAt' _
    cases hAt.symm.trans hAt'
    exact hStart
  · intro before s e u hBefore hStep ih hPass w' hAt' hLocked'
    rw [Patrolled, trail_concat hBefore] at hPass
    have hNow : s.threads[i]?.any (·.patrols) = true :=
      hPass _ (List.mem_append_right _ List.mem_cons_self)
    obtain ⟨th, hth, hPatrols⟩ := (Option.any_eq_true _ _).mp hNow
    obtain ⟨w₀, rfl, hLocked⟩ := Thread.timer_of_patrols hPatrols
    have hOld := ih (fun b hb => hPass b (List.mem_append_left _ hb)) w₀ hth hLocked
    have hUpTo : (ofRealm r).run (events ++ before) = some s := by
      rw [run_append_of_run hRun, hBefore]
    by_cases hApart : ∀ cue, e ≠ .advance i cue
    · cases hAt'.symm.trans (thread_of_step_of_ne hStep hth hApart)
      have hSame := triggers_of_patrolled hUpTo hth hPatrols hStep hApart
      exact hOther before s e u w' hBefore hth hStep hApart hLocked hSame hOld
    · obtain ⟨cue, rfl⟩ := not_forall_not.mp hApart
      obtain ⟨r', th', crew, hThread, rfl⟩ := step_advance_at hth hStep
      obtain ⟨w₁, hTimer, rfl, -⟩ := Thread.step_timer hThread
      cases hAt'.symm.trans (thread_of_advance_self hth)
      exact hOwn before s cue _ w₀ w' hBefore hth hStep hTimer hLocked hLocked' hOld

/-- The timer goes on with a pass until it ends. -/
theorem round_of_run {r : Realm δ} (hRun : (ofRealm r).run events = some v)
    (hAt : v.threads[i]? = some (.timer w)) (hRound : w.Round v.realm.triggers t now first)
    (hMore : v.run more = some x) (hPass : v.Patrolled i more) {w' : Timer}
    (hAt' : x.threads[i]? = some (.timer w')) (hLocked : w'.locked = true) :
    w'.Round x.realm.triggers t now first := by
  refine patrol_induction (motive := fun _ x w' => w'.Round x.realm.triggers t now first)
    hRun hAt hMore hPass hRound ?_ ?_ hAt' hLocked
  · intro _ s cue u w w' _ _ _ hTimer hLocked hLocked' hOld
    exact Timer.round_step hLocked hTimer hLocked' hOld
  · intro _ s e u w _ _ _ _ _ hSame hOld
    rw [hSame]
    exact hOld

/-- A pass leaves a trigger alone that is not due, and moves one on that is. -/
theorem fired_of_run (hRun : (initial settings registry store).run events = some u)
    (hAt : u.threads[i]? = some (.timer (.waiting now)))
    (hBegins : u.step (.advance i cue) = some v) (hMore : v.run more = some x)
    (hPass : v.Patrolled i more) {now' : Instant}
    (hEnds : x.threads[i]? = some (.timer (.passing now' [])))
    (hFound : u.realm.triggers.find? t = some entry) :
    ∃ entry', x.realm.triggers.find? t = some entry' ∧ entry.Fired now entry' := by
  have hAfter : (initial settings registry store).run (events ++ [.advance i cue]) = some v := by
    rw [run_append_of_run hRun, run, hBegins]
    rfl
  obtain ⟨r', th', crew, hThread, rfl⟩ := step_advance_at hAt hBegins
  obtain ⟨w, hTimer, rfl, -⟩ := Thread.step_timer hThread
  simp only [Timer.step] at hTimer
  split at hTimer <;> cases hTimer
  have hOnce := (sorted_of_run hRun).nodup
  have hRound : Timer.Round (.passing now (u.realm.triggers.map (·.1))) u.realm.triggers t now
      entry := .ahead none _ rfl hOnce (Triggers.mem_map_of_find? hFound) hFound
  exact (round_of_run hAfter (thread_of_advance_self hAt) hRound hMore hPass hEnds rfl).fired

/-- A pass leaves a trigger alone that is not due, and counts the firing of one that is. -/
theorem tallied_of_run (hRun : (initial settings registry store).run events = some u)
    (hAt : u.threads[i]? = some (.timer (.waiting now)))
    (hBegins : u.step (.advance i cue) = some v) (hMore : v.run more = some x)
    (hPass : v.Patrolled i more) {now' : Instant}
    (hEnds : x.threads[i]? = some (.timer (.passing now' [])))
    (hFound : u.realm.triggers.find? t = some entry) :
    ∃ entry', x.realm.triggers.find? t = some entry' ∧ entry.Passed now entry' := by
  obtain ⟨entry', hFound', hFired⟩ := fired_of_run hRun hAt hBegins hMore hPass hEnds hFound
  exact ⟨entry', hFound', hFired.passed⟩

/-- A call that drops a trigger leaves none of that id in the table. -/
theorem absent_of_unschedule (hAt : u.threads[i]? = some (.caller (.made (.unschedule t))))
    (hStep : u.step (.advance i cue) = some v) : v.realm.triggers.find? t = none := by
  obtain ⟨r', th', crew, hThread, rfl⟩ := step_advance_at hAt hStep
  have hBegin : ∃ p, Call.begin cue u.realm (.unschedule t) = some (r', p) := by
    rcases Thread.step_caller hThread with ⟨_, hPoint, -⟩ | ⟨_, hPoint, -⟩ <;> exact ⟨_, hPoint⟩
  obtain ⟨p, hBegin⟩ := hBegin
  simp only [Call.begin, Call.onTrigger] at hBegin
  show r'.triggers.find? t = none
  split at hBegin
  · cases hBegin
  · split at hBegin
    · next hNone =>
      cases hBegin
      exact hNone
    · cases hBegin
      show (u.realm.triggers.erase t).find? t = none
      rw [Triggers.find?_erase, if_pos rfl]

-- ---------------------------------------------------------------------------
-- Recurring triggers
-- ---------------------------------------------------------------------------

/-- A recurring trigger that does not overlap itself, of which so many runs were made. -/
structure Solo (s : System δ) (t : TriggerId) (made : Nat) : Prop where
  /-- At most one of its runs is active. -/
  once : ∀ x ∈ s.realm.store.records, ∀ y ∈ s.realm.store.records, x.isActive = true →
    y.isActive = true → x.triggerId = some t → y.triggerId = some t → x = y
  /-- While the timer is not at work on it, as between two passes, its entry tells which run that
  is, and how many were made. -/
  latest : (∀ th ∈ s.threads, th.trigger? ≠ some t) → ∀ e, s.realm.triggers.find? t = some e →
    e.spawned = made ∧ ∀ x ∈ s.realm.store.records, x.isActive = true → x.triggerId = some t →
      e.lastJob = some x.id
  /-- A pass over it counts its firing once if it is due, and else leaves its entry alone. -/
  counted : ∀ (i : Nat) now cue v more x now' e, s.threads[i]? = some (.timer (.waiting now)) →
    s.step (.advance i cue) = some v → v.run more = some x → v.Patrolled i more →
      x.threads[i]? = some (.timer (.passing now' [])) → s.realm.triggers.find? t = some e →
        ∃ e', x.realm.triggers.find? t = some e' ∧ e.Passed now e'
  /-- After it was dropped no run of it is ever made again. -/
  dropped : ∀ (i : Nat) cue v more x, s.threads[i]? = some (.caller (.made (.unschedule t))) →
    s.step (.advance i cue) = some v → v.run more = some x → t ∉ v.trail registrations more →
      ∀ y ∈ v.trail admissions more, y.2.triggerId ≠ some t

theorem Tracks.latest {made : Nat} (h : s.Tracks t made)
    (hIdle : ∀ th ∈ s.threads, th.trigger? ≠ some t)
    (hFound : s.realm.triggers.find? t = some entry) :
    entry.spawned = made ∧ s.realm.store.Lone t entry.lastJob := by
  by_cases hNone : ∀ th ∈ s.threads, th.patrols = false
  · exact h.entry hNone hFound
  · obtain ⟨th, hMem, hPatrols⟩ : ∃ th ∈ s.threads, th.patrols = true := by
      simpa using hNone
    obtain ⟨w, rfl, hLocked⟩ := Thread.timer_of_patrols hPatrols
    obtain ⟨i, hAt⟩ := List.getElem?_of_mem hMem
    have hAgrees := (h.timer hAt hLocked hFound).agrees
    have hNot : w.trigger? ≠ some t := hIdle _ hMem
    cases w with
    | resting | waiting | retired => cases hLocked
    | passing | checking => exact hAgrees
    | firing now id rest a point =>
      rw [Timer.stage, if_neg fun hId => hNot (congrArg some hId)] at hAgrees
      exact hAgrees
    | noting now id rest job =>
      cases job with
      | none => exact hAgrees
      | some job =>
        rw [Timer.stage, if_neg fun hId => hNot (congrArg some hId)] at hAgrees
        exact hAgrees

/-- However a run goes, a recurring trigger never overlaps itself, as long as no trigger gets an id
that was used before. -/
theorem solo_of_run (hRun : (initial settings registry store).run events = some u)
    (hIds : ((initial settings registry store).trail registrations events).Nodup)
    (hNew : ∀ x ∈ store.records, x.triggerId ≠ some t) :
    u.Solo t (spawnedBy t ((initial settings registry store).trail admissions events)) := by
  have hTracks := tracks_of_run hRun hIds hNew
  refine ⟨?_, ?_, ?_, ?_⟩
  · intro x hx y hy hxActive hyActive hxTrigger hyTrigger
    obtain ⟨last, hLone⟩ := hTracks.lone
    have hSame : some x.id = some y.id :=
      (hLone x hx hxActive hxTrigger).symm.trans (hLone y hy hyActive hyTrigger)
    exact Store.eq_of_mem_of_id_eq hx hy (Option.some.inj hSame)
  · intro hIdle e hFound
    exact hTracks.latest hIdle hFound
  · intro i now cue v more x now' e hAt hBegins hMore hPass hEnds hFound
    exact tallied_of_run hRun hAt hBegins hMore hPass hEnds hFound
  · intro i cue v more x hAt hStep hMore hOnce
    have hAfter : (initial settings registry store).run (events ++ [.advance i cue]) = some v := by
      rw [run_append_of_run hRun, run, hStep]
      rfl
    exact (absent_of_run hAfter hMore (absent_of_unschedule hAt hStep) hOnce).2

/-- A trigger is registered. The timer makes a run of it, finds in the next pass that the run still
waits, and is about to begin a third pass when a caller comes who drops the trigger. -/
def overrun : List Event :=
  let request : JobRequest :=
    { jobKey := "job", name := "job", group := none, arguments := Dict.empty,
      metadata := Dict.empty, constraints := [], retryPolicy := none,
      trigger := .recurring (.every (.ofSeconds 1)) }
  let advance (i n : Nat) : Event := .advance i { now := ⟨n, 0⟩, fresh := ⟨BitVec.ofNat 128 n⟩ }
  [.call .start, advance 0 1, advance 0 2, advance 0 3, advance 0 4, advance 0 5,
    .call (.schedule request), advance 3 6, advance 3 7, advance 3 8,
    advance 2 9, advance 2 10, advance 2 11, advance 2 12, advance 2 13, advance 2 14,
    advance 2 15, advance 2 16, advance 2 17, advance 2 18,
    advance 2 19, advance 2 20, advance 2 21, advance 2 22, advance 2 23, advance 2 24,
    advance 2 25, .call (.unschedule ⟨⟨7⟩⟩)]

theorem solo_of_run_overrun :
    ∃ u : System Unit,
      (initial { workers := 1 } ⟨Dict.empty.insert "job" ()⟩ Store.empty).run overrun = some u ∧
      u.realm.store.records.map (·.triggerId) = [some ⟨⟨7⟩⟩] ∧
      (u.realm.triggers.find? ⟨⟨7⟩⟩).map (fun e => (e.spawned, e.skipped)) = some (1, 1) ∧
      u.Solo ⟨⟨7⟩⟩ 1 := by
  have hEnd : ((initial { workers := 1 } ⟨Dict.empty.insert "job" ()⟩ Store.empty).run overrun).map
      (fun u : System Unit => (u.realm.store.records.map (·.triggerId),
        (u.realm.triggers.find? ⟨⟨7⟩⟩).map (fun e => (e.spawned, e.skipped)))) =
      some ([some ⟨⟨7⟩⟩], some (1, 1)) := by
    decide +kernel
  have hIds : ((initial { workers := 1 } ⟨Dict.empty.insert "job" ()⟩ Store.empty :
      System Unit).trail registrations overrun).Nodup := by
    decide +kernel
  have hMade : spawnedBy ⟨⟨7⟩⟩ ((initial { workers := 1 } ⟨Dict.empty.insert "job" ()⟩ Store.empty :
      System Unit).trail admissions overrun) = 1 := by
    decide +kernel
  obtain ⟨u, hRun, hSeen⟩ := Option.map_eq_some_iff.mp hEnd
  obtain ⟨hRecords, hCounters⟩ := Prod.mk.inj hSeen
  have hSolo := solo_of_run hRun hIds (t := ⟨⟨7⟩⟩) fun x hx => (List.not_mem_nil hx).elim
  rw [hMade] at hSolo
  exact ⟨u, hRun, hRecords, hCounters, hSolo⟩

end System

end BackgroundJobs
