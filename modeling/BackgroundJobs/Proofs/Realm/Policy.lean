import BackgroundJobs.Proofs.Realm.Labor
import BackgroundJobs.Proofs.Realm.Retries

/-!
# Proofs — what a retry policy makes of a run

A definition may end each of its calls as it likes: a script says how, by the
number of the call. The retry policy of the run and the script determine
everything that happens to a run that is neither canceled nor shut down: how
often the definition is called, what the record says in the end, and by how much
the run raises the counters of the realm. And it does end: no order in which the
threads take their steps goes on for ever without new calls, and none stops
before the run is over.

Main results:

* `Concluded`      — what is known of a run that is over and counted.
* `policy_of_run`  — every run ends so, and as its policy and its script say.
-/

namespace BackgroundJobs

variable {δ : Type} {id : JobId} {script : Nat → Outcome}

namespace System

variable {s t u : System δ} {e : Event} {events more : List Event} {settings : RealmSettings}
  {registry : Registry δ} {store : Store}

-- ---------------------------------------------------------------------------
-- The run that has ended
-- ---------------------------------------------------------------------------

/-- The record of a run that has ended is what has become of the one that was admitted. -/
theorem sameRun_of_ended (hRun : (initial settings registry store).run events = some u)
    (hIds : ((initial settings registry store).runIds events).Nodup) :
    ∀ p ∈ (initial settings registry store).trail admissions events,
      ∀ y ∈ (initial settings registry store).trail endings events, y.id = p.2.id →
        p.2.SameRun y := by
  refine run_induction_of_nodup (motive := fun events _ =>
    ∀ p ∈ (initial settings registry store).trail admissions events,
      ∀ y ∈ (initial settings registry store).trail endings events, y.id = p.2.id →
        p.2.SameRun y)
    (show (initial settings registry store).run [] = some _ from rfl) hRun hIds
    (fun p hp => absurd hp List.not_mem_nil) ?_
  intro before t e v hBefore hStep _ hOwned hIds ih p hp y hy hId
  have hIds' := (List.nodup_append.mp hIds).1
  rw [trail_concat hBefore] at hy
  rcases List.mem_append.mp hy with hOld | hNow
  · obtain ⟨-, hKnown, -⟩ := (settled_of_run hBefore hIds').ended y hOld
    rw [trail_concat hBefore] at hp
    rcases List.mem_append.mp hp with hp | hNew
    · exact ih p hp y hOld hId
    · exact absurd hId ((List.nodup_append.mp hIds).2.2 _ hKnown _ (List.mem_map_of_mem hNew))
  · rw [endings_of_step hStep] at hNow
    have hMem := (Store.mem_endedBy.mp hNow).1
    refine (within_of_run (run_concat_of_run hBefore hStep) ?_ p hp y hMem hId).sameRun
    rw [runIds_concat hBefore]
    exact hIds

/-- Every repetition of the run and its end are counted: no thread has them in hand. -/
structure Counted (s : System δ) (id : JobId) : Prop where
  repetitions : id ∉ s.gather (·.repeating)
  note : ∀ y ∈ s.owed, y.id ≠ id

/-- What is known of a run that is over with its `k`-th attempt, once it is counted: it has ended
once, its definition was called once for every attempt, and of the counters of the realm it has
raised that of the repetitions by all attempts but the last one, and the one of its final state by
one. -/
structure Concluded (s : System δ) (events : List Event) (u : System δ) (y : JobRecord) (k : Nat) :
    Prop where
  once : (s.trail endings events).filter (·.id = y.id) = [y]
  stays : ∀ x ∈ u.realm.store.records, x.id = y.id → x = y
  called : (u.realm.invocations.filter (·.jobId = y.id)).map (·.attempt) = List.range' 1 k
  retried : u.realm.counters.retried =
    ((s.trail retries events).filter (· ≠ y.id)).length + (k - 1)
  final : ∀ state, state.isTerminal = true → u.realm.counters.final state =
    ((s.trail notices events).filter (·.1.id ≠ y.id)).countP (·.1.state = state) +
      if y.state = state then 1 else 0

/-- Of the runs that have ended, only one has the id of the run. -/
theorem Settled.filter_eq {ids : List JobId} {ends : List JobRecord}
    {notes : List (JobRecord × List Bool)} (h : Settled u ids ends notes) {y : JobRecord}
    (hy : y ∈ ends) : ends.filter (·.id = y.id) = [y] := by
  have hNodup : (ends.filter (·.id = y.id)).Nodup := (List.Nodup.of_map _ h.once).filter _
  refine List.perm_singleton.mp ((List.perm_ext_iff_of_nodup hNodup (List.nodup_singleton _)).mpr
    fun z => ?_)
  rw [List.mem_filter, decide_eq_true_iff, List.mem_singleton]
  constructor
  · rintro ⟨hz, hId⟩
    exact List.inj_on_of_nodup_map h.once hz hy hId
  · rintro rfl
    exact ⟨hy, rfl⟩

/-- The end of a run that is counted has raised the counter of its final state by one. -/
theorem Settled.final_of_counted {ids : List JobId} {ends : List JobRecord}
    {notes : List (JobRecord × List Bool)} (h : Settled u ids ends notes) {y : JobRecord}
    (hy : y ∈ ends) (hCounted : ∀ z ∈ u.owed, z.id ≠ y.id) {state : JobState}
    (hState : state.isTerminal = true) :
    u.realm.counters.final state =
      (notes.filter (·.1.id ≠ y.id)).countP (·.1.state = state) +
        if y.state = state then 1 else 0 := by
  have hOwed : u.owed.filter (·.id = y.id) = [] :=
    List.filter_eq_nil_iff.mpr fun z hz => by simpa using hCounted z hz
  have hOwn : ((notes.map (·.1)).filter (·.id = y.id)).Perm [y] := by
    have hAll := h.balance.filter (·.id = y.id)
    rw [h.filter_eq hy, List.filter_append, hOwed, List.append_nil] at hAll
    exact hAll.symm
  have hOne : (notes.filter (·.1.id = y.id)).countP (·.1.state = state) =
      if y.state = state then 1 else 0 := by
    have hCount := hOwn.countP_eq (·.state = state)
    rw [List.filter_map, List.countP_map, List.countP_singleton] at hCount
    simpa only [decide_eq_true_eq, Function.comp_def] using hCount
  rw [h.counters state hState, List.countP_eq_countP_filter_add notes _ (·.1.id = y.id), hOne,
    Nat.add_comm]
  simp

/-- A run that was admitted was not in the store at the beginning. -/
theorem new_of_admitted (hIds : ((initial settings registry store).runIds events).Nodup)
    {p : Admission × JobRecord}
    (hp : p ∈ (initial settings registry store).trail admissions events) : p.2.id ∉ store.ids :=
  fun hOld => (List.nodup_append.mp hIds).2.2 _ hOld _ (List.mem_map_of_mem hp) rfl

/-- A course of events in which no id is used twice, the store is in no trouble, nobody asks to
cancel the run of the given id or to shut down the realm, and its definition follows the script. -/
structure Course (s : System δ) (events : List Event) (u : System δ) (id : JobId)
    (script : Nat → Outcome) : Prop where
  run : s.run events = some u
  ids : (s.runIds events).Nodup
  calm : ∀ e ∈ events, e.Untroubled
  spares : ∀ e ∈ events, e.Spares id
  returns : ∀ p ∈ s.trail (returns id) events, p.2 = script p.1

section Course

variable (h : Course (initial settings registry store) events u id script) (hNew : id ∉ store.ids)

include h hNew

/-- A run that is over and counted is concluded. -/
theorem concluded_of_counted (hCounted : u.Counted id) {y : JobRecord}
    (hy : y ∈ (initial settings registry store).trail endings events) (hId : y.id = id) :
    Concluded (initial settings registry store) events u y y.attempts := by
  have hSettled := settled_of_run h.run h.ids
  have hAccounted := accounted_of_run h.run h.ids
  obtain ⟨-, hTallied⟩ :=
    (tally_of_run h.run h.ids h.calm h.spares hNew h.returns).2 y hy hId
  obtain ⟨hOver, -, hStays⟩ := hSettled.ended y hy
  obtain ⟨hNotQueued, hNotRunning⟩ := JobState.isTerminal_iff.mp hOver
  subst hId
  refine ⟨hSettled.filter_eq hy, hStays, ?_, ?_,
    fun state hState => hSettled.final_of_counted hy hCounted.note hState⟩
  · rw [hAccounted.numbered, Store.attemptsOf_of_new hNew, Nat.zero_add,
      hTallied.called hNotRunning]
  · have hRepeated := hTallied.repeated
    rw [if_neg hNotQueued, ← (repeating_of_run h.run).count_eq, List.count_append,
      List.count_eq_zero.mpr hCounted.repetitions, Nat.add_zero] at hRepeated
    rw [retried_of_run h.run, ← hRepeated, List.length_eq_countP_add_countP (· = y.id),
      Nat.add_comm, List.count_eq_countP, List.countP_eq_length_filter]
    simp [beq_eq_decide]

/-- When the work is done, a run that was admitted is over. -/
theorem ended_of_done (hDone : u.Done)
    (hAdmitted : id ∈ ((initial settings registry store).trail admissions events).map (·.2.id)) :
    ∃ y ∈ (initial settings registry store).trail endings events, y.id = id := by
  rcases active_or_ended_of_run h.run hAdmitted with hActive | hEnded
  · rw [Store.activeIds, List.mem_append, Store.mem_idsIn, Store.mem_idsIn] at hActive
    rcases hActive with ⟨x, hx, hId, hQueued⟩ | ⟨x, hx, hId, hRunning⟩
    · rcases waiting_of_run h.run h.ids h.calm h.spares hNew hx hId hQueued with
        hWaits | ⟨i, th, hAt, ⟨w, rfl, hCarries⟩ | ⟨a, record, hAdmission, -⟩⟩
      · rw [Queue.ids, hDone.entries] at hWaits
        cases hWaits
      · cases hDone.threads hAt (.inl ⟨w, rfl⟩)
        cases hCarries
      · have hJoins : th.joining ≠ [] := by
          rw [Thread.joining, hAdmission]
          exact List.cons_ne_nil _ _
        cases hDone.threads hAt (.inr hJoins)
        cases hAdmission
    · obtain ⟨i, w, record, ⟨hAt, hAttempt⟩, -⟩ :=
        busy_of_running h.run h.calm hNew hx hId hRunning
      cases hDone.threads hAt (.inl ⟨w, rfl⟩)
      cases hAttempt
  · exact hEnded

end Course

/-- When the work is done, what belongs to a run that nobody disturbs is counted. -/
theorem counted_of_done (hDone : u.Done) (hGoverned : Governed u)
    (hRunning : u.realm.lifecycle = .running) (hUndisturbed : u.Undisturbed id) :
    u.Counted id := by
  constructor
  · intro hMem
    obtain ⟨th, hth, hRepeats⟩ := List.mem_flatMap.mp hMem
    obtain ⟨i, hAt⟩ := List.mem_iff_getElem?.mp hth
    unfold Thread.repeating at hRepeats
    split at hRepeats
    · cases hDone.threads hAt (.inl ⟨_, rfl⟩)
    · cases hRepeats
  · rintro y hy rfl
    obtain ⟨th, hth, hOwes⟩ := List.mem_flatMap.mp hy
    obtain ⟨i, hAt⟩ := List.mem_iff_getElem?.mp hth
    rw [Option.mem_toList] at hOwes
    cases th with
    | timer t => cases hOwes
    | answered answer => cases hOwes
    | worker w =>
      cases hDone.threads hAt (.inl ⟨w, rfl⟩)
      cases hOwes
    | caller point =>
      cases point with
      | made | admitting | scheduling | declaring => cases hOwes
      | stopping point => exact hUndisturbed.threads hAt trivial
      | canceling point =>
        cases point <;> cases hOwes <;> exact hUndisturbed.threads hAt rfl
      | starting point =>
        -- a start that has ended a run has not opened the realm yet
        have hLocked : point.locked = true := by cases point <;> first | rfl | cases hOwes
        rw [hGoverned.starting hAt hLocked] at hRunning
        cases hRunning

-- ---------------------------------------------------------------------------
-- The run that goes on
-- ---------------------------------------------------------------------------

/-- A run of the work in which the store is in no trouble and the definition follows the script. -/
structure Proceeds (s : System δ) (id : JobId) (script : Nat → Outcome) (events : List Event)
    (u : System δ) : Prop where
  toils : s.Toils events u
  calm : ∀ e ∈ events, e.Untroubled
  returns : ∀ p ∈ s.trail (returns id) events, p.2 = script p.1

/-- The definition can always follow the script. -/
theorem exists_cue (s : System δ) (i : Nat) (now : Instant) (id : JobId)
    (script : Nat → Outcome) : ∃ cue : Cue, cue.now = now ∧ cue.fault = none ∧
      ∀ p ∈ s.returns id (.advance i cue), p.2 = script p.1 := by
  by_cases hInside : ∃ record token definition,
      s.threads[i]? = some (.worker (.executing record token definition))
  · obtain ⟨record, token, definition, hAt⟩ := hInside
    refine ⟨{ now, fresh := default, outcome := script record.attempts }, rfl, rfl, fun p hp => ?_⟩
    simp only [System.returns, hAt] at hp
    split at hp
    · rw [List.mem_singleton.mp hp]
    · cases hp
  · refine ⟨{ now, fresh := default }, rfl, rfl, fun p hp => ?_⟩
    simp only [System.returns] at hp
    split at hp
    · next hAt => exact absurd ⟨_, _, _, hAt⟩ hInside
    · cases hp

/-- One more step of the work that follows the script, as long as the work is not done. -/
theorem proceeds_or_done (hRun : (initial settings registry store).run events = some u)
    (hRunning : u.realm.lifecycle = .running) (hGoes : u.realm.queue.paused = false)
    (hGoesOn : u.realm.stopping = false) (id : JobId) (script : Nat → Outcome) :
    (∃ e v, u.Proceeds id script [e] v) ∨ u.Done := by
  rcases working_or_done hRun hRunning hGoes hGoesOn with ⟨i, now, hAny⟩ | hDone
  · obtain ⟨cue, hNow, hCalm, hReturns⟩ := exists_cue u i now id script
    obtain ⟨hWork, v, hStep⟩ := hAny cue hNow
    refine .inl ⟨.advance i cue, v, .cons hWork hStep (.nil v), ?_, ?_⟩
    · rintro e (_ | ⟨_, ⟨⟩⟩)
      exact hCalm
    · rw [trail, hStep]
      simpa [trail] using hReturns
  · exact .inr hDone

variable {first : JobRecord} {a : Admission}

/-- A course goes on as the work proceeds. -/
theorem Course.append (h : Course s events t id script) (hProceeds : t.Proceeds id script more u) :
    Course s (events ++ more) u id script where
  run := by rw [run_append_of_run h.run, hProceeds.toils.run]
  ids := by
    rw [hProceeds.toils.runIds_eq h.run]
    exact h.ids
  calm := List.forall_mem_append.mpr ⟨h.calm, hProceeds.calm⟩
  spares := List.forall_mem_append.mpr ⟨h.spares, hProceeds.toils.spares id⟩
  returns := by
    rw [trail_append h.run]
    exact List.forall_mem_append.mpr ⟨h.returns, hProceeds.returns⟩

theorem Proceeds.append {rest : List Event} (h : s.Proceeds id script more t)
    (h' : t.Proceeds id script rest u) : s.Proceeds id script (more ++ rest) u where
  toils := h.toils.append h'.toils
  calm := List.forall_mem_append.mpr ⟨h.calm, h'.calm⟩
  returns := by
    rw [trail_append h.toils.run]
    exact List.forall_mem_append.mpr ⟨h.returns, h'.returns⟩

/-- The work can be done to its end. -/
theorem Course.exists_proceeds (h : Course (initial settings registry store) events u id script)
    (hRunning : u.realm.lifecycle = .running) (hGoes : u.realm.queue.paused = false) :
    ∃ more v, u.Proceeds id script more v ∧ v.Done := by
  induction hLabor : u.labor using Nat.strong_induction_on generalizing events u with
  | _ n ih =>
    have hGoesOn := (undisturbed_of_run h.run h.spares).goesOn
    rcases proceeds_or_done h.run hRunning hGoes hGoesOn id script with ⟨e, v, hNext⟩ | hDone
    · have hLess := hNext.toils.length_le h.run h.ids
      obtain ⟨hLifecycle, hPaused⟩ := hNext.toils.kept
      rw [List.length_singleton] at hLess
      obtain ⟨more, w, hMore, hDone⟩ := ih v.labor (by omega) (h.append hNext)
        (hLifecycle.trans hRunning) (hPaused.trans hGoes) rfl
      exact ⟨[e] ++ more, w, hNext.append hMore, hDone⟩
    · exact ⟨[], u, ⟨.nil u, nofun, nofun⟩, hDone⟩

-- ---------------------------------------------------------------------------
-- All together
-- ---------------------------------------------------------------------------

/-- The run has ended with its `k`-th attempt, as the script has it, and is counted. -/
def EndsBy (s : System δ) (events : List Event) (u : System δ) (first : JobRecord)
    (script : Nat → Outcome) (k : Nat) : Prop :=
  ∃ y, y.id = first.id ∧ first.SameRun y ∧ y.EndedBy script k ∧ Concluded s events u y k

section Course

variable (h : Course (initial settings registry store) events u first.id script)
  (hAdmitted : (a, first) ∈ (initial settings registry store).trail admissions events) {k : Nat}
  (hLast : first.retryPolicy.IsLast script k)

include h hAdmitted hLast

/-- A run that has ended has ended with its last attempt. -/
theorem Course.ending : ∀ y ∈ (initial settings registry store).trail endings events,
    y.id = first.id → first.SameRun y ∧ y.EndedBy script k ∧
      (u.Counted first.id → Concluded (initial settings registry store) events u y k) := by
  intro y hy hId
  have hNew : first.id ∉ store.ids := new_of_admitted h.ids hAdmitted
  have hSame := sameRun_of_ended h.run h.ids (a, first) hAdmitted y hy hId
  obtain ⟨hObeys, -⟩ := (tally_of_run h.run h.ids h.calm h.spares hNew h.returns).2 y hy hId
  obtain ⟨hOver, -, -⟩ := (settled_of_run h.run h.ids).ended y hy
  have hEnded : y.EndedBy script k := by
    refine hObeys.endedBy ?_ (hSame.retryPolicy ▸ hLast)
    rw [JobRecord.isTerminal_eq] at hOver
    simpa using hOver
  refine ⟨hSame, hEnded, fun hCounted => ?_⟩
  rw [← hEnded.attempts]
  exact concluded_of_counted h hNew hCounted hy hId

/-- When the work is done, the run has ended. -/
theorem Course.endsBy (hRunning : u.realm.lifecycle = .running) (hDone : u.Done) :
    EndsBy (initial settings registry store) events u first script k := by
  obtain ⟨y, hy, hId⟩ := ended_of_done h (new_of_admitted h.ids hAdmitted) hDone
    (List.mem_map_of_mem hAdmitted)
  obtain ⟨hSame, hEnded, hConcluded⟩ := h.ending hAdmitted hLast y hy hId
  exact ⟨y, hId, hSame, hEnded, hConcluded (counted_of_done hDone (governed_of_run h.run) hRunning
    (undisturbed_of_run h.run h.spares))⟩

end Course

/-- A run that is neither canceled nor shut down ends with its last attempt, the first one that is
not to be repeated, and as that attempt does. In a realm that is running and not paused it does end:
whatever is done without new calls comes to an end, and there is something to do until the run has
ended and is counted. -/
theorem policy_of_run {a : Admission} {first : JobRecord}
    (hRun : (initial settings registry store).run events = some u)
    (hIds : ((initial settings registry store).runIds events).Nodup)
    (hCalm : ∀ e ∈ events, e.Untroubled) (hSpares : ∀ e ∈ events, e.Spares first.id)
    (hAdmitted : (a, first) ∈ (initial settings registry store).trail admissions events)
    (hReturns : ∀ p ∈ (initial settings registry store).trail (returns first.id) events,
      p.2 = script p.1) :
    ∃ k, first.retryPolicy.IsLast script k ∧
      (∀ y ∈ (initial settings registry store).trail endings events, y.id = first.id →
        first.SameRun y ∧ y.EndedBy script k ∧
          (u.Counted first.id → Concluded (initial settings registry store) events u y k)) ∧
      (u.realm.lifecycle = .running → u.realm.queue.paused = false →
        (∀ more v, u.Proceeds first.id script more v →
          more.length ≤ u.labor ∧
            (EndsBy (initial settings registry store) (events ++ more) v first script k ∨
              ∃ e w, v.Proceeds first.id script [e] w)) ∧
        ∃ more v, u.Proceeds first.id script more v ∧
          EndsBy (initial settings registry store) (events ++ more) v first script k) := by
  have h : Course (initial settings registry store) events u first.id script :=
    ⟨hRun, hIds, hCalm, hSpares, hReturns⟩
  obtain ⟨k, hLast⟩ := first.retryPolicy.exists_isLast script
  refine ⟨k, hLast, h.ending hAdmitted hLast, fun hRunning hGoes => ?_⟩
  -- what has proceeded to the end of the work has ended the run
  have hEnds : ∀ {more v}, u.Proceeds first.id script more v → v.Done →
      EndsBy (initial settings registry store) (events ++ more) v first script k := by
    intro more v hProceeds hDone
    have hStill : (a, first) ∈ (initial settings registry store).trail admissions
        (events ++ more) := by
      rw [trail_append hRun]
      exact List.mem_append_left _ hAdmitted
    exact (h.append hProceeds).endsBy hStill hLast (hProceeds.toils.kept.1.trans hRunning) hDone
  refine ⟨fun more v hProceeds => ⟨?_, ?_⟩, ?_⟩
  · have hLess := hProceeds.toils.length_le hRun hIds
    omega
  · have hAfter := h.append hProceeds
    obtain ⟨hLifecycle, hPaused⟩ := hProceeds.toils.kept
    rcases proceeds_or_done hAfter.run (hLifecycle.trans hRunning) (hPaused.trans hGoes)
      (undisturbed_of_run hAfter.run hAfter.spares).goesOn first.id script with hNext | hDone
    · exact .inr hNext
    · exact .inl (hEnds hProceeds hDone)
  · obtain ⟨more, v, hProceeds, hDone⟩ := h.exists_proceeds hRunning hGoes
    exact ⟨more, v, hProceeds, hEnds hProceeds hDone⟩

/-- The first attempt fails and the second one does not. -/
def failsOnce (i : Nat) : Outcome :=
  if i = 1 then .error (.failed "once more" true) else .ok none

/-- A run that is put back after its first attempt and finishes with its second one, to its end. -/
def putBackOnce : List Event :=
  queuedTwice ++ [.advance 3 { now := ⟨31, 0⟩, fresh := default }]

theorem policy_of_run_putBackOnce :
    ∃ (u : System Unit) (first : JobRecord),
      (initial { workers := 2 } ⟨Dict.empty.insert "job" ()⟩ Store.empty).run putBackOnce = some u ∧
        first.id = ⟨⟨3⟩⟩ ∧
        EndsBy (initial { workers := 2 } ⟨Dict.empty.insert "job" ()⟩ Store.empty) putBackOnce u
          first failsOnce 2 ∧
        ∃ more v, u.Proceeds first.id failsOnce more v ∧
          EndsBy (initial { workers := 2 } ⟨Dict.empty.insert "job" ()⟩ Store.empty)
            (putBackOnce ++ more) v first failsOnce 2 := by
  have hEnd : ((initial { workers := 2 } ⟨Dict.empty.insert "job" ()⟩ Store.empty).run
      putBackOnce).map (fun u : System Unit => (u.realm.lifecycle, u.realm.queue.paused,
        u.gather (·.repeating), u.owed.length)) = some (.running, false, [], 0) := by
    decide +kernel
  have hIds : ((initial { workers := 2 } ⟨Dict.empty.insert "job" ()⟩ Store.empty :
      System Unit).runIds putBackOnce).Nodup := by
    decide +kernel
  have hAdmitted : ((initial { workers := 2 } ⟨Dict.empty.insert "job" ()⟩ Store.empty :
      System Unit).trail admissions putBackOnce).map (·.2.id) = [⟨⟨3⟩⟩] := by
    decide +kernel
  have hEnded : ((initial { workers := 2 } ⟨Dict.empty.insert "job" ()⟩ Store.empty :
      System Unit).trail endings putBackOnce).map (fun y => (y.id, y.attempts)) =
        [(⟨⟨3⟩⟩, 2)] := by
    decide +kernel
  have hReturned : (initial { workers := 2 } ⟨Dict.empty.insert "job" ()⟩ Store.empty :
      System Unit).trail (returns ⟨⟨3⟩⟩) putBackOnce = [(1, failsOnce 1), (2, failsOnce 2)] := by
    with_unfolding_all rfl
  have hCalm : ∀ e ∈ putBackOnce, e.Untroubled := by
    simp [putBackOnce, queuedTwice, Event.Untroubled]
  have hSpares : ∀ e ∈ putBackOnce, e.Spares ⟨⟨3⟩⟩ := by
    simp [putBackOnce, queuedTwice, Event.Spares]
  obtain ⟨u, hRun, hSeen⟩ := Option.map_eq_some_iff.mp hEnd
  simp only [Prod.mk.injEq, List.length_eq_zero_iff] at hSeen
  obtain ⟨hRunning, hGoes, hRepeating, hOwed⟩ := hSeen
  obtain ⟨⟨a, first⟩, hFirst, hFirstId⟩ := List.mem_map.mp (hAdmitted ▸ List.mem_singleton.mpr rfl)
  obtain ⟨y, hy, hPair⟩ := List.mem_map.mp (hEnded ▸ List.mem_singleton.mpr rfl)
  obtain ⟨hId, hAttempts⟩ := Prod.mk.inj hPair
  have hSame : y.id = first.id := hId.trans hFirstId.symm
  have hReturns : ∀ p ∈ (initial { workers := 2 } ⟨Dict.empty.insert "job" ()⟩ Store.empty :
      System Unit).trail (returns first.id) putBackOnce, p.2 = failsOnce p.1 := by
    rw [hFirstId, hReturned]
    simp
  obtain ⟨k, -, hEnding, hEnds⟩ :=
    policy_of_run hRun hIds hCalm (hFirstId ▸ hSpares) hFirst hReturns
  obtain ⟨hSameRun, hEndedBy, hConcluded⟩ := hEnding y hy hSame
  obtain rfl : k = 2 := hEndedBy.attempts.symm.trans hAttempts
  have hCounted : u.Counted first.id := by
    refine ⟨by rw [hRepeating]; exact List.not_mem_nil, fun z hz => ?_⟩
    rw [hOwed] at hz
    cases hz
  exact ⟨u, first, hRun, hFirstId, ⟨y, hSame, hSameRun, hEndedBy, hConcluded hCounted⟩,
    (hEnds hRunning hGoes).2⟩

end System

end BackgroundJobs
