import BackgroundJobs.Proofs.Realm.Interruptions
import BackgroundJobs.Proofs.Realm.Signals

/-!
# Proofs — what a shutdown reports

A shutdown looks for running attempts in the table of tokens, and nowhere else.
Once the realm is marked, no worker comes to another run; so what the table does
not show at the end of the wait is the work of those that had passed the check
of the mark by then, and had not claimed their run yet or lost its binding to
another worker. A shutdown misses these, and no others. What it does report is
exact: the runs that it has interrupted itself, which stay as they are when the
outcomes of their attempts come in.

Main results:

* `System.interruptions`  — the observer of the runs that a thread interrupts.
* `report_of_run`         — the report names what was interrupted, and of the rest
  nothing goes on but what was missed.
-/

namespace BackgroundJobs

variable {δ : Type}

-- ---------------------------------------------------------------------------
-- Interruptions
-- ---------------------------------------------------------------------------

namespace Store

variable {s s' : Store} {id : JobId} {now : Instant} {after : JobRecord}

/-- The runs that went on in one store and are interrupted in another. -/
def interruptedBy (s s' : Store) : List JobId :=
  (s.records.filter fun x => x.state = .running ∧
    ∃ y ∈ s'.records, y.id = x.id ∧ y.state = .interrupted).map (·.id)

theorem mem_interruptedBy (h : id ∈ s.interruptedBy s') :
    id ∈ s.ids ∧ ∃ y ∈ s'.records, y.id = id ∧ y.state = .interrupted := by
  obtain ⟨x, hx, rfl⟩ := List.mem_map.mp h
  obtain ⟨hStored, hMoved⟩ := List.mem_filter.mp hx
  exact ⟨id_mem_ids hStored, (of_decide_eq_true hMoved).2⟩

@[simp] theorem interruptedBy_self (s : Store) : s.interruptedBy s = [] := by
  refine List.eq_nil_iff_forall_not_mem.mpr fun id h => ?_
  obtain ⟨x, hx, rfl⟩ := List.mem_map.mp h
  obtain ⟨hStored, hMoved⟩ := List.mem_filter.mp hx
  obtain ⟨hRunning, y, hy, hId, hInterrupted⟩ := of_decide_eq_true hMoved
  rw [eq_of_mem_of_id_eq hy hStored hId, hRunning] at hInterrupted
  cases hInterrupted

/-- An interruption that succeeds moves the run that it names, and no other. -/
theorem interruptedBy_of_interrupt (h : s.transition id .running .interrupt now = .ok (after, s')) :
    s.interruptedBy s' = [id] := by
  obtain ⟨x, hx, rfl, hRunning, -, rfl, -⟩ := transition_ok h
  have hOnly : s.records.filter (fun y => y.state = .running ∧
      ∃ z ∈ s'.records, z.id = y.id ∧ z.state = .interrupted) =
        s.records.filter (fun y => y.id = x.id) := by
    refine List.filter_congr fun y hy => decide_eq_decide.mpr ⟨?_, fun hId => ?_⟩
    · rintro ⟨hGoesOn, z, hz, hId, hInterrupted⟩
      rcases (mem_of_transition_ok h).mp hz with rfl | ⟨hOld, -⟩
      · exact hId.symm
      · rw [eq_of_mem_of_id_eq hOld hy hId, hGoesOn] at hInterrupted
        cases hInterrupted
    · refine ⟨?_, _, (mem_of_transition_ok h).mpr (.inl rfl), hId.symm, rfl⟩
      rw [eq_of_mem_of_id_eq hy hx hId, hRunning]
  have hNodup : s.ids.Nodup := s.nodup
  have hOnce : s.ids.filter (· = x.id) = [x.id] := by
    rw [List.filter_eq, List.count_eq_one_of_mem hNodup (id_mem_ids hx)]
    rfl
  rw [interruptedBy, hOnly, ← hOnce, ids, List.filter_map]
  rfl

end Store

namespace System

variable {s u : System δ} {e : Event} {k : Nat} {ids : List JobId}

/-- The runs that an event interrupts, if it is a step of thread `k`. -/
def interruptions (k : Nat) (s : System δ) (e : Event) : List JobId :=
  match e, s.step e with
  | .advance i _, some u => if i = k then s.realm.store.interruptedBy u.realm.store else []
  | _, _ => []

theorem interruptions_of_ne (h : ∀ cue, e ≠ .advance k cue) : s.interruptions k e = [] := by
  unfold interruptions
  split
  · next i cue _ _ => exact if_neg fun hEq => h cue (by rw [hEq])
  · rfl

theorem interruptions_self {cue : Cue} (hStep : s.step (.advance k cue) = some u) :
    s.interruptions k (.advance k cue) = s.realm.store.interruptedBy u.realm.store := by
  simp only [interruptions, hStep, if_true]

/-- The runs of these ids were interrupted. -/
def Interrupted (s : System δ) (ids listed : List JobId) : Prop :=
  ∀ id ∈ listed, id ∈ ids ∧ ∀ x ∈ s.realm.store.records, x.id = id → x.state = .interrupted

theorem Interrupted.step {listed : List JobId} (h : s.Interrupted ids listed)
    (hStored : ∀ x ∈ s.realm.store.records, x.id ∈ ids) (hStep : s.step e = some u)
    (hIds : (ids ++ (s.admissions e).map (·.2.id)).Nodup) :
    u.Interrupted (ids ++ (s.admissions e).map (·.2.id)) (listed ++ s.interruptions k e) := by
  intro id hId
  rcases List.mem_append.mp hId with hOld | hNew
  · obtain ⟨hUsed, hOver⟩ := h id hOld
    refine ⟨List.mem_append_left _ hUsed, ?_⟩
    rintro x' hx' rfl
    rcases changes_of_step hStep hx' with ⟨x, hx, hChanges⟩ | ⟨a, hAdmitted⟩
    · have hState := hOver x hx hChanges.sameRun.id.symm
      rw [hChanges.terminal (by rw [JobRecord.isTerminal, hState]; rfl)]
      exact hState
    · exact absurd rfl ((List.nodup_append.mp hIds).2.2 _ hUsed _ (List.mem_map_of_mem hAdmitted))
  · by_cases hOwn : ∃ cue, e = .advance k cue
    · obtain ⟨cue, rfl⟩ := hOwn
      rw [interruptions_self hStep] at hNew
      obtain ⟨hMem, y, hy, hyId, hState⟩ := Store.mem_interruptedBy hNew
      obtain ⟨x, hx, hxId⟩ := List.mem_map.mp hMem
      refine ⟨List.mem_append_left _ (hxId ▸ hStored x hx), fun z hz hzId => ?_⟩
      rw [Store.eq_of_mem_of_id_eq hz hy (hzId.trans hyId.symm)]
      exact hState
    · rw [interruptions_of_ne fun cue hEq => hOwn ⟨cue, hEq⟩] at hNew
      cases hNew

/-- An outcome that comes in late, for a run that was interrupted, changes nothing. -/
theorem realm_of_late {i : Nat} {cue : Cue} {record : JobRecord} {t : Transition}
    (hAt : s.threads[i]? = some (.worker (.recording record t)))
    (hOver : ∀ x ∈ s.realm.store.records, x.id = record.id → x.state = .interrupted)
    (hStep : s.step (.advance i cue) = some u) :
    u.realm = s.realm ∧ u.threads[i]? = some (.worker (.leaving record.id)) := by
  obtain ⟨r', th', crew, hThread, rfl⟩ := step_advance_at hAt hStep
  obtain ⟨w', hWorker, rfl, rfl⟩ := Thread.step_worker hThread
  simp only [Worker.step] at hWorker
  split at hWorker <;> cases hWorker
  · next hTold =>
    obtain ⟨x, hx, hId, hRunning, -⟩ := Realm.transition_eq_ok _ _ hTold
    rw [hOver x hx hId] at hRunning
    cases hRunning
  · next hTold => exact ⟨Realm.tell_eq_error _ _ hTold, thread_of_advance_self hAt⟩

end System

-- ---------------------------------------------------------------------------
-- Workers at work
-- ---------------------------------------------------------------------------

/-- The run that a worker is at work on: from the check of the mark until the outcome of the attempt
is recorded. -/
def Worker.run? : Worker δ → Option JobId
  | .entering id | .claiming id _ => some id
  | w => w.attempt?.map (·.id)

theorem Worker.run?_of_attempt {w : Worker δ} {record : JobRecord} (h : w.attempt? = some record) :
    w.run? = some record.id := by
  cases w <;> cases h <;> rfl

/-- No worker of a realm that stops comes to another run. -/
theorem Worker.run?_of_step {cue : Cue} {r r' : Realm δ} {w w' : Worker δ} {id : JobId}
    (hStopping : r.stopping = true) (h : w.step cue r = some (r', w')) (hRun : w'.run? = some id) :
    w.run? = some id ∧ (w.attempt?.isSome = true → w'.attempt?.isSome = true) := by
  cases goes_of_step h with
  | enters id hGoesOn =>
    rw [hStopping] at hGoesOn
    cases hGoesOn
  | comes | claims => exact ⟨hRun, by rintro ⟨⟩⟩
  | calls | misses | returns | judges => exact ⟨hRun, fun _ => rfl⟩
  | settles record t w next =>
    rcases next with ⟨updated, rfl | rfl | rfl⟩ | rfl <;> cases hRun
  | rests | takes | halts | drops | withdraws | yields | requeues | finishes | leaves =>
    cases hRun

namespace System

variable {s u d : System δ} {e : Event} {ids : List JobId} {log : List Deed}

theorem run?_of_step {i : Nat} {w : Worker δ} {id : JobId} (hStopping : s.realm.stopping = true)
    (hStep : s.step e = some u) (hAt : u.threads[i]? = some (.worker w)) (hRun : w.run? = some id) :
    ∃ w₀, s.threads[i]? = some (.worker w₀) ∧ w₀.run? = some id ∧
      (w₀.attempt?.isSome = true → w.attempt?.isSome = true) := by
  cases e with
  | call call =>
    cases hStep
    rcases threads_of_call hAt with hOld | ⟨-, hEq⟩
    · exact ⟨w, hOld, hRun, fun h => h⟩
    · cases hEq
  | sweep cutoff =>
    cases hStep
    exact ⟨w, hAt, hRun, fun h => h⟩
  | advance j cue =>
    obtain ⟨th, r', th', crew, hThread, hThreadStep, rfl⟩ := step_advance hStep
    rcases threads_of_advance hAt with ⟨rfl, rfl⟩ | ⟨-, hOld⟩ | ⟨-, hMem⟩
    · obtain ⟨w₀, rfl, hWorker, -⟩ := Thread.worker_of_step hThreadStep
      exact ⟨w₀, hThread, Worker.run?_of_step hStopping hWorker hRun⟩
    · exact ⟨w, hOld, hRun, fun h => h⟩
    · rcases Thread.crew_of_step hThreadStep _ hMem with hEq | hEq <;> cases hEq
      cases hRun

end System

-- ---------------------------------------------------------------------------
-- The end of the wait
-- ---------------------------------------------------------------------------

namespace System

variable {s u d : System δ} {e : Event} {ids pending : List JobId} {log : List Deed}
  {inGrace : Bool}

/-- The run is over, if its record is still there. -/
def Over (s : System δ) (id : JobId) : Prop :=
  ∀ x ∈ s.realm.store.records, x.id = id → x.isTerminal = true

/-- A shutdown that ends its wait misses the run that this worker is at work on: the worker has not
claimed it yet, or the run is no longer bound to a token. -/
def Missed (d : System δ) (i : Nat) (id : JobId) : Prop :=
  ∃ w, d.threads[i]? = some (.worker w) ∧ w.run? = some id ∧
    (w.attempt? = none ∨ d.realm.tokens.find? id = none)

/-- What a shutdown that has ended its wait at `d` knows of a worker that is at work: it has missed
its run, or the run is over, or will be once it is struck, and not all runs ended in time. -/
structure AccountsFor (d s : System δ) (inGrace : Bool) (pending : List JobId) : Prop where
  stopping : s.realm.stopping = true
  workers : ∀ {i : Nat} {w id}, s.threads[i]? = some (.worker w) → w.run? = some id →
    d.Missed i id ∨ (w.attempt?.isSome = true ∧ inGrace = false ∧ (id ∈ pending ∨ s.Over id))

/-- At the end of the wait, the table of tokens shows all runs but the missed ones, in any order in
which it is gone through. -/
theorem AccountsFor.start (d : System δ) (hStopping : d.realm.stopping = true)
    {stuck : List (JobId × Token)} (hStuck : stuck.Perm d.realm.tokens.running) :
    AccountsFor d d d.realm.tokens.running.isEmpty (stuck.map (·.1)) := by
  refine ⟨hStopping, fun {i w id} hAt hRun => ?_⟩
  cases hFind : d.realm.tokens.find? id with
  | none => exact .inl ⟨w, hAt, hRun, .inr hFind⟩
  | some token =>
    cases hAttempt : w.attempt? with
    | none => exact .inl ⟨w, hAt, hRun, .inl hAttempt⟩
    | some record =>
      obtain ⟨earlier, later, hBindings, -⟩ := List.lookup_eq_some_iff.mp hFind
      have hBound : (id, token) ∈ d.realm.tokens.running := by
        rw [hBindings]
        exact List.mem_append_right _ List.mem_cons_self
      refine .inr ⟨rfl, ?_, .inl (List.mem_map_of_mem (hStuck.mem_iff.mpr hBound))⟩
      exact List.isEmpty_eq_false_iff.mpr (List.ne_nil_of_mem hBound)

/-- No step brings a run that the shutdown does not account for. -/
theorem AccountsFor.step (h : AccountsFor d s inGrace pending) (hOwned : Owned s ids log)
    (hStep : s.step e = some u) (hIds : (ids ++ (s.admissions e).map (·.2.id)).Nodup) :
    AccountsFor d u inGrace pending := by
  refine ⟨stopping_of_step hStep h.stopping, fun {i w id} hAt hRun => ?_⟩
  obtain ⟨w₀, hBefore, hSame, hAttempt⟩ := run?_of_step h.stopping hStep hAt hRun
  rcases h.workers hBefore hSame with hMissed | ⟨hSome, hLate, hKnown⟩
  · exact .inl hMissed
  · refine .inr ⟨hAttempt hSome, hLate, hKnown.imp_right fun hOver => ?_⟩
    obtain ⟨record, hRecord⟩ := Option.isSome_iff_exists.mp hSome
    rw [Worker.run?_of_attempt hRecord] at hSame
    cases hSame
    exact terminal_of_step hStep hIds (hOwned.begun ⟨hBefore, hRecord⟩).2.2 hOver

/-- A run that was struck need not be waited for any longer, if that has ended it. -/
theorem AccountsFor.struck {id : JobId} (h : AccountsFor d s inGrace (id :: pending))
    (hOver : ∀ i w record, s.Busy i w record → record.id = id → s.Over id) :
    AccountsFor d s inGrace pending := by
  refine ⟨h.stopping, fun {i w id'} hAt hRun => ?_⟩
  refine (h.workers hAt hRun).imp_right fun ⟨hSome, hLate, hKnown⟩ => ⟨hSome, hLate, ?_⟩
  rcases hKnown with hPending | hKnown
  · rcases List.mem_cons.mp hPending with rfl | hRest
    · obtain ⟨record, hRecord⟩ := Option.isSome_iff_exists.mp hSome
      rw [Worker.run?_of_attempt hRecord] at hRun
      cases hRun
      exact .inr (hOver i w record ⟨hAt, hRecord⟩ rfl)
    · exact .inl hRest
  · exact .inr hKnown

/-- After a shutdown has struck a run that a worker is in an attempt of, the run is over. -/
theorem over_of_struck {i : Nat} {w : Worker δ} {cue : Cue} {record : JobRecord} {r' : Realm δ}
    {result : Except StoreError JobRecord} (hOwned : Owned s ids log) (hBusy : s.Busy i w record)
    (hCalm : cue.fault = none)
    (hTold : s.realm.transition cue record.id .running .interrupt = (result, r')) :
    ∀ x ∈ r'.store.records, x.id = record.id → x.isTerminal = true := by
  intro x hx hId
  cases result with
  | ok after =>
    obtain ⟨y, -, -, -, -, rfl, hStore⟩ := Realm.transition_eq_ok _ _ hTold
    rcases (hStore x).mp hx with rfl | ⟨-, hNe⟩
    · rfl
    · exact absurd hId hNe
  | error e =>
    rw [Realm.tell_eq_error _ _ hTold] at hx
    by_contra hActive
    -- the record that the worker claimed would still be there, and the store would interrupt it
    have hState : x.state = .running := by
      have hFollows := hOwned.follows hBusy x hx hId
      rw [hFollows.state_eq (by rw [JobRecord.isTerminal_eq] at hActive; simpa using hActive)]
      exact (hOwned.begun hBusy).1
    have hDone := Store.transition_of_mem hx (t := .interrupt) (by rw [hState]; rfl) cue.now
    rw [hId, hState] at hDone
    simp only [Realm.transition, Realm.tell, hCalm, hDone] at hTold
    cases hTold

end System

-- ---------------------------------------------------------------------------
-- The course of a shutdown
-- ---------------------------------------------------------------------------

namespace Shutdown

/-- The report so far, once the wait has ended. -/
def report? : Shutdown → Option ShutdownReport
  | .striking _ report | .interrupting _ _ report => some report
  | .finishing record _ report =>
    some { report with interrupted := report.interrupted ++ [record.id] }
  | _ => none

/-- The runs that are still to be interrupted. -/
def pending : Shutdown → List JobId
  | .striking stuck _ | .finishing _ stuck _ => stuck.map (·.1)
  | .interrupting id stuck _ => id :: stuck.map (·.1)
  | _ => []

/-- The runs that were interrupted so far. -/
def struck (point : Shutdown) : List JobId :=
  point.report?.elim [] (·.interrupted)

/-- Does the shutdown stop a realm that was never started? -/
def idles : Shutdown → Bool
  | .marking drain | .closing drain => !drain
  | _ => false

/-- A shutdown that ends its wait goes on to the runs that the table of tokens shows, in some
order. -/
theorem step_draining {cue : Cue} {r r' : Realm δ} {deadline : Instant}
    {p : Progress Shutdown ShutdownReport} (h : step cue r (.draining deadline) = some (r', p)) :
    r' = r ∧ ∃ stuck, stuck.Perm r.tokens.running ∧
      p = .at (.striking stuck ⟨r.tokens.running.isEmpty, []⟩) := by
  simp only [step] at h
  split at h
  · next hEmpty =>
    cases h
    rw [hEmpty]
    exact ⟨rfl, [], by rw [List.isEmpty_iff.mp hEmpty], rfl⟩
  · next hSome =>
    rw [Bool.not_eq_true] at hSome
    split at h <;> cases h
    rw [hSome]
    exact ⟨rfl, _, cue.shuffle.perm _, rfl⟩

end Shutdown

/-- What holds of a thread that shuts the realm down: of its points, and of the report that it
answers with. -/
def Thread.Stops (before : Shutdown → Prop) (after : ShutdownReport → Prop) : Thread δ → Prop
  | .caller (.made call) => call = .shutdown ∧ before .waiting
  | .caller (.stopping point) => before point
  | .answered (.ok (.report report)) => after report
  | _ => False

theorem Thread.Stops.imp {before before' : Shutdown → Prop} {after after' : ShutdownReport → Prop}
    {th : Thread δ} (h : th.Stops before after) (hBefore : ∀ point, before point → before' point)
    (hAfter : ∀ report, after report → after' report) : th.Stops before' after' := by
  cases th with
  | worker w => exact h.elim
  | timer t => exact h.elim
  | caller callPoint =>
    cases callPoint with
    | made call => exact ⟨h.1, hBefore _ h.2⟩
    | stopping point => exact hBefore point h
    | admitting | starting | canceling | scheduling | declaring => exact h.elim
  | answered answer =>
    cases answer with
    | error e => exact h.elim
    | ok reply =>
      cases reply with
      | report report => exact hAfter report h
      | _ => exact h.elim

/-- A thread that shuts the realm down begins by waiting for its lock, and answers with the report
in which its steps end. -/
theorem Thread.Stops.step {cue : Cue} {r r' : Realm δ} {th th' : Thread δ} {crew : List (Thread δ)}
    {before before' : Shutdown → Prop} {after after' : ShutdownReport → Prop}
    (h : th.Stops before after) (hStep : th.step cue r = some (r', th', crew))
    (hBegins : before .waiting → r' = r → before' .waiting)
    (hGoesOn : ∀ point next, th = .caller (.stopping point) → before point →
      point.step cue r = some (r', .at next) → before' next)
    (hEnds : ∀ point report, th = .caller (.stopping point) → before point →
      point.step cue r = some (r', .done report) → after' report) : th'.Stops before' after' := by
  cases th with
  | worker w => exact h.elim
  | timer t => exact h.elim
  | answered answer => cases hStep
  | caller callPoint =>
    cases callPoint with
    | made call =>
      obtain ⟨rfl, hWaiting⟩ := h
      cases hStep
      exact hBegins hWaiting rfl
    | stopping point =>
      rcases step_lifted rfl hStep with ⟨next, hPoint, rfl, -⟩ | ⟨report, hPoint, rfl, -⟩
      · exact hGoesOn point next rfl h hPoint
      · exact hEnds point report rfl h hPoint
    | admitting | starting | canceling | scheduling | declaring => exact h.elim

/-- A shutdown lists the runs that it has moved, and has struck none of them twice. -/
theorem Shutdown.listed_of_step {cue : Cue} {r r' : Realm δ} {point : Shutdown}
    {p : Progress Shutdown ShutdownReport} (hKeys : (r.tokens.running.map (·.1)).Nodup)
    (hOnce : (point.struck ++ point.pending).Nodup) (h : point.step cue r = some (r', p)) :
    match p with
    | .at next => next.struck = point.struck ++ r.store.interruptedBy r'.store ∧
        (next.struck ++ next.pending).Nodup
    | .done report => report.interrupted = point.struck ++ r.store.interruptedBy r'.store ∧
        report.interrupted.Nodup := by
  cases point with
  | waiting =>
    simp only [step] at h
    split at h
    · cases h
    · split at h <;> cases h <;> simp [struck, pending, report?, quiet]
  | marking drain =>
    cases h
    simp [struck, pending, report?]
  | closing drain =>
    simp only [step] at h
    split at h <;> cases h <;> simp [struck, pending, report?, quiet]
  | draining deadline =>
    obtain ⟨rfl, stuck, hStuck, rfl⟩ := step_draining h
    have hOnce' : (stuck.map (·.1)).Nodup := (hStuck.map _).nodup_iff.mpr hKeys
    simpa [struck, pending, report?] using hOnce'
  | striking stuck report =>
    cases stuck with
    | nil =>
      cases h
      simpa [struck, pending, report?] using hOnce
    | cons entry stuck =>
      cases h
      simpa [struck, pending, report?] using hOnce
  | interrupting id stuck report =>
    simp only [step] at h
    split at h <;> cases h
    · next hTold =>
      obtain ⟨-, store, hStore, rfl⟩ := (Realm.tell_eq_ok _ _).mp hTold
      have hMoved := Store.interruptedBy_of_interrupt hStore
      obtain ⟨x, -, rfl, -, -, rfl, -⟩ := Store.transition_ok hStore
      simpa [struck, pending, report?, hMoved] using hOnce
    · next hTold =>
      cases Realm.tell_eq_error _ _ hTold
      refine ⟨by simp [struck, report?], hOnce.sublist ?_⟩
      exact (List.sublist_cons_self _ _).append_left _
  | finishing record stuck report =>
    cases h
    have hSame : (r.noteFinal record cue.answers).store = r.store := rfl
    simpa [struck, pending, report?, hSame] using hOnce

namespace System

variable {s u v : System δ} {e : Event} {events : List Event} {k : Nat} {ids : List JobId}
  {log : List Deed}

/-- The table of tokens binds a run to one token at most. -/
theorem nodup_running_of_run {settings : RealmSettings} {registry : Registry δ} {store : Store}
    (hRun : (initial settings registry store).run events = some u) :
    (u.realm.tokens.running.map (·.1)).Nodup := by
  refine run_induction (motive := fun _ u => (u.realm.tokens.running.map (·.1)).Nodup) hRun
    List.nodup_nil ?_
  intro before t e v hBefore hStep ih
  have hRest : ∀ id, ((t.realm.tokens.deregister id).running.map (·.1)).Nodup := fun id =>
    ih.sublist (List.filter_sublist.map _)
  cases passage_of_step hStep with
  | apart _ hBindings =>
    rw [hBindings.1]
    exact ih
  | comes i id _ _ hTokens =>
    rw [hTokens]
    rw [Tokens.register, List.map_append, List.nodup_append]
    refine ⟨hRest id, List.nodup_singleton _, ?_⟩
    rintro a ha b hb rfl
    obtain ⟨entry, hEntry, rfl⟩ := List.mem_map.mp ha
    have hNe : entry.1 ≠ id := by simpa using (List.mem_filter.mp hEntry).2
    exact hNe (List.mem_singleton.mp hb)
  | leaves i id _ _ hTokens =>
    rw [hTokens]
    exact hRest id

/-- In the course of these events, thread `k` takes a step at this point of a shutdown, while the
system is `t`. -/
def Passes (s : System δ) (events : List Event) (k : Nat) (point : Shutdown) (t : System δ) :
    Prop :=
  ∃ before cue after, events = before ++ .advance k cue :: after ∧ s.run before = some t ∧
    t.threads[k]? = some (.caller (.stopping point))

theorem Passes.concat {point : Shutdown} {t : System δ} (h : s.Passes events k point t) :
    s.Passes (events ++ [e]) k point t := by
  obtain ⟨before, cue, after, rfl, hRun, hAt⟩ := h
  exact ⟨before, cue, after ++ [e], by simp, hRun, hAt⟩

theorem passes_last {point : Shutdown} (hRun : s.run events = some v)
    (hAt : v.threads[k]? = some (.caller (.stopping point))) (cue : Cue) :
    s.Passes (events ++ [.advance k cue]) k point v :=
  ⟨events, cue, [], rfl, hRun, hAt⟩

/-- The shutdown of thread `k` found a realm that was not running. -/
def FoundAtRest (s : System δ) (events : List Event) (k : Nat) : Prop :=
  ∃ t, s.Passes events k .waiting t ∧ t.realm.lifecycle ≠ .running

/-- The shutdown of thread `k` has waited, and accounts for what was going on. -/
def Waited (s : System δ) (events : List Event) (k : Nat) (v : System δ) (inGrace : Bool)
    (pending : List JobId) : Prop :=
  ∃ deadline d, s.Passes events k (.draining deadline) d ∧ AccountsFor d v inGrace pending

/-- What is known at a point of a shutdown. -/
structure Stage (s : System δ) (events : List Event) (k : Nat) (v : System δ) (point : Shutdown) :
    Prop where
  atRest : point.idles = true → s.FoundAtRest events k
  waited : ∀ report, point.report? = some report →
    s.Waited events k v report.completedInGrace point.pending

/-- What is known of the report of a shutdown. -/
def Reported (s : System δ) (events : List Event) (k : Nat) (v : System δ)
    (report : ShutdownReport) : Prop :=
  (s.FoundAtRest events k ∧ report = Shutdown.quiet) ∨
    s.Waited events k v report.completedInGrace []

/-- Until the wait has ended, there is nothing to account for. -/
theorem Stage.early {point : Shutdown} (hReport : point.report? = none)
    (hAtRest : point.idles = true → s.FoundAtRest events k) : s.Stage events k v point := by
  refine ⟨hAtRest, fun report h => ?_⟩
  rw [hReport] at h
  cases h

theorem Stage.late {point : Shutdown} {report : ShutdownReport}
    (hReport : point.report? = some report) (hIdles : point.idles = false)
    (hWaited : s.Waited events k v report.completedInGrace point.pending) :
    s.Stage events k v point := by
  refine ⟨fun h => ?_, fun report' h => ?_⟩
  · rw [hIdles] at h
    cases h
  · rw [hReport] at h
    cases h
    exact hWaited

theorem FoundAtRest.concat (h : s.FoundAtRest events k) : s.FoundAtRest (events ++ [e]) k := by
  obtain ⟨t, hPasses, hAtRest⟩ := h
  exact ⟨t, hPasses.concat, hAtRest⟩

theorem Waited.step {inGrace : Bool} {pending : List JobId}
    (h : s.Waited events k v inGrace pending) (hOwned : Owned v ids log) (hStep : v.step e = some u)
    (hIds : (ids ++ (v.admissions e).map (·.2.id)).Nodup) :
    s.Waited (events ++ [e]) k u inGrace pending := by
  obtain ⟨deadline, d, hPasses, hAccounts⟩ := h
  exact ⟨deadline, d, hPasses.concat, hAccounts.step hOwned hStep hIds⟩

theorem Stage.step {point : Shutdown} (h : s.Stage events k v point) (hOwned : Owned v ids log)
    (hStep : v.step e = some u) (hIds : (ids ++ (v.admissions e).map (·.2.id)).Nodup) :
    s.Stage (events ++ [e]) k u point :=
  ⟨fun hIdles => (h.atRest hIdles).concat, fun report hReport =>
    (h.waited report hReport).step hOwned hStep hIds⟩

theorem Reported.step {report : ShutdownReport} (h : s.Reported events k v report)
    (hOwned : Owned v ids log) (hStep : v.step e = some u)
    (hIds : (ids ++ (v.admissions e).map (·.2.id)).Nodup) :
    s.Reported (events ++ [e]) k u report :=
  h.imp (fun ⟨hAtRest, hQuiet⟩ => ⟨hAtRest.concat, hQuiet⟩) fun hWaited =>
    hWaited.step hOwned hStep hIds

/-- A caller's step leaves every worker where it is. -/
theorem busy_of_caller_step {i : Nat} {cue : Cue} {point : CallPoint} {w : Worker δ}
    {record : JobRecord} (hAt : v.threads[k]? = some (.caller point))
    (hStep : v.step (.advance k cue) = some u) (hBusy : u.Busy i w record) :
    v.Busy i w record := by
  obtain ⟨r', th', crew, hThread, rfl⟩ := step_advance_at hAt hStep
  rcases threads_of_advance hBusy.1 with ⟨-, rfl⟩ | ⟨-, hOld⟩ | ⟨-, hMem⟩
  · obtain ⟨w₀, hEq, -⟩ := Thread.worker_of_step hThread
    cases hEq
  · exact ⟨hOld, hBusy.2⟩
  · rcases Thread.crew_of_step hThread _ hMem with hEq | hEq <;> cases hEq
    cases hBusy.2

/-- A shutdown of a realm that runs ends its wait, and then strikes every run that the table shows
at that time. -/
theorem Stage.own {cue : Cue} {r' : Realm δ} {point : Shutdown}
    {p : Progress Shutdown ShutdownReport} (h : s.Stage events k v point)
    (hRun : s.run events = some v) (hAt : v.threads[k]? = some (.caller (.stopping point)))
    (hGoverned : Governed v) (hOwned : Owned v ids log)
    (hStep : v.step (.advance k cue) = some u) (hRealm : u.realm = r')
    (hIds : (ids ++ (v.admissions (.advance k cue)).map (·.2.id)).Nodup)
    (hCalm : cue.fault = none) (hPoint : point.step cue v.realm = some (r', p)) :
    match p with
    | .at next => s.Stage (events ++ [.advance k cue]) k u next
    | .done report => s.Reported (events ++ [.advance k cue]) k u report := by
  have hPasses := passes_last hRun hAt cue
  have hSame := h.step hOwned hStep hIds
  cases point with
  | waiting =>
    have hFound : v.realm.lifecycle ≠ .running → s.FoundAtRest (events ++ [.advance k cue]) k :=
      fun hNot => ⟨v, hPasses, hNot⟩
    simp only [Shutdown.step] at hPoint
    split at hPoint
    · cases hPoint
    · split at hPoint
      · next hShutDown =>
        cases hPoint
        exact .inl ⟨hFound (by rw [hShutDown]; rintro ⟨⟩), rfl⟩
      · next hCreated =>
        cases hPoint
        exact .early rfl fun _ => hFound (by rw [hCreated]; rintro ⟨⟩)
      · cases hPoint
        exact .early rfl (by rintro ⟨⟩)
  | marking drain =>
    cases hPoint
    exact .early rfl hSame.atRest
  | closing drain =>
    cases drain with
    | true =>
      cases hPoint
      exact .early rfl (by rintro ⟨⟩)
    | false =>
      cases hPoint
      exact .inl ⟨hSame.atRest rfl, rfl⟩
  | draining deadline =>
    obtain ⟨-, stuck, hStuck, rfl⟩ := Shutdown.step_draining hPoint
    have hAccounts := AccountsFor.start v (hGoverned.stopping hAt rfl) hStuck
    exact .late rfl rfl ⟨deadline, v, hPasses, hAccounts.step hOwned hStep hIds⟩
  | striking stuck report =>
    have hWaited := hSame.waited report rfl
    cases stuck with
    | nil =>
      cases hPoint
      exact .inr hWaited
    | cons entry stuck =>
      cases hPoint
      exact .late rfl rfl hWaited
  | interrupting id stuck report =>
    obtain ⟨deadline, d, hPassed, hAccounts⟩ := hSame.waited report rfl
    simp only [Shutdown.step] at hPoint
    have hStruck : ∀ result r', v.realm.transition cue id .running .interrupt = (result, r') →
        u.realm = r' → s.Waited (events ++ [.advance k cue]) k u report.completedInGrace
          (stuck.map (·.1)) := by
      rintro result r' hTold rfl
      refine ⟨deadline, d, hPassed, hAccounts.struck ?_⟩
      rintro i w record hBusy rfl
      exact over_of_struck hOwned (busy_of_caller_step hAt hStep hBusy) hCalm hTold
    split at hPoint <;> next hTold =>
      cases hPoint
      exact .late rfl rfl (hStruck _ _ hTold hRealm)
  | finishing record stuck report =>
    have hWaited := hSame.waited _ rfl
    cases hPoint
    exact .late rfl rfl hWaited

/-- What is known of the thread that shuts the realm down: it lists what it has interrupted, and
accounts for what it has not. -/
def Reports (s : System δ) (events : List Event) (k : Nat) (v : System δ) (th : Thread δ) : Prop :=
  th.Stops
    (fun point => point.struck = s.trail (interruptions k) events ∧
      (point.struck ++ point.pending).Nodup ∧ s.Stage events k v point)
    fun report => report.interrupted = s.trail (interruptions k) events ∧
      report.interrupted.Nodup ∧ s.Reported events k v report

theorem Reports.step {th : Thread δ} (h : s.Reports events k v th) (hRun : s.run events = some v)
    (hAt : v.threads[k]? = some th) (hKeys : (v.realm.tokens.running.map (·.1)).Nodup)
    (hGoverned : Governed v) (hOwned : Owned v ids log) (hStep : v.step e = some u)
    (hIds : (ids ++ (v.admissions e).map (·.2.id)).Nodup) (hCalm : e.Untroubled) :
    ∃ th', u.threads[k]? = some th' ∧ s.Reports (events ++ [e]) k u th' := by
  unfold Reports
  rw [trail_concat hRun]
  by_cases hOwn : ∃ cue, e = .advance k cue
  · obtain ⟨cue, rfl⟩ := hOwn
    rw [interruptions_self hStep]
    obtain ⟨r', th', crew, hThread, hu⟩ := step_advance_at hAt hStep
    have hRealm : u.realm = r' := by rw [hu]
    refine ⟨th', by rw [hu]; exact thread_of_advance_self hAt, ?_⟩
    refine Thread.Stops.step h hThread ?_ ?_ ?_
    · rintro ⟨hStruck, hOnce, -⟩ rfl
      rw [hRealm, Store.interruptedBy_self, List.append_nil]
      exact ⟨hStruck, hOnce, .early rfl (by rintro ⟨⟩)⟩
    · rintro point next rfl ⟨hStruck, hOnce, hStage⟩ hPoint
      obtain ⟨hStruck', hOnce'⟩ := Shutdown.listed_of_step hKeys hOnce hPoint
      rw [← hStruck, hRealm]
      exact ⟨hStruck', hOnce', hStage.own hRun hAt hGoverned hOwned hStep hRealm hIds hCalm hPoint⟩
    · rintro point report rfl ⟨hStruck, hOnce, hStage⟩ hPoint
      obtain ⟨hListed, hOnce'⟩ := Shutdown.listed_of_step hKeys hOnce hPoint
      rw [← hStruck, hRealm]
      exact ⟨hListed, hOnce', hStage.own hRun hAt hGoverned hOwned hStep hRealm hIds hCalm hPoint⟩
  · have hOther : ∀ cue, e ≠ .advance k cue := fun cue hEq => hOwn ⟨cue, hEq⟩
    rw [interruptions_of_ne hOther, List.append_nil]
    refine ⟨th, thread_of_step_of_ne hStep hAt hOther, Thread.Stops.imp h ?_ ?_⟩
    · rintro point ⟨hStruck, hOnce, hStage⟩
      exact ⟨hStruck, hOnce, hStage.step hOwned hStep hIds⟩
    · rintro report ⟨hListed, hOnce, hReported⟩
      exact ⟨hListed, hOnce, hReported.step hOwned hStep hIds⟩

-- ---------------------------------------------------------------------------
-- All together
-- ---------------------------------------------------------------------------

variable {settings : RealmSettings} {registry : Registry δ} {store : Store}
  {before after : List Event}

theorem reports_of_run (hBefore : (initial settings registry store).run before = some s)
    (hRun : s.run (.call .shutdown :: after) = some u)
    (hIds : ((initial settings registry store).runIds
      (before ++ .call .shutdown :: after)).Nodup) (hCalm : ∀ e ∈ after, e.Untroubled) :
    ∃ th, u.threads[s.threads.length]? = some th ∧
      s.Reports (.call .shutdown :: after) s.threads.length u th := by
  obtain ⟨t, hCall, hRest⟩ := Option.bind_eq_some_iff.mp hRun
  have hFirst : (initial settings registry store).run (before ++ [.call .shutdown]) = some t :=
    run_concat_of_run hBefore hCall
  rw [List.append_cons] at hIds
  refine run_induction_of_nodup (motive := fun mid v => (∀ e ∈ mid, e.Untroubled) →
    ∃ th, v.threads[s.threads.length]? = some th ∧
      s.Reports (.call .shutdown :: mid) s.threads.length v th) hFirst hRest hIds ?_ ?_ hCalm
  · intro _
    cases hCall
    refine ⟨_, List.getElem?_concat_length, rfl, ?_⟩
    exact ⟨rfl, List.nodup_nil, .early rfl (by rintro ⟨⟩)⟩
  · intro mid v e w hMid hStep hUpTo hOwned hIds ih hCalm
    have hSoFar : s.run (.call .shutdown :: mid) = some v := by
      rw [run, hCall]
      exact hMid
    obtain ⟨th, hAt, hReports⟩ := ih fun e he => hCalm e (List.mem_append_left _ he)
    exact hReports.step hSoFar hAt (nodup_running_of_run hUpTo) (governed_of_run hUpTo) hOwned hStep
      hIds (hCalm e (List.mem_append_right _ List.mem_cons_self))

theorem interrupted_of_run (hBefore : (initial settings registry store).run before = some s)
    (hRun : s.run events = some u)
    (hIds : ((initial settings registry store).runIds (before ++ events)).Nodup) (k : Nat) :
    u.Interrupted ((initial settings registry store).runIds (before ++ events))
      (s.trail (interruptions k) events) := by
  refine run_induction_of_nodup (motive := fun events u =>
    u.Interrupted ((initial settings registry store).runIds (before ++ events))
      (s.trail (interruptions k) events)) hBefore hRun hIds ?_ ?_
  · intro id hMem
    cases hMem
  · intro mid v e w hMid hStep hUpTo hOwned hIds ih
    rw [← List.append_assoc, runIds_concat hUpTo, trail_concat hMid]
    exact ih.step hOwned.stored hStep hIds

/-- However the threads of a realm interleave, the report of a shutdown lists the runs that it has
interrupted, each once; and these stay as they are, whatever outcomes come in for them later. A
shutdown that found the realm running accounts for all other runs at the end of its wait, except for
those that it missed then: once it has answered, no other claimed run goes on, and none will; and if
it says that all runs ended in time, then no worker is inside a definition for any other run. -/
theorem report_of_run (hBefore : (initial settings registry store).run before = some s)
    (hAfter : s.run (.call .shutdown :: after) = some u)
    (hIds : ((initial settings registry store).runIds
      (before ++ .call .shutdown :: after)).Nodup)
    (hCalm : ∀ e ∈ before ++ .call .shutdown :: after, e.Untroubled) :
    (∀ report, u.threads[s.threads.length]? = some (.answered (.ok (.report report))) →
      report.interrupted =
          s.trail (interruptions s.threads.length) (.call .shutdown :: after) ∧
        report.interrupted.Nodup ∧
        ((s.FoundAtRest (.call .shutdown :: after) s.threads.length ∧ report = Shutdown.quiet) ∨
          ∃ deadline d,
            s.Passes (.call .shutdown :: after) s.threads.length (.draining deadline) d ∧
              (∀ x ∈ u.realm.store.records, x.state = .running →
                (∃ i record, .claimed i record ∈ (initial settings registry store).trail deeds
                  (before ++ .call .shutdown :: after) ∧ record.id = x.id) →
                    ∃ i, d.Missed i x.id) ∧
              (report.completedInGrace = true → ∀ (i : Nat) record token definition,
                u.threads[i]? = some (.worker (.executing record token definition)) →
                  d.Missed i record.id))) ∧
      ∀ id ∈ s.trail (interruptions s.threads.length) (.call .shutdown :: after),
        (∀ x ∈ u.realm.store.records, x.id = id → x.state = .interrupted) ∧
          ∀ (i : Nat) record t cue v, u.threads[i]? = some (.worker (.recording record t)) →
            record.id = id → u.step (.advance i cue) = some v →
              v.realm = u.realm ∧ v.threads[i]? = some (.worker (.leaving id)) := by
  have hRun : (initial settings registry store).run (before ++ .call .shutdown :: after) =
      some u := by
    rw [run_append_of_run hBefore, hAfter]
  refine ⟨fun report hAnswer => ?_, fun id hId => ?_⟩
  · obtain ⟨th, hAt, hReports⟩ := reports_of_run hBefore hAfter hIds fun e he =>
      hCalm e (List.mem_append_right _ (List.mem_cons_of_mem _ he))
    rw [hAnswer] at hAt
    cases hAt
    obtain ⟨hListed, hOnce, hReported⟩ := hReports
    refine ⟨hListed, hOnce, hReported.imp_right ?_⟩
    rintro ⟨deadline, d, hPasses, hAccounts⟩
    refine ⟨deadline, d, hPasses, fun x hx hRunning hClaimed => ?_, fun hInGrace => ?_⟩
    · obtain ⟨i, w, record, hBusy, hSame⟩ := tended_of_run hRun hCalm x hx hRunning hClaimed
      rcases hAccounts.workers hBusy.1 (Worker.run?_of_attempt hBusy.2) with
        hMissed | ⟨-, -, hPending | hOver⟩
      · exact ⟨i, hSame ▸ hMissed⟩
      · cases hPending
      · have hTerminal := hOver x hx hSame.symm
        rw [JobRecord.isTerminal_of_running hRunning] at hTerminal
        cases hTerminal
    · intro i record token definition hAt
      rcases hAccounts.workers hAt rfl with hMissed | ⟨-, hLate, -⟩
      · exact hMissed
      · rw [hInGrace] at hLate
        cases hLate
  · obtain ⟨-, hOver⟩ := interrupted_of_run hBefore hAfter hIds s.threads.length id hId
    refine ⟨hOver, ?_⟩
    rintro i record t cue v hAt rfl hStep
    exact realm_of_late hAt hOver hStep

/-- The report that a thread was answered with. -/
def report? (s : System δ) (i : Nat) : Option ShutdownReport :=
  match s.threads[i]? with
  | some (.answered (.ok (.report report))) => some report
  | _ => none

theorem report?_eq_some {i : Nat} {report : ShutdownReport} (h : s.report? i = some report) :
    s.threads[i]? = some (.answered (.ok (.report report))) := by
  unfold report? at h
  split at h <;> cases h
  assumption

/-- The realm is shut down while a worker is in an attempt, which comes to its end afterwards. -/
def shutDownThen : List Event :=
  let advance (i n : Nat) : Event := .advance i { now := ⟨n, 0⟩, fresh := default }
  [.call .shutdown, advance 5 20, advance 5 21, advance 5 22, advance 5 23, advance 5 100000,
    advance 5 100001, advance 5 100002, advance 5 100003, advance 5 100004, advance 2 100005,
    advance 2 100006]

/-- The run that the outcome is recorded for which worker `i` has come to. -/
def recorded? (s : System δ) (i : Nat) : Option JobId :=
  match s.threads[i]? with
  | some (.worker (.recording record _)) => some record.id
  | _ => none

/-- A run that outlives the wait is interrupted, and the outcome that comes in late is dropped. -/
theorem report_of_run_shutDownThen :
    ∃ (s u : System Unit) (report : ShutdownReport),
      (initial { workers := 2 } ⟨Dict.empty.insert "job" ()⟩ Store.empty).run atWork = some s ∧
        s.run shutDownThen = some u ∧
          u.threads[s.threads.length]? = some (.answered (.ok (.report report))) ∧
            report.interrupted = [⟨⟨3⟩⟩] ∧
              (∀ x ∈ u.realm.store.records, x.id = ⟨⟨3⟩⟩ → x.state = .interrupted) ∧
                ∀ cue v, u.step (.advance 2 cue) = some v → v.realm = u.realm := by
  have hBegin : ((initial { workers := 2 } ⟨Dict.empty.insert "job" ()⟩ Store.empty).run
      atWork).map (·.threads.length) = some 5 := by
    decide +kernel
  have hEnd : ((initial { workers := 2 } ⟨Dict.empty.insert "job" ()⟩ Store.empty).run
      (atWork ++ shutDownThen)).map (fun u => (u.report? 5, u.recorded? 2)) =
        some (some ⟨false, [⟨⟨3⟩⟩]⟩, some ⟨⟨3⟩⟩) := by
    decide +kernel
  have hIds : ((initial { workers := 2 } ⟨Dict.empty.insert "job" ()⟩ Store.empty).runIds
      (atWork ++ shutDownThen)).Nodup := by
    decide +kernel
  have hCalm : ∀ e ∈ atWork ++ shutDownThen, e.Untroubled := by
    simp [atWork, shutDownThen, Event.Untroubled]
  obtain ⟨s, hBefore, hLength⟩ := Option.map_eq_some_iff.mp hBegin
  rw [run_append_of_run hBefore] at hEnd
  obtain ⟨u, hAfter, hMeets⟩ := Option.map_eq_some_iff.mp hEnd
  obtain ⟨hReport, hRecording⟩ := Prod.mk.inj hMeets
  have hAnswer := report?_eq_some hReport
  rw [← hLength] at hAnswer
  obtain ⟨hReports, hLate⟩ := report_of_run hBefore hAfter hIds hCalm
  obtain ⟨hListed, -⟩ := hReports _ hAnswer
  obtain ⟨hOver, hDropped⟩ := hLate ⟨⟨3⟩⟩ (by rw [← hListed]; exact List.mem_cons_self)
  refine ⟨s, u, _, hBefore, hAfter, hAnswer, rfl, hOver, fun cue v hStep => ?_⟩
  unfold recorded? at hRecording
  split at hRecording
  · next record t hAt =>
    have hId : record.id = ⟨⟨3⟩⟩ := Option.some.inj hRecording
    exact (hDropped 2 record t cue v hAt hId hStep).1
  · cases hRecording

/-- The realm is shut down after a worker has passed the check of the mark, and the worker goes
on. -/
def shutDownBefore : List Event :=
  let advance (i n : Nat) : Event := .advance i { now := ⟨n, 0⟩, fresh := default }
  [.call .shutdown, advance 5 20, advance 5 21, advance 5 22, advance 5 23, advance 5 24,
    advance 5 25, advance 2 26, advance 2 27, advance 2 28]

/-- Is worker `i` inside the definition for a run that goes on? -/
def insideRun (s : System δ) (i : Nat) : Bool :=
  match s.threads[i]? with
  | some (.worker (.executing record _ _)) =>
    s.realm.store.records.any fun x => x.id = record.id && x.state = .running
  | _ => false

/-- A shutdown may answer that all runs ended in time, and a worker may claim a run after that,
which then goes on. -/
theorem shutdown_overtaken :
    ∃ (s u : System Unit) (record : JobRecord) (token : Token),
      (initial { workers := 2 } ⟨Dict.empty.insert "job" ()⟩ Store.empty).run (atWork.take 16) =
          some s ∧
        s.run shutDownBefore = some u ∧
          u.threads[s.threads.length]? = some (.answered (.ok (.report ⟨true, []⟩))) ∧
            u.threads[2]? = some (.worker (.executing record token ())) ∧
              ∃ x ∈ u.realm.store.records, x.id = record.id ∧ x.state = .running := by
  have hBegin : ((initial { workers := 2 } ⟨Dict.empty.insert "job" ()⟩ Store.empty).run
      (atWork.take 16)).map (·.threads.length) = some 5 := by
    decide +kernel
  have hEnd : ((initial { workers := 2 } ⟨Dict.empty.insert "job" ()⟩ Store.empty).run
      (atWork.take 16 ++ shutDownBefore)).map (fun u => (u.report? 5, u.insideRun 2)) =
        some (some ⟨true, []⟩, true) := by
    decide +kernel
  obtain ⟨s, hBefore, hLength⟩ := Option.map_eq_some_iff.mp hBegin
  rw [run_append_of_run hBefore] at hEnd
  obtain ⟨u, hAfter, hMeets⟩ := Option.map_eq_some_iff.mp hEnd
  obtain ⟨hReport, hGoesOn⟩ := Prod.mk.inj hMeets
  have hAnswer := report?_eq_some hReport
  rw [← hLength] at hAnswer
  unfold insideRun at hGoesOn
  split at hGoesOn
  · next record token definition hAt =>
    obtain ⟨x, hx, hFound⟩ := List.any_eq_true.mp hGoesOn
    simp only [Bool.and_eq_true, decide_eq_true_eq] at hFound
    exact ⟨s, u, record, token, hBefore, hAfter, hAnswer, hAt, x, hx, hFound⟩
  · cases hGoesOn

end System

end BackgroundJobs
