import BackgroundJobs.Proofs.Realm.Interruptions

/-!
# Proofs — cancellations

A cancellation leaves its mark in the store and raises the token of the
attempt, in two steps between which everything else can happen, a retry among
it. The two sides make up for each other: whoever claims a marked run raises the
token itself, and an attempt that ends with a raised token, or that began with
the mark, is not repeated. What a cancellation answers with is canceled, or goes
on with the mark, or has ended on its own; and in the last case the cancellation
may have marked the run in an earlier round, while it was active still.

Main results:

* `claims_of_marked`      — a marked run is claimed at most once more.
* `signalled_of_run`      — an attempt that began with the mark has its token raised.
* `withdrawal_of_judged`  — an attempt that was told to stop is not repeated.
* `answers_of_cancel`     — what a cancellation answers with.
* `cancellations_of_run`  — no cancellation is lost to a retry.
-/

namespace BackgroundJobs

variable {δ : Type}

-- ---------------------------------------------------------------------------
-- The mark
-- ---------------------------------------------------------------------------

namespace Deed

/-- The records with which the attempts of a run began, in order. -/
def claims (log : List Deed) (id : JobId) : List JobRecord :=
  log.filterMap fun
    | .claimed _ record => if record.id = id then some record else none
    | .settled .. => none

variable {log later : List Deed} {id : JobId}

theorem claims_append : claims (log ++ later) id = claims log id ++ claims later id :=
  List.filterMap_append

theorem claims_settled (i : Nat) (record : JobRecord) (result : Except StoreError JobRecord) :
    claims [.settled i record result] id = [] := rfl

theorem claims_claimed_of_ne {record : JobRecord} (i : Nat) (h : record.id ≠ id) :
    claims [.claimed i record] id = [] := by
  simp [claims, h]

theorem claims_claimed_self {record : JobRecord} (i : Nat) (h : record.id = id) :
    claims [.claimed i record] id = [record] := by
  simp [claims, h]

end Deed

namespace System

variable {s t u : System δ} {e : Event} {ids : List JobId} {log : List Deed} {id : JobId} {n : Nat}

/-- The run is marked for cancellation, and had this many attempts. -/
def Marked (s : System δ) (id : JobId) (n : Nat) : Prop :=
  ∀ x ∈ s.realm.store.records, x.id = id → x.cancelRequested = true ∧ x.attempts = n

/-- The run is marked and will not be claimed again: it does not wait, and a worker that is in an
attempt of it knows of the mark. -/
structure Spent (s : System δ) (id : JobId) (n : Nat) : Prop where
  marked : s.Marked id n
  unqueued : ∀ x ∈ s.realm.store.records, x.id = id → x.state ≠ .queued
  known : ∀ {i w record}, s.Busy i w record → record.id = id → record.cancelRequested = true

/-- The mark stays where it is. With a claim the run is told to stop, and will not be claimed
again. -/
theorem Marked.step (h : s.Marked id n) (hId : id ∈ ids) (hOwned : Owned s ids log)
    (hMove : Move s e u) (hIds : (ids ++ (s.admissions e).map (·.2.id)).Nodup) :
    (Deed.claims (s.deeds e) id = [] ∧ u.Marked id n) ∨
      ∃ record, Deed.claims (s.deeds e) id = [record] ∧ record.cancelRequested = true ∧
        u.Spent id (n + 1) ∧ ∃ x ∈ s.realm.store.records, x.id = id ∧ x.state = .queued := by
  cases hMove with
  | quiet hStore _ _ hDeeds =>
    rw [hDeeds]
    refine .inl ⟨rfl, fun x' hx' hSame => ?_⟩
    obtain ⟨x, hx, hxId, hFollows⟩ := Owned.follows_of_quiet hStore hIds hx' (hSame ▸ hId)
    obtain ⟨hMark, hAttempts⟩ := h x hx (hxId.trans hSame)
    exact ⟨hFollows.cancelRequested hMark, hFollows.attempts.trans hAttempts⟩
  | claim i cue x token _ _ hThreads hStored hQueued hStore _ hDeeds =>
    rw [hDeeds]
    by_cases hSame : x.id = id
    · subst hSame
      obtain ⟨hMark, hAttempts⟩ := h x hStored rfl
      refine .inr ⟨_, Deed.claims_claimed_self i rfl, hMark, ?_, x, hStored, rfl, hQueued⟩
      have hOnly : ∀ y ∈ u.realm.store.records, y.id = x.id →
          y = Transition.start.apply x cue.now := fun y hy hyId =>
        ((hStore y).mp hy).resolve_right fun hOther => hOther.2 hyId
      refine ⟨?_, ?_, ?_⟩
      · intro y hy hyId
        rw [hOnly y hy hyId]
        exact ⟨hMark, congrArg (· + 1) hAttempts⟩
      · intro y hy hyId
        rw [hOnly y hy hyId]
        nofun
      · intro j w record hBusy hRecord
        rcases busy_of_set_of_some hThreads rfl hBusy with ⟨-, -, rfl⟩ | ⟨-, hOld⟩
        · exact hMark
        · exact absurd hRecord (hOwned.id_ne_of_queued hOld hStored hQueued)
    · refine .inl ⟨Deed.claims_claimed_of_ne i hSame, fun y hy hyId => ?_⟩
      rcases (hStore y).mp hy with rfl | ⟨hOld, -⟩
      · exact absurd hyId hSame
      · exact h y hOld hyId
  | goOn i cue w w' record _ _ _ _ _ _ hStore hDeeds =>
    rw [hDeeds]
    refine .inl ⟨rfl, fun x hx hSame => ?_⟩
    rw [hStore] at hx
    exact h x hx hSame
  | settle i cue record t w' result _ _ _ _ hStore _ hDeeds =>
    rw [hDeeds]
    refine .inl ⟨Deed.claims_settled i record result, fun y hy hyId => ?_⟩
    rcases hStore with ⟨_, -, hSame⟩ | ⟨x, hx, -, -, hTarget, -, hStore⟩
    · rw [hSame] at hy
      exact h y hy hyId
    · rcases (hStore y).mp hy with rfl | ⟨hOld, -⟩
      · obtain ⟨hMark, hAttempts⟩ := h x hx hyId
        refine ⟨hMark, ?_⟩
        simpa [Transition.apply, hTarget] using hAttempts
      · exact h y hOld hyId

/-- A worker that knows of the mark does not put the run back, so nobody claims it again. -/
theorem Spent.step {start : Store} (h : s.Spent id n) (hId : id ∈ ids) (hOwned : Owned s ids log)
    (hAccounted : Accounted start s ids) (hMove : Move s e u)
    (hIds : (ids ++ (s.admissions e).map (·.2.id)).Nodup) :
    Deed.claims (s.deeds e) id = [] ∧ u.Spent id n := by
  rcases h.marked.step hId hOwned hMove hIds with
    ⟨hNone, hMarked⟩ | ⟨_, -, -, -, x, hx, hxId, hQueued⟩
  · refine ⟨hNone, hMarked, ?_, ?_⟩
    · intro y hy hyId hWaits
      cases hMove with
      | quiet hStore _ _ _ =>
        obtain ⟨x, hx, hxId, hFollows⟩ := Owned.follows_of_quiet hStore hIds hy (hyId ▸ hId)
        exact h.unqueued x hx (hxId.trans hyId) (hFollows.queued hWaits)
      | claim i cue x token _ _ _ _ _ hStore _ _ =>
        rcases (hStore y).mp hy with rfl | ⟨hOld, -⟩
        · cases hWaits
        · exact h.unqueued y hOld hyId hWaits
      | goOn i cue w w' record _ _ _ _ _ _ hStore _ =>
        rw [hStore] at hy
        exact h.unqueued y hy hyId hWaits
      | settle i cue record t w' result _ hBefore _ _ hStore _ _ =>
        rcases hStore with ⟨_, -, hSame⟩ | ⟨x, hx, hxId, -, -, -, hStore⟩
        · rw [hSame] at hy
          exact h.unqueued y hy hyId hWaits
        · rcases (hStore y).mp hy with rfl | ⟨hOld, -⟩
          · have hBusy : s.Busy i (.recording record t) record := ⟨hBefore, rfl⟩
            have hKnown := h.known hBusy (hxId.symm.trans hyId)
            rw [(hAccounted.busy hBusy hWaits).2.2] at hKnown
            cases hKnown
          · exact h.unqueued y hOld hyId hWaits
    · intro j v b hBusy hbId
      cases hMove with
      | quiet _ hWorkers _ _ => exact h.known (Owned.busy_of_quiet hWorkers hBusy) hbId
      | claim i cue x token _ _ hThreads hStored hQueued _ _ _ =>
        rcases busy_of_set_of_some hThreads rfl hBusy with ⟨-, -, rfl⟩ | ⟨-, hOld⟩
        · exact absurd hQueued (h.unqueued x hStored hbId)
        · exact h.known hOld hbId
      | goOn i cue w w' record _ hBefore hThreads hAttempt hAttempt' _ _ _ =>
        rcases busy_of_set_of_some hThreads hAttempt' hBusy with ⟨-, -, rfl⟩ | ⟨-, hOld⟩
        · exact h.known ⟨hBefore, hAttempt⟩ hbId
        · exact h.known hOld hbId
      | settle i cue record t w' result _ _ hThreads hNone _ _ _ =>
        exact h.known (busy_of_set_of_none hThreads hNone hBusy).2 hbId
  · exact absurd hQueued (h.unqueued x hx hxId)

variable {settings : RealmSettings} {registry : Registry δ} {store : Store}
  {before after : List Event}

/-- A marked run is claimed at most once more, and by a worker that finds the mark. -/
theorem claims_of_marked (hBefore : (initial settings registry store).run before = some s)
    (hRun : s.run after = some u)
    (hIds : ((initial settings registry store).runIds (before ++ after)).Nodup)
    (hMarked : s.Marked id n) (hId : id ∈ (initial settings registry store).runIds before) :
    (Deed.claims (s.trail deeds after) id = [] ∧ u.Marked id n) ∨
      ∃ record, Deed.claims (s.trail deeds after) id = [record] ∧
        record.cancelRequested = true ∧ u.Spent id (n + 1) := by
  refine run_induction (motive := fun after u =>
    ((initial settings registry store).runIds (before ++ after)).Nodup →
      (Deed.claims (s.trail deeds after) id = [] ∧ u.Marked id n) ∨
        ∃ record, Deed.claims (s.trail deeds after) id = [record] ∧
          record.cancelRequested = true ∧ u.Spent id (n + 1)) hRun ?_ ?_ hIds
  · intro _
    exact .inl ⟨rfl, hMarked⟩
  · intro mid t e v hMid hStep ih hIds
    have hUpTo : (initial settings registry store).run (before ++ mid) = some t := by
      rw [run_append_of_run hBefore, hMid]
    rw [← List.append_assoc, runIds_concat hUpTo] at hIds
    have hIds' := (List.nodup_append.mp hIds).1
    have hKnown : id ∈ (initial settings registry store).runIds (before ++ mid) := by
      rw [runIds_append hBefore]
      exact List.mem_append_left _ hId
    have hOwned := owned_of_run hUpTo hIds'
    have hMove : Move t e v := move_of_step (made_of_run hUpTo) hStep
    rw [trail_concat hMid, Deed.claims_append]
    rcases ih hIds' with ⟨hNone, hMarked⟩ | ⟨record, hOne, hMark, hSpent⟩
    · rw [hNone, List.nil_append]
      rcases hMarked.step hKnown hOwned hMove hIds with
        ⟨hNone, hMarked⟩ | ⟨record, hOne, hMark, hSpent, -⟩
      · exact .inl ⟨hNone, hMarked⟩
      · exact .inr ⟨record, hOne, hMark, hSpent⟩
    · obtain ⟨hNone, hSpent⟩ :=
        hSpent.step hKnown hOwned (accounted_of_run hUpTo hIds') hMove hIds
      rw [hOne, hNone, List.append_nil]
      exact .inr ⟨record, rfl, hMark, hSpent⟩

end System

-- ---------------------------------------------------------------------------
-- The signal
-- ---------------------------------------------------------------------------

/-- A worker that began its attempt with the mark has raised the token of the attempt before it
called the definition. -/
def Worker.Signalled (r : Realm δ) : Worker δ → Prop
  | .executing record token _ | .judging record token _ =>
    record.cancelRequested = true → r.tokens.isRaised token = true
  | _ => True

theorem Worker.signalled_step {cue : Cue} {r r' : Realm δ} {w w' : Worker δ} (h : w.Signalled r)
    (hStep : w.step cue r = some (r', w')) : w'.Signalled r' := by
  cases w with
  | claimed record token =>
    simp only [step] at hStep
    split at hStep <;> cases hStep
    · intro hMark
      rw [if_pos hMark]
      exact Tokens.isRaised_raise_self r.tokens token
    · trivial
  | executing record token definition =>
    cases hStep
    exact h
  | idle =>
    simp only [step] at hStep
    split at hStep
    · cases hStep
      trivial
    · obtain ⟨⟨id, queue⟩, -, hEq⟩ := Option.map_eq_some_iff.mp hStep
      cases hEq
      trivial
  | taken id =>
    cases hStep
    split <;> trivial
  | claiming | withdrawing =>
    simp only [step] at hStep
    split at hStep <;> cases hStep <;> trivial
  | recording record t =>
    simp only [step] at hStep
    split at hStep <;> cases hStep
    · split
      · split <;> trivial
      · trivial
    · trivial
  | entering | judging | requeueing | finishing | leaving =>
    cases hStep
    trivial
  | retired => cases hStep

theorem Worker.Signalled.of_raised {r r' : Realm δ} {w : Worker δ} (h : w.Signalled r)
    (hRaised : ∀ token, r.tokens.isRaised token = true → r'.tokens.isRaised token = true) :
    w.Signalled r' := by
  cases w with
  | executing | judging => exact fun hMark => hRaised _ (h hMark)
  | idle | taken | entering | claiming | claimed | recording | withdrawing | requeueing |
    finishing | leaving | retired => trivial

theorem System.signalled_of_run {r : Realm δ} {u : System δ} {events : List Event}
    (hRun : (ofRealm r).run events = some u) :
    ∀ i : Nat, ∀ th, u.threads[i]? = some th → ∀ w, th = .worker w → w.Signalled u.realm := by
  refine forall_threads_of_run (P := fun r th => ∀ w, th = .worker w → w.Signalled r)
    ?_ ?_ ?_ ?_ ?_ hRun
  · rintro r call w ⟨⟩
  · intro cue r th r' th' crew hStep h
    refine ⟨?_, ?_⟩
    · rintro w' rfl
      obtain ⟨w, rfl, hWorker, -⟩ := Thread.worker_of_step hStep
      exact Worker.signalled_step (h w rfl) hWorker
    · rintro x hx w rfl
      rcases Thread.crew_of_step hStep _ hx with hEq | hEq <;> cases hEq
      trivial
  · intro cue r th r' th' crew hStep other h w hEq
    exact (h w hEq).of_raised (Thread.effect hStep).raised
  · intro r cutoff other h
    exact h
  · intro i th hAt
    cases hAt

-- ---------------------------------------------------------------------------
-- The outcome
-- ---------------------------------------------------------------------------

/-- What may come of recording an attempt that failed after it was told to stop: the attempt ends
as canceled; or the store is in trouble; or the realm is stopping and has interrupted the run, whose
record may be gone since. -/
def JobRecord.Withdrawn (record : JobRecord) (stopping : Bool) :
    Except StoreError JobRecord → Prop
  | .ok after => after.state = .canceled ∧ after.Concludes record
  | .error e => (∃ text, e = .storage text) ∨
    (stopping = true ∧
      (e = .stateConflict record.id .running .interrupted ∨ e = .notFound record.id))

theorem JobRecord.Withdrawn.of_stopping {record : JobRecord} {stopping stopping' : Bool}
    {result : Except StoreError JobRecord} (h : record.Withdrawn stopping result)
    (hStopping : stopping = true → stopping' = true) : record.Withdrawn stopping' result := by
  cases result with
  | ok after => exact h
  | error e => exact h.imp_right fun hStops => ⟨hStopping hStops.1, hStops.2⟩

/-- An attempt that may be repeated is not if it was told to stop. -/
theorem Worker.verdict_of_stopped {record : JobRecord} {canceled : Bool}
    (h : record.cancelRequested = true ∨ canceled = true) (message : String) :
    verdict record canceled (.error (.failed message true)) =
      Transition.cancel.withNote message := by
  have hStop : (canceled || record.cancelRequested) = true := by
    rw [Bool.or_eq_true]
    exact h.symm
  simp only [verdict, hStop, if_true]

namespace System

variable {s u : System δ} {e : Event} {ids : List JobId} {log : List Deed} {i : Nat}
  {record : JobRecord}

/-- The worker has failed in its attempt, and since it was told to stop it is about to have the
attempt end as canceled. -/
def Yields (s : System δ) (i : Nat) (record : JobRecord) : Prop :=
  (∃ token message,
      s.threads[i]? = some (.worker (.judging record token (.error (.failed message true)))) ∧
        (record.cancelRequested = true ∨ s.realm.tokens.isRaised token = true)) ∨
    ∃ message,
      s.threads[i]? = some (.worker (.recording record (Transition.cancel.withNote message)))

theorem Yields.step (h : s.Yields i record) (hOwned : Owned s ids log) (hAttended : s.Attended)
    (hStep : s.step e = some u) :
    ((s.deeds e).find? (·.worker = i) = none ∧ u.Yields i record) ∨
      ∃ result, (s.deeds e).find? (·.worker = i) = some (.settled i record result) ∧
        record.Withdrawn u.realm.stopping result := by
  by_cases hOwn : ∃ cue, e = .advance i cue
  · obtain ⟨cue, rfl⟩ := hOwn
    obtain ⟨th, r', th', crew, hAt, hThread, rfl⟩ := step_advance hStep
    rcases h with ⟨token, message, hJudging, hStop⟩ | ⟨message, hRecording⟩
    · rw [hJudging] at hAt
      cases hAt
      obtain ⟨w', hWorker, rfl, rfl⟩ := Thread.step_worker hThread
      cases hWorker
      rw [Worker.verdict_of_stopped hStop message]
      refine .inl ⟨by simp only [deeds, hJudging, List.find?_nil], .inr ⟨message, ?_⟩⟩
      exact thread_of_advance_self hJudging
    · refine .inr ⟨(s.realm.transition cue record.id .running
        (Transition.cancel.withNote message)).1, ?_, ?_⟩
      · simp [deeds, hRecording, Deed.worker]
      · have hTarget : (Transition.cancel.withNote message).target ≠ .running := by rintro ⟨⟩
        have hBusy : s.Busy i (.recording record (Transition.cancel.withNote message)) record :=
          ⟨hRecording, rfl⟩
        rcases outcome_of_attended hAttended hOwned hTarget hBusy cue with
          ⟨after, hOk, hState, hConcludes⟩ | ⟨text, hError⟩ | ⟨hStopping, hError⟩
        · rw [hOk]
          exact ⟨hState, hConcludes⟩
        · rw [hError]
          exact .inl ⟨text, rfl⟩
        · have hStopping' := stopping_of_step hStep hStopping
          rcases hError with hError | hError <;> rw [hError]
          · exact .inr ⟨hStopping', .inl rfl⟩
          · exact .inr ⟨hStopping', .inr rfl⟩
  · have hOther : ∀ cue, e ≠ .advance i cue := fun cue hEq => hOwn ⟨cue, hEq⟩
    refine .inl ⟨?_, ?_⟩
    · rw [List.find?_eq_none]
      intro d hd hWorker
      obtain ⟨cue, hEq⟩ := event_of_mem_deeds hd
      exact hOther cue (by simpa [of_decide_eq_true hWorker] using hEq)
    · rcases h with ⟨token, message, hAt, hStop⟩ | ⟨message, hAt⟩
      · exact .inl ⟨token, message, thread_of_step_of_ne hStep hAt hOther,
          hStop.imp_right (raised_of_step hStep)⟩
      · exact .inr ⟨message, thread_of_step_of_ne hStep hAt hOther⟩

variable {settings : RealmSettings} {registry : Registry δ} {store : Store}
  {before after : List Event}

/-- An attempt that failed after it was told to stop is not repeated: the next deed of its worker is
to withdraw it. -/
theorem withdrawal_of_yields (hBefore : (initial settings registry store).run before = some s)
    (hRun : s.run after = some u)
    (hIds : ((initial settings registry store).runIds (before ++ after)).Nodup)
    (h : s.Yields i record) {d : Deed}
    (hFirst : (s.trail deeds after).find? (·.worker = i) = some d) :
    ∃ result, d = .settled i record result ∧ record.Withdrawn u.realm.stopping result := by
  have key : ((s.trail deeds after).find? (·.worker = i) = none ∧ u.Yields i record) ∨
      ∃ result, (s.trail deeds after).find? (·.worker = i) = some (.settled i record result) ∧
        record.Withdrawn u.realm.stopping result := by
    refine run_induction (motive := fun after u =>
      ((initial settings registry store).runIds (before ++ after)).Nodup →
        ((s.trail deeds after).find? (·.worker = i) = none ∧ u.Yields i record) ∨
          ∃ result, (s.trail deeds after).find? (·.worker = i) = some (.settled i record result) ∧
            record.Withdrawn u.realm.stopping result) hRun ?_ ?_ hIds
    · intro _
      exact .inl ⟨rfl, h⟩
    · intro mid t e v hMid hStep ih hIds
      have hUpTo : (initial settings registry store).run (before ++ mid) = some t := by
        rw [run_append_of_run hBefore, hMid]
      rw [← List.append_assoc, runIds_concat hUpTo] at hIds
      have hIds' := (List.nodup_append.mp hIds).1
      rw [trail_concat hMid, List.find?_append]
      rcases ih hIds' with ⟨hNone, hYields⟩ | ⟨result, hSome, hWithdrawn⟩
      · rw [hNone, Option.none_or]
        exact hYields.step (owned_of_run hUpTo hIds') (attended_of_run hUpTo hIds') hStep
      · rw [hSome, Option.some_or]
        exact .inr ⟨result, rfl, hWithdrawn.of_stopping (stopping_of_step hStep)⟩
  rcases key with ⟨hNone, -⟩ | ⟨result, hSome, hWithdrawn⟩
  · rw [hNone] at hFirst
    cases hFirst
  · rw [hSome] at hFirst
    cases hFirst
    exact ⟨result, rfl, hWithdrawn⟩

end System

-- ---------------------------------------------------------------------------
-- The answer
-- ---------------------------------------------------------------------------

/-- What a cancellation may make of the store on its way to an answer that is not of its own
making: nothing, or a mark on the run while it is active. -/
def Store.MarkedAtMost (id : JobId) (s s' : Store) : Prop :=
  s' = s ∨ ∃ x ∈ s.records, x.id = id ∧ x.isActive = true ∧
    ∃ now, s' = s.modify id (Store.marked · now)

theorem Store.markedAtMost_of_requestCancel_ok {id : JobId} {s s' : Store} {now : Instant}
    {after : JobRecord} (h : s.requestCancel id now = .ok (after, s')) : s.MarkedAtMost id s' := by
  obtain ⟨x, hx, hId, -, rfl⟩ := requestCancel_ok h
  cases hActive : x.isActive with
  | true => exact .inr ⟨x, hx, hId, hActive, now, rfl⟩
  | false =>
    -- a record that is over is left as it was
    have hSame : (s.modify id (marked · now)).records = s.records := by
      refine (List.map_congr_left fun y hy => ?_).trans s.records.map_id
      split
      · next hyId =>
        obtain rfl := eq_of_mem_of_id_eq hy hx (hyId.trans hId.symm)
        simp [marked, hActive]
      · rfl
    exact .inl (eq_of_records_eq hSame)

/-- May a cancellation of the run answer with this record? It is canceled; or it is over and
`modest` holds of what the cancellation did; or it goes on with the mark. -/
def JobRecord.Answers (record : JobRecord) (id : JobId) (modest : Prop) : Prop :=
  record.id = id ∧
    (record.state = .canceled ∨ (record.isTerminal = true ∧ modest) ∨
      (record.state = .running ∧ record.cancelRequested = true))

theorem JobRecord.Answers.imp {record : JobRecord} {id : JobId} {modest modest' : Prop}
    (h : record.Answers id modest) (hModest : modest → modest') : record.Answers id modest' :=
  ⟨h.1, h.2.imp_right fun hOver => hOver.imp_left fun hOver => ⟨hOver.1, hModest hOver.2⟩⟩

namespace Cancellation

/-- What holds at the points of a cancellation of the run, if `modest` holds of what it has done so
far. -/
def Keeps (id : JobId) (modest : Prop) : Cancellation → Prop
  | .looking asked | .revoking asked | .marking asked => asked = id ∧ modest
  | .unqueueing record | .finishing record => record.id = id ∧ record.state = .canceled
  | .signalling record => record.Answers id modest

/-- The same of what a cancellation comes to with a step. -/
def LeadsTo (id : JobId) (modest : Prop) :
    Progress Cancellation (Except JobError JobRecord) → Prop
  | .at point => point.Keeps id modest
  | .done result => ∀ record, result = .ok record → record.Answers id modest

variable {cue : Cue} {r r' : Realm δ} {id : JobId} {modest : Prop}
  {p : Progress Cancellation (Except JobError JobRecord)}

theorem leadsTo_error (e : JobError) : LeadsTo id modest (.done (.error e)) := by
  intro record hOk
  cases hOk

/-- A cancellation that marks the run has changed nothing else, and goes on to signal it unless the
run waits. -/
theorem leadsTo_of_marking (hModest : modest) (h : step cue r (.marking id) = (r', p)) :
    LeadsTo id (modest ∧ r.store.MarkedAtMost id r'.store) p := by
  simp only [step] at h
  split at h
  · next after r₁ hTold =>
    cases h
    obtain ⟨-, store, hStore, rfl⟩ := (Realm.tell_eq_ok _ _).mp hTold
    have hMarked := Store.markedAtMost_of_requestCancel_ok hStore
    obtain ⟨x, -, hId, hAfter, -⟩ := Store.requestCancel_ok hStore
    split
    · exact ⟨rfl, hModest, hMarked⟩
    · next hNotQueued =>
      have hMark : after.cancelRequested = (x.cancelRequested || x.isActive) := by
        rw [hAfter, Store.marked_eq]
      have hState : after.state = x.state := by rw [hAfter, Store.marked_eq]
      refine ⟨by rw [hAfter, Store.marked_id, hId], .inr ?_⟩
      by_cases hRunning : after.state = .running
      · refine .inr ⟨hRunning, ?_⟩
        rw [hMark, JobRecord.isActive, ← hState, hRunning]
        exact Bool.or_true _
      · exact .inl ⟨JobState.isTerminal_iff.mpr ⟨hNotQueued, hRunning⟩, hModest, hMarked⟩
  · cases h
    exact leadsTo_error _

/-- A cancellation that goes on has done nothing but mark the run, unless it has canceled it. -/
theorem leadsTo_of_step {point : Cancellation} (hPoint : point.Keeps id modest)
    (h : point.step cue r = (r', p)) :
    LeadsTo id (modest ∧ r.store.MarkedAtMost id r'.store) p := by
  have hStays : r.store.MarkedAtMost id r.store := .inl rfl
  cases point with
  | looking asked =>
    obtain ⟨rfl, hModest⟩ := hPoint
    simp only [step] at h
    split at h
    · cases h
      exact leadsTo_error _
    · next record hFind =>
      split at h <;> cases h
      · exact ⟨rfl, hModest, hStays⟩
      · exact ⟨rfl, hModest, hStays⟩
      · next hNotQueued hNotRunning =>
        rintro _ ⟨⟩
        have hOver : record.isTerminal = true :=
          JobState.isTerminal_iff.mpr ⟨hNotQueued, hNotRunning⟩
        exact ⟨(Realm.find_eq_ok _ _ hFind).2, .inr (.inl ⟨hOver, hModest, hStays⟩)⟩
  | revoking asked =>
    obtain ⟨rfl, hModest⟩ := hPoint
    simp only [step] at h
    split at h
    · next record r₁ hTold =>
      cases h
      obtain ⟨x, -, hId, -, -, rfl, -⟩ := Realm.transition_eq_ok _ _ hTold
      exact ⟨hId, rfl⟩
    · next hTold =>
      cases h
      -- a change of state that fails leaves the store as it was
      cases Realm.tell_eq_error _ _ hTold
      exact ⟨rfl, hModest, hStays⟩
    · cases h
      exact leadsTo_error _
  | unqueueing record =>
    cases h
    exact hPoint
  | finishing record =>
    cases h
    rintro _ ⟨⟩
    exact ⟨hPoint.1, .inl hPoint.2⟩
  | marking asked =>
    obtain ⟨rfl, hModest⟩ := hPoint
    exact leadsTo_of_marking hModest h
  | signalling record =>
    cases h
    rintro _ ⟨⟩
    exact hPoint.imp fun hModest => ⟨hModest, hStays⟩

end Cancellation

/-- What holds of a thread from the moment at which it is asked to cancel the run. -/
def Thread.Cancels (id : JobId) (modest : Prop) : Thread δ → Prop
  | .caller (.made call) => call = .cancel id ∧ modest
  | .caller (.canceling point) => point.Keeps id modest
  | .answered (.ok reply) => ∃ record, reply = .record record ∧ record.Answers id modest
  | .answered (.error _) => True
  | _ => False

theorem Thread.cancels_step {cue : Cue} {r r' : Realm δ} {th th' : Thread δ}
    {crew : List (Thread δ)} {id : JobId} {modest : Prop} (h : th.Cancels id modest)
    (hStep : th.step cue r = some (r', th', crew)) :
    th'.Cancels id (modest ∧ r.store.MarkedAtMost id r'.store) := by
  cases th with
  | worker w => exact h.elim
  | timer t => exact h.elim
  | answered answer => cases hStep
  | caller callPoint =>
    cases callPoint with
    | made call =>
      obtain ⟨rfl, hModest⟩ := h
      cases hStep
      exact ⟨rfl, hModest, .inl rfl⟩
    | canceling point =>
      rcases step_lifted (x := some (point.step cue r)) rfl hStep with
        ⟨next, hPoint, rfl, -⟩ | ⟨result, hPoint, rfl, -⟩
      · exact Cancellation.leadsTo_of_step h (Option.some.inj hPoint)
      · have hAnswers := Cancellation.leadsTo_of_step h (Option.some.inj hPoint)
        cases result with
        | error e => trivial
        | ok record => exact ⟨record, rfl, hAnswers record rfl⟩
    | admitting | starting | stopping | scheduling | declaring => exact h.elim

namespace System

/-- What the steps of a thread make of the store: the store before and after each of them. -/
def changesBy (i : Nat) (s : System δ) : Event → List (Store × Store)
  | .advance j cue =>
    if j = i then
      (s.step (.advance j cue)).elim [] fun u => [(s.realm.store, u.realm.store)]
    else []
  | _ => []

variable {s t u : System δ} {e : Event} {i : Nat} {cue : Cue}

theorem changesBy_self (h : s.step (.advance i cue) = some u) :
    s.changesBy i (.advance i cue) = [(s.realm.store, u.realm.store)] := by
  simp [changesBy, h]

theorem changesBy_of_ne (h : ∀ cue, e ≠ .advance i cue) : s.changesBy i e = [] := by
  cases e with
  | call call => rfl
  | sweep cutoff => rfl
  | advance j cue =>
    have hji : j ≠ i := fun hEq => h cue (by rw [hEq])
    simp [changesBy, hji]

/-- A cancellation that is answered was answered as it may be. -/
theorem answers_of_cancel {after : List Event} {id : JobId} {reply : Reply}
    (hRun : s.run (.call (.cancel id) :: after) = some u)
    (hAnswer : u.threads[s.threads.length]? = some (.answered (.ok reply))) :
    ∃ record, reply = .record record ∧
      record.Answers id (∀ p ∈ s.trail (changesBy s.threads.length) (.call (.cancel id) :: after),
        Store.MarkedAtMost id p.1 p.2) := by
  obtain ⟨t, hCall, hRest⟩ := Option.bind_eq_some_iff.mp hRun
  have hTrail : s.trail (changesBy s.threads.length) (.call (.cancel id) :: after) =
      t.trail (changesBy s.threads.length) after := by
    simp only [trail, hCall, Option.elim_some]
    rfl
  have key : ∃ th, u.threads[s.threads.length]? = some th ∧
      th.Cancels id (∀ p ∈ t.trail (changesBy s.threads.length) after,
        Store.MarkedAtMost id p.1 p.2) := by
    refine run_induction (motive := fun after u => ∃ th, u.threads[s.threads.length]? = some th ∧
      th.Cancels id (∀ p ∈ t.trail (changesBy s.threads.length) after,
        Store.MarkedAtMost id p.1 p.2)) hRest ?_ ?_
    · cases hCall
      exact ⟨_, List.getElem?_concat_length, rfl, fun _ hp => absurd hp List.not_mem_nil⟩
    · rintro before v e w hBefore hStep ⟨th, hAt, hCancels⟩
      rw [trail_concat hBefore]
      by_cases hOwn : ∃ cue, e = .advance s.threads.length cue
      · obtain ⟨cue, rfl⟩ := hOwn
        rw [changesBy_self hStep]
        obtain ⟨th₁, r', th', crew, hAt₁, hThread, rfl⟩ := step_advance hStep
        rw [hAt] at hAt₁
        cases hAt₁
        rw [List.forall_mem_append, List.forall_mem_singleton]
        exact ⟨th', thread_of_advance_self hAt, Thread.cancels_step hCancels hThread⟩
      · have hOther : ∀ cue, e ≠ .advance s.threads.length cue := fun cue hEq => hOwn ⟨cue, hEq⟩
        rw [changesBy_of_ne hOther, List.append_nil]
        exact ⟨th, thread_of_step_of_ne hStep hAt hOther, hCancels⟩
  obtain ⟨th, hAt, hCancels⟩ := key
  rw [hAt] at hAnswer
  cases hAnswer
  rw [hTrail]
  exact hCancels

end System

-- ---------------------------------------------------------------------------
-- All together
-- ---------------------------------------------------------------------------

namespace System

variable {s u : System δ} {settings : RealmSettings} {registry : Registry δ} {store : Store}
  {before after : List Event}

/-- However the threads of a realm interleave, no cancellation is lost to a retry. A marked run is
claimed at most once more, and by a worker that finds the mark; no definition is called for an
attempt that began with the mark before the token of the attempt is raised; an attempt that fails
after it was told to stop is not repeated but withdrawn; and a cancellation answers with a record
that it canceled, that goes on with the mark, or that has ended on its own, in which case all that
it did was to mark the run while it was active. -/
theorem cancellations_of_run (hBefore : (initial settings registry store).run before = some s)
    (hAfter : s.run after = some u)
    (hIds : ((initial settings registry store).runIds (before ++ after)).Nodup) :
    (∀ x ∈ s.realm.store.records, x.cancelRequested = true →
        (Deed.claims (s.trail deeds after) x.id).length ≤ 1 ∧
          (∀ record ∈ Deed.claims (s.trail deeds after) x.id, record.cancelRequested = true) ∧
          ∀ y ∈ u.realm.store.records, y.id = x.id →
            y.cancelRequested = true ∧ y.attempts ≤ x.attempts + 1) ∧
      (∀ (i : Nat) record token definition,
        u.threads[i]? = some (.worker (.executing record token definition)) →
          record.cancelRequested = true → u.realm.tokens.isRaised token = true) ∧
      (∀ (i : Nat) record token message,
        s.threads[i]? = some (.worker (.judging record token (.error (.failed message true)))) →
          record.cancelRequested = true ∨ s.realm.tokens.isRaised token = true →
            ∀ d, (s.trail deeds after).find? (·.worker = i) = some d →
              ∃ result, d = .settled i record result ∧
                record.Withdrawn u.realm.stopping result) ∧
      ∀ id rest reply, after = .call (.cancel id) :: rest →
        u.threads[s.threads.length]? = some (.answered (.ok reply)) →
          ∃ record, reply = .record record ∧
            record.Answers id (∀ p ∈ s.trail (changesBy s.threads.length) after,
              Store.MarkedAtMost id p.1 p.2) := by
  have hRun : (initial settings registry store).run (before ++ after) = some u := by
    rw [run_append_of_run hBefore, hAfter]
  refine ⟨?_, ?_, ?_, ?_⟩
  · intro x hx hMark
    have hMarked : s.Marked x.id x.attempts := by
      intro y hy hId
      obtain rfl := Store.eq_of_mem_of_id_eq hy hx hId
      exact ⟨hMark, rfl⟩
    have hId : x.id ∈ (initial settings registry store).runIds before := by
      have hIds' := hIds
      rw [runIds_append hBefore] at hIds'
      exact (owned_of_run hBefore (List.nodup_append.mp hIds').1).stored x hx
    rcases claims_of_marked hBefore hAfter hIds hMarked hId with
      ⟨hNone, hMarked⟩ | ⟨record, hOne, hKnown, hSpent⟩
    · rw [hNone]
      refine ⟨Nat.zero_le 1, fun _ hClaimed => absurd hClaimed List.not_mem_nil,
        fun y hy hyId => ?_⟩
      obtain ⟨hMark, hAttempts⟩ := hMarked y hy hyId
      exact ⟨hMark, by omega⟩
    · rw [hOne]
      refine ⟨Nat.le_refl 1, fun claimed hClaimed => ?_, fun y hy hyId => ?_⟩
      · rw [List.mem_singleton.mp hClaimed]
        exact hKnown
      · obtain ⟨hMark, hAttempts⟩ := hSpent.marked y hy hyId
        exact ⟨hMark, by omega⟩
  · intro i record token definition hAt
    exact signalled_of_run hRun i _ hAt _ rfl
  · intro i record token message hAt hStop d hFirst
    exact withdrawal_of_yields hBefore hAfter hIds (.inl ⟨token, message, hAt, hStop⟩) hFirst
  · rintro id rest reply rfl hAnswer
    exact answers_of_cancel hAfter hAnswer

/-- A cancellation that a retry and another worker outrun, after the first attempt of a run that was
queued twice has failed. It finds the run going on, and marks it when it has just been put back; but
before it can cancel the run, another worker has claimed and finished it. -/
def outrun : List Event :=
  let advance (i n : Nat) : Event := .advance i { now := ⟨n, 0⟩, fresh := default }
  [.call (.cancel ⟨⟨3⟩⟩), advance 5 31, advance 5 32, advance 2 33, advance 2 34, advance 5 35,
    advance 5 36, advance 3 37, advance 3 38, advance 3 39, advance 3 40, advance 3 41,
    advance 5 42, advance 5 43]

/-- The state of the record that a thread was answered with, and whether it was marked. -/
def answeredWith (s : System Unit) (i : Nat) : Option (JobState × Bool) :=
  match s.threads[i]? with
  | some (.answered (.ok (.record record))) => some (record.state, record.cancelRequested)
  | _ => none

theorem cancellations_of_run_outrun :
    ∃ s u : System Unit,
      (initial { workers := 2 } ⟨Dict.empty.insert "job" ()⟩ Store.empty).run
          (queuedTwice.take 24) = some s ∧
        s.run outrun = some u ∧ u.answeredWith s.threads.length = some (.finished, true) ∧
          ∀ reply, u.threads[s.threads.length]? = some (.answered (.ok reply)) →
            ∃ record, reply = .record record ∧ record.Answers ⟨⟨3⟩⟩
              (∀ p ∈ s.trail (changesBy s.threads.length) outrun,
                Store.MarkedAtMost ⟨⟨3⟩⟩ p.1 p.2) := by
  have hBegin : ((initial { workers := 2 } ⟨Dict.empty.insert "job" ()⟩ Store.empty).run
      (queuedTwice.take 24)).map (·.threads.length) = some 5 := by
    decide +kernel
  have hEnd : ((initial { workers := 2 } ⟨Dict.empty.insert "job" ()⟩ Store.empty).run
      (queuedTwice.take 24 ++ outrun)).map (·.answeredWith 5) = some (some (.finished, true)) := by
    decide +kernel
  have hIds : ((initial { workers := 2 } ⟨Dict.empty.insert "job" ()⟩ Store.empty).runIds
      (queuedTwice.take 24 ++ outrun)).Nodup := by
    decide +kernel
  obtain ⟨s, hBefore, hLength⟩ := Option.map_eq_some_iff.mp hBegin
  rw [run_append_of_run hBefore] at hEnd
  obtain ⟨u, hAfter, hAnswered⟩ := Option.map_eq_some_iff.mp hEnd
  refine ⟨s, u, hBefore, hAfter, by rw [hLength, hAnswered], fun reply hReply => ?_⟩
  exact (cancellations_of_run hBefore hAfter hIds).2.2.2 _ _ reply rfl hReply

/-- The first attempt of the run fails after a cancellation has marked it and raised its token. -/
def toldToStop : List Event :=
  let advance (i n : Nat) : Event := .advance i { now := ⟨n, 0⟩, fresh := default }
  let fail (i n : Nat) : Event :=
    .advance i { now := ⟨n, 0⟩, fresh := default, outcome := .error (.failed "once more" true) }
  queuedTwice.take 15 ++
    [advance 2 14, advance 2 15, advance 2 16, advance 2 17, advance 2 18,
      .call (.cancel ⟨⟨3⟩⟩), advance 5 19, advance 5 20, advance 5 21, advance 5 22, fail 2 23]

/-- The store is in trouble when the outcome of the attempt is recorded. -/
def unrecorded : List Event :=
  [.advance 2 { now := ⟨24, 0⟩, fresh := default },
    .advance 2 { now := ⟨25, 0⟩, fresh := default, fault := some "no store" }]

/-- Has the worker failed, in an attempt that may be repeated, after its token was raised? -/
def failsStopped (s : System Unit) (i : Nat) : Bool :=
  match s.threads[i]? with
  | some (.worker (.judging _ token (.error (.failed _ true)))) => s.realm.tokens.isRaised token
  | _ => false

/-- A cancellation may answer with a record that has ended otherwise but has its mark, and an
attempt that was told to stop is not canceled if the store is in trouble. -/
theorem cancellation_outrun_and_unrecorded :
    (∃ (s u : System Unit) (record : JobRecord),
      (initial { workers := 2 } ⟨Dict.empty.insert "job" ()⟩ Store.empty).run
          (queuedTwice.take 24) = some s ∧
        s.run outrun = some u ∧
          u.threads[s.threads.length]? = some (.answered (.ok (.record record))) ∧
            ¬ record.Answers ⟨⟨3⟩⟩
              (∀ p ∈ s.trail (changesBy s.threads.length) outrun, p.2 = p.1)) ∧
      ∃ s u : System Unit,
        (initial { workers := 2 } ⟨Dict.empty.insert "job" ()⟩ Store.empty).run toldToStop =
            some s ∧
          s.failsStopped 2 = true ∧ s.run unrecorded = some u ∧
            (s.trail deeds unrecorded).map Deed.worker = [2] ∧ u.realm.stopping = false ∧
              u.realm.store.records.map (·.state) = [.running] := by
  refine ⟨?_, ?_⟩
  · have hBegin : ((initial { workers := 2 } ⟨Dict.empty.insert "job" ()⟩ Store.empty).run
        (queuedTwice.take 24)).map (fun s => (s.threads.length,
          (s.trail (changesBy 5) outrun).any fun p =>
            p.2.records.map (·.cancelRequested) ≠ p.1.records.map (·.cancelRequested))) =
        some (5, true) := by
      decide +kernel
    have hEnd : ((initial { workers := 2 } ⟨Dict.empty.insert "job" ()⟩ Store.empty).run
        (queuedTwice.take 24 ++ outrun)).map (·.answeredWith 5) =
        some (some (.finished, true)) := by
      decide +kernel
    obtain ⟨s, hBefore, hChanges⟩ := Option.map_eq_some_iff.mp hBegin
    rw [run_append_of_run hBefore] at hEnd
    obtain ⟨u, hAfter, hAnswered⟩ := Option.map_eq_some_iff.mp hEnd
    obtain ⟨hLength, hMarked⟩ := Prod.mk.inj hChanges
    unfold answeredWith at hAnswered
    split at hAnswered
    · next record hAt =>
      obtain ⟨hState, -⟩ := Prod.mk.inj (Option.some.inj hAnswered)
      refine ⟨s, u, record, hBefore, hAfter, by rw [hLength, hAt], ?_⟩
      rintro ⟨-, hCanceled | ⟨-, hUnchanged⟩ | ⟨hRunning, -⟩⟩
      · rw [hState] at hCanceled
        cases hCanceled
      · -- one of the steps of the cancellation has marked the run
        obtain ⟨p, hp, hDiffer⟩ := List.any_eq_true.mp hMarked
        rw [hLength] at hUnchanged
        rw [hUnchanged p hp] at hDiffer
        simp at hDiffer
      · rw [hState] at hRunning
        cases hRunning
    · cases hAnswered
  · have hBegin : ((initial { workers := 2 } ⟨Dict.empty.insert "job" ()⟩ Store.empty).run
        toldToStop).map (fun s => (s.failsStopped 2, (s.trail deeds unrecorded).map Deed.worker)) =
        some (true, [2]) := by
      decide +kernel
    have hEnd : ((initial { workers := 2 } ⟨Dict.empty.insert "job" ()⟩ Store.empty).run
        (toldToStop ++ unrecorded)).map (fun u =>
          (u.realm.stopping, u.realm.store.records.map (·.state))) = some (false, [.running]) := by
      decide +kernel
    obtain ⟨s, hBefore, hFails⟩ := Option.map_eq_some_iff.mp hBegin
    rw [run_append_of_run hBefore] at hEnd
    obtain ⟨u, hAfter, hState⟩ := Option.map_eq_some_iff.mp hEnd
    obtain ⟨hStopped, hDeeds⟩ := Prod.mk.inj hFails
    obtain ⟨hStopping, hRunning⟩ := Prod.mk.inj hState
    exact ⟨s, u, hBefore, hStopped, hAfter, hDeeds, hStopping, hRunning⟩

end System

end BackgroundJobs
