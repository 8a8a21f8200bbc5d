import BackgroundJobs.Proofs.Realm.Admissions

/-!
# Proofs — what workers do to the records

A worker claims a run, goes through an attempt with it, and records how the
attempt ended. Everything else that happens to a record leaves it as it is but
for its mark, or ends the run. So a step is one of four moves: a worker claims a
run, goes on within its attempt, or settles it, or the step is quiet, which
leaves every attempt alone.

Main results:

* `System.deeds`          — the observer of claims and of recorded outcomes.
* `Worker.goes_of_step`   — where a step takes a worker.
* `move_of_step`          — every step is one of the four moves.
-/

namespace BackgroundJobs

-- ---------------------------------------------------------------------------
-- Quiet operations
-- ---------------------------------------------------------------------------

/-- What may become of a record without any worker claiming it or putting it back: it is marked or
ended, but no attempt of it begins and none is repeated. -/
structure JobRecord.Follows (x x' : JobRecord) : Prop where
  sameRun : x.SameRun x'
  attempts : x'.attempts = x.attempts
  cancelRequested : x.cancelRequested = true → x'.cancelRequested = true
  active : x'.isActive = true →
    x' = { x with cancelRequested := x'.cancelRequested, updatedAt := x'.updatedAt }
  terminal : x.isActive = false → x' = x

namespace JobRecord.Follows

variable {x x' x'' : JobRecord}

theorem refl (x : JobRecord) : x.Follows x :=
  ⟨.refl x, rfl, fun h => h, fun _ => rfl, fun _ => rfl⟩

theorem state_eq (h : x.Follows x') (hActive : x'.isActive = true) : x'.state = x.state := by
  rw [h.active hActive]

/-- A run that waits was waiting before. -/
theorem queued (h : x.Follows x') (hQueued : x'.state = .queued) : x.state = .queued :=
  (h.state_eq (isActive_of_queued hQueued)).symm.trans hQueued

theorem trans (h : x.Follows x') (h' : x'.Follows x'') : x.Follows x'' where
  sameRun := h.sameRun.trans h'.sameRun
  attempts := h'.attempts.trans h.attempts
  cancelRequested hMark := h'.cancelRequested (h.cancelRequested hMark)
  active hActive := by
    have hActive' : x'.isActive = true := by
      rw [isActive, ← h'.state_eq hActive]
      exact hActive
    rw [h'.active hActive, h.active hActive']
  terminal hOver := by
    have hSame := h.terminal hOver
    rw [h'.terminal (by rw [hSame]; exact hOver), hSame]

theorem apply {t : Transition} (ht : t.target.isTerminal = true) {x : JobRecord}
    (hActive : x.isActive = true) (now : Instant) : x.Follows (t.apply x now) where
  sameRun := sameRun_apply t x now
  attempts := by simp [Transition.apply, (JobState.isTerminal_iff.mp ht).2]
  cancelRequested hMark := hMark
  active hActive := by
    have hTarget : t.target.isActive = true := hActive
    rw [JobState.isTerminal, hTarget] at ht
    cases ht
  terminal hOver := by
    rw [hActive] at hOver
    cases hOver

theorem marked (x : JobRecord) (now : Instant) : x.Follows (Store.marked x now) := by
  refine ⟨sameRun_marked x now, ?_, ?_, ?_, ?_⟩ <;> rw [Store.marked_eq]
  · intro hMark
    simp [hMark]
  · intro _
    rfl
  · intro hOver
    simp [hOver]

end JobRecord.Follows

namespace Store

/-- An operation that neither begins an attempt nor has one repeated. -/
def Op.Quiet : Op → Prop
  | .transition _ _ t => t.target.isTerminal = true
  | _ => True

theorem follows_of_quiet {s : Store} {now : Instant} {op : Op} (hQuiet : op.Quiet)
    {x' : JobRecord} (h : x' ∈ (s.perform now op).records) :
    (∃ x ∈ s.records, x.Follows x') ∨ (op = .create x' ∧ x'.id ∉ s.ids) := by
  cases origin_of_mem_perform h with
  | kept hx => exact .inl ⟨x', hx, .refl x'⟩
  | created hOp hNew => exact .inr ⟨hOp, hNew⟩
  | moved x t hx hOp hEdge hEq =>
    subst hOp
    exact .inl ⟨x, hx, hEq ▸ .apply hQuiet (JobState.isActive_of_canBecome hEdge) now⟩
  | marked x hx _ hEq => exact .inl ⟨x, hx, hEq ▸ .marked x now⟩

end Store

variable {δ : Type}

/-- Only workers begin attempts and have them repeated. -/
theorem Thread.quiet_of_op? {cue : Cue} {r : Realm δ} {th : Thread δ} {op : Store.Op}
    (hWorker : ∀ w, th ≠ .worker w) (h : th.op? cue r = some op) : op.Quiet := by
  have hPoint : ∀ {point : AdmissionPoint}, point.op? = some op → op.Quiet := by
    intro point hOp
    cases point <;> cases hOp
    trivial
  cases th with
  | worker w => exact absurd rfl (hWorker w)
  | timer t => cases t <;> first | exact hPoint h | cases h
  | answered answer => cases h
  | caller callPoint =>
    cases callPoint with
    | made call =>
      cases call with
      | purge =>
        obtain ⟨cutoff, -, rfl⟩ := Option.map_eq_some_iff.mp h
        trivial
      | delete ids =>
        cases h
        trivial
      | _ => cases h
    | admitting a point => exact hPoint h
    | starting point =>
      cases point with
      | recovering rest =>
        cases rest with
        | nil => cases h
        | cons record rest =>
          simp only [op?, CallPoint.op?, Startup.op?] at h
          split at h <;> cases h
          rfl
      | _ => cases h
    | stopping point =>
      cases point <;> cases h
      rfl
    | canceling point =>
      cases point <;> cases h
      · rfl
      · trivial
    | scheduling point => cases h
    | declaring point => cases h

-- ---------------------------------------------------------------------------
-- Where workers go
-- ---------------------------------------------------------------------------

/-- Where a step takes a worker, from what the realm is before it. -/
inductive Worker.Goes (r : Realm δ) : Worker δ → Worker δ → Prop
  | rests : Goes r .idle .retired
  | takes (id : JobId) : Goes r .idle (.taken id)
  | halts (id : JobId) (stopping : r.stopping = true) : Goes r (.taken id) .retired
  | enters (id : JobId) (goesOn : r.stopping = false) : Goes r (.taken id) (.entering id)
  | comes (id : JobId) : Goes r (.entering id) (.claiming id r.tokens.issue.1)
  | claims (record : JobRecord) (token : Token) :
    Goes r (.claiming record.id token) (.claimed record token)
  | drops (id : JobId) (token : Token) : Goes r (.claiming id token) (.leaving id)
  | calls (record : JobRecord) (token : Token) (definition : δ) :
    Goes r (.claimed record token) (.executing record token definition)
  | misses (record : JobRecord) (token : Token) (chain : String) :
    Goes r (.claimed record token) (.recording record (.fail (.defect chain)))
  | returns (record : JobRecord) (token : Token) (definition : δ) (outcome : Outcome) :
    Goes r (.executing record token definition) (.judging record token outcome)
  | judges (record : JobRecord) (token : Token) (outcome : Outcome) :
    Goes r (.judging record token outcome)
      (.recording record (verdict record (r.tokens.isRaised token) outcome))
  /-- The outcome is recorded, or cannot be. The worker is then in no attempt any more. -/
  | settles (record : JobRecord) (t : Transition) (w : Worker δ)
    (next : (∃ updated, w = .withdrawing updated ∨ w = .requeueing updated ∨
      w = .finishing updated) ∨ w = .leaving record.id) : Goes r (.recording record t) w
  | withdraws (record canceled : JobRecord) : Goes r (.withdrawing record) (.finishing canceled)
  | yields (record : JobRecord) : Goes r (.withdrawing record) (.leaving record.id)
  | requeues (record : JobRecord) : Goes r (.requeueing record) (.leaving record.id)
  | finishes (record : JobRecord) : Goes r (.finishing record) (.leaving record.id)
  | leaves (id : JobId) : Goes r (.leaving id) .idle

theorem Worker.goes_of_step {cue : Cue} {r r' : Realm δ} {w w' : Worker δ}
    (h : w.step cue r = some (r', w')) : w.Goes r w' := by
  cases w with
  | idle =>
    simp only [step] at h
    split at h
    · cases h
      exact .rests
    · obtain ⟨⟨id, queue⟩, -, hEq⟩ := Option.map_eq_some_iff.mp h
      cases hEq
      exact .takes id
  | taken id =>
    cases h
    split
    · next hStopping => exact .halts id hStopping
    · next hGoesOn => exact .enters id (by simpa using hGoesOn)
  | entering id =>
    cases h
    exact .comes id
  | claiming id token =>
    simp only [step] at h
    split at h <;> cases h
    · next hTold =>
      obtain ⟨x, -, rfl, -, -, rfl, -⟩ := Realm.transition_eq_ok _ _ hTold
      exact .claims (Transition.start.apply x cue.now) token
    · exact .drops id token
  | claimed record token =>
    simp only [step] at h
    split at h <;> cases h
    · exact .calls record token _
    · exact .misses record token _
  | executing record token definition =>
    cases h
    exact .returns record token definition cue.outcome
  | judging record token outcome =>
    cases h
    exact .judges record token outcome
  | recording record t =>
    refine .settles record t w' ?_
    simp only [step] at h
    split at h <;> cases h
    · next updated _ =>
      refine .inl ⟨updated, ?_⟩
      split
      · split
        · exact .inl rfl
        · exact .inr (.inl rfl)
      · exact .inr (.inr rfl)
    · exact .inr rfl
  | withdrawing record =>
    simp only [step] at h
    split at h <;> cases h
    · exact .withdraws record _
    · exact .yields record
  | requeueing record =>
    cases h
    exact .requeues record
  | finishing record =>
    cases h
    exact .finishes record
  | leaving id =>
    cases h
    exact .leaves id
  | retired => cases h

-- ---------------------------------------------------------------------------
-- Claims and outcomes
-- ---------------------------------------------------------------------------

/-- The record of the attempt that a worker is busy with, as the worker claimed it: from the claim
until the outcome is recorded. -/
def Worker.attempt? : Worker δ → Option JobRecord
  | .claimed record _ | .executing record _ _ | .judging record _ _ | .recording record _ =>
    some record
  | _ => none

/-- What a worker does to a record: it claims the run, and then has the outcome of its attempt
recorded, or fails to. Both name the record as it was claimed. -/
inductive Deed where
  | claimed (worker : Nat) (record : JobRecord)
  | settled (worker : Nat) (record : JobRecord) (result : Except StoreError JobRecord)

def Deed.jobId : Deed → JobId
  | claimed _ record | settled _ record _ => record.id

def Deed.worker : Deed → Nat
  | claimed i _ | settled i _ _ => i

/-- The deed that an event is, if it is one. -/
def System.deeds (s : System δ) : Event → List Deed
  | .advance i cue =>
    match s.threads[i]? with
    | some (.worker (.claiming id _)) =>
      match s.realm.transition cue id .queued .start with
      | (.ok record, _) => [.claimed i record]
      | (.error _, _) => []
    | some (.worker (.recording record t)) =>
      [.settled i record (s.realm.transition cue record.id .running t).1]
    | _ => []
  | _ => []

theorem System.event_of_mem_deeds {s : System δ} {e : Event} {d : Deed} (h : d ∈ s.deeds e) :
    ∃ cue, e = .advance d.worker cue := by
  unfold deeds at h
  split at h
  · next i cue =>
    split at h
    · split at h
      · cases List.mem_singleton.mp h
        exact ⟨cue, rfl⟩
      · cases h
    · cases List.mem_singleton.mp h
      exact ⟨cue, rfl⟩
    · cases h
  · cases h

-- ---------------------------------------------------------------------------
-- Moves
-- ---------------------------------------------------------------------------

/-- What a step can do to the attempts of a system. -/
inductive Move (s : System δ) (e : Event) (u : System δ) : Prop where
  /-- No attempt begins, goes on or is settled. -/
  | quiet
    (store : ∀ x' ∈ u.realm.store.records, (∃ x ∈ s.realm.store.records, x.Follows x') ∨
      ∃ a, (a, x') ∈ s.admissions e ∧ a.Made x')
    (workers : ∀ {i : Nat} {w record}, u.threads[i]? = some (.worker w) →
      w.attempt? = some record → s.threads[i]? = some (.worker w))
    (invocations : u.realm.invocations = s.realm.invocations)
    (deeds : s.deeds e = [])
  /-- A worker claims a run. -/
  | claim (i : Nat) (cue : Cue) (x : JobRecord) (token : Token)
    (event : e = .advance i cue)
    (before : s.threads[i]? = some (.worker (.claiming x.id token)))
    (threads : u.threads = s.threads.set i
      (.worker (.claimed (Transition.start.apply x cue.now) token)))
    (stored : x ∈ s.realm.store.records) (queued : x.state = .queued)
    (store : ∀ y, y ∈ u.realm.store.records ↔
      y = Transition.start.apply x cue.now ∨ (y ∈ s.realm.store.records ∧ y.id ≠ x.id))
    (invocations : u.realm.invocations = s.realm.invocations)
    (deeds : s.deeds e = [.claimed i (Transition.start.apply x cue.now)])
  /-- A worker goes on within its attempt. -/
  | goOn (i : Nat) (cue : Cue) (w w' : Worker δ) (record : JobRecord)
    (event : e = .advance i cue)
    (before : s.threads[i]? = some (.worker w))
    (threads : u.threads = s.threads.set i (.worker w'))
    (attempt : w.attempt? = some record) (attempt' : w'.attempt? = some record)
    (step : w.step cue s.realm = some (u.realm, w'))
    (store : u.realm.store = s.realm.store)
    (deeds : s.deeds e = [])
  /-- A worker has an outcome recorded, or fails to. -/
  | settle (i : Nat) (cue : Cue) (record : JobRecord) (t : Transition) (w' : Worker δ)
    (result : Except StoreError JobRecord)
    (event : e = .advance i cue)
    (before : s.threads[i]? = some (.worker (.recording record t)))
    (threads : u.threads = s.threads.set i (.worker w'))
    (attempt' : w'.attempt? = none)
    (store : (∃ e, result = .error e ∧ u.realm.store = s.realm.store) ∨
      ∃ x ∈ s.realm.store.records, x.id = record.id ∧ x.state = .running ∧ t.target ≠ .running ∧
        result = .ok (t.apply x cue.now) ∧
        ∀ y, y ∈ u.realm.store.records ↔
          y = t.apply x cue.now ∨ (y ∈ s.realm.store.records ∧ y.id ≠ record.id))
    (invocations : u.realm.invocations = s.realm.invocations)
    (deeds : s.deeds e = [.settled i record result])

/-- A worker that is in no attempt, and not about to claim one, is in none after its step either,
and has the store do nothing but end a run. -/
theorem Worker.quiet_step {cue : Cue} {r r' : Realm δ} {w w' : Worker δ}
    (hNone : w.attempt? = none) (hClaim : ∀ id token, w ≠ .claiming id token)
    (h : w.step cue r = some (r', w')) :
    w'.attempt? = none ∧ r'.invocations = r.invocations ∧ ∀ op, w.op? = some op → op.Quiet := by
  cases w with
  | claiming id token => exact absurd rfl (hClaim id token)
  | claimed | executing | judging | recording => cases hNone
  | idle =>
    simp only [step] at h
    split at h
    · cases h
      exact ⟨rfl, rfl, by rintro op ⟨⟩⟩
    · obtain ⟨⟨id, queue⟩, -, hEq⟩ := Option.map_eq_some_iff.mp h
      cases hEq
      exact ⟨rfl, rfl, by rintro op ⟨⟩⟩
  | taken id =>
    cases h
    refine ⟨?_, rfl, by rintro op ⟨⟩⟩
    split <;> rfl
  | withdrawing record =>
    have hOp : ∀ op, op? (withdrawing record : Worker δ) = some op → op.Quiet := by
      intro op hOp
      cases hOp
      rfl
    simp only [step] at h
    split at h <;> next hTold =>
      cases h
      have hEffect : Effect cue _ [] r r' := .of_transition hTold
      exact ⟨rfl, hEffect.invocations (by decide), hOp⟩
  | entering | requeueing | finishing | leaving =>
    cases h
    exact ⟨rfl, rfl, by rintro op ⟨⟩⟩
  | retired => cases h

/-- A worker that is in an attempt and not about to have its outcome recorded stays in it, and
leaves the store alone. -/
theorem Worker.goOn_step {cue : Cue} {r r' : Realm δ} {w w' : Worker δ} {record : JobRecord}
    (hAttempt : w.attempt? = some record) (hRecording : ∀ t, w ≠ .recording record t)
    (h : w.step cue r = some (r', w')) :
    w'.attempt? = some record ∧ r'.store = r.store := by
  have hStore := (Worker.effect h).store
  cases w with
  | claimed made token =>
    cases hAttempt
    simp only [step] at h
    split at h <;> cases h <;> exact ⟨rfl, hStore⟩
  | executing made token definition =>
    cases hAttempt
    cases h
    exact ⟨rfl, hStore⟩
  | judging made token outcome =>
    cases hAttempt
    cases h
    exact ⟨rfl, hStore⟩
  | recording made t =>
    cases hAttempt
    exact absurd rfl (hRecording t)
  | idle | taken | entering | claiming | withdrawing | requeueing | finishing | leaving | retired =>
    cases hAttempt

namespace System

variable {s u : System δ} {e : Event}

theorem store_of_quiet (hFormed : ∀ {i : Nat} {th}, s.threads[i]? = some th → th.Formed)
    (hStep : s.step e = some u) (hQuiet : ∀ {op now}, s.op? e = some (op, now) → op.Quiet) :
    ∀ x' ∈ u.realm.store.records, (∃ x ∈ s.realm.store.records, x.Follows x') ∨
      ∃ a, (a, x') ∈ s.admissions e ∧ a.Made x' := by
  intro x' hx
  rw [store_of_step hStep] at hx
  cases hOp : s.op? e with
  | none =>
    rw [hOp] at hx
    exact .inl ⟨x', hx, .refl x'⟩
  | some x =>
    rw [hOp] at hx
    obtain ⟨op, now⟩ := x
    rcases Store.follows_of_quiet (hQuiet hOp) hx with hOld | ⟨rfl, hNew⟩
    · exact .inl hOld
    · obtain ⟨a, hAdmitted⟩ := mem_admissions_of_create hOp hNew
      obtain ⟨i, cue, th, -, hAt, hCreating, -⟩ := creating_of_mem_admissions hAdmitted
      exact .inr ⟨a, hAdmitted, hFormed hAt a _ x' hCreating rfl⟩

/-- A worker that is in no attempt before and after its step leaves all attempts alone. -/
theorem workers_of_idle {threads : List (Thread δ)} {i : Nat} {w' : Worker δ}
    (hNone : w'.attempt? = none) {j : Nat} {w : Worker δ} {record : JobRecord}
    (hAt : (threads.set i (.worker w'))[j]? = some (.worker w))
    (hAttempt : w.attempt? = some record) : threads[j]? = some (.worker w) := by
  rw [← List.append_nil (threads.set i _)] at hAt
  rcases threads_of_advance hAt with ⟨-, hEq⟩ | ⟨-, hOld⟩ | ⟨-, hMem⟩
  · cases hEq
    rw [hNone] at hAttempt
    cases hAttempt
  · exact hOld
  · cases hMem

variable (hFormed : ∀ {i : Nat} {th}, s.threads[i]? = some th → th.Formed)

include hFormed

theorem move_of_worker {i : Nat} {cue : Cue} {w w' : Worker δ} {r' : Realm δ}
    (hAt : s.threads[i]? = some (.worker w)) (hWorker : w.step cue s.realm = some (r', w'))
    (hStep : s.step (.advance i cue) = some ⟨r', s.threads.set i (.worker w')⟩) :
    Move s (.advance i cue) ⟨r', s.threads.set i (.worker w')⟩ := by
  have hQuiet : w.attempt? = none → (∀ id token, w ≠ .claiming id token) →
      s.deeds (.advance i cue) = [] →
        Move s (.advance i cue) ⟨r', s.threads.set i (.worker w')⟩ := by
    intro hNone hClaim hDeeds
    obtain ⟨hNone', hInvocations, hOps⟩ := Worker.quiet_step hNone hClaim hWorker
    refine .quiet (store_of_quiet hFormed hStep ?_) (workers_of_idle hNone') hInvocations hDeeds
    intro op now hOp
    obtain ⟨-, -, th, hAt', hAsks⟩ := op?_advance_eq_some.mp hOp
    rw [hAt] at hAt'
    cases hAt'
    exact hOps op hAsks
  have hGoOn : ∀ record, w.attempt? = some record → (∀ t, w ≠ .recording record t) →
      s.deeds (.advance i cue) = [] →
        Move s (.advance i cue) ⟨r', s.threads.set i (.worker w')⟩ := by
    intro record hAttempt hRecording hDeeds
    obtain ⟨hAttempt', hStore⟩ := Worker.goOn_step hAttempt hRecording hWorker
    exact .goOn i cue w w' record rfl hAt rfl hAttempt hAttempt' hWorker hStore hDeeds
  cases w with
  | idle | taken | entering | withdrawing | requeueing | finishing | leaving | retired =>
    exact hQuiet rfl (by rintro id token ⟨⟩) (by simp only [deeds, hAt])
  | claimed record token | executing record token _ | judging record token _ =>
    exact hGoOn record rfl (by rintro t ⟨⟩) (by simp only [deeds, hAt])
  | claiming id token =>
    simp only [Worker.step] at hWorker
    split at hWorker
    · next record r₁ hTold =>
      cases hWorker
      obtain ⟨x, hx, rfl, hState, -, rfl, hStore⟩ := Realm.transition_eq_ok _ _ hTold
      have hEffect : Effect cue _ [] s.realm r' := .of_transition hTold
      exact .claim i cue x token rfl hAt rfl hx hState hStore (hEffect.invocations (by decide))
        (by simp only [deeds, hAt, hTold])
    · next e r₁ hTold =>
      cases hWorker
      -- a claim that fails leaves everything as it was
      cases Realm.tell_eq_error _ _ hTold
      exact .quiet (fun x' hx => .inl ⟨x', hx, .refl x'⟩) (workers_of_idle rfl) rfl
        (by simp only [deeds, hAt, hTold])
  | recording record t =>
    simp only [Worker.step] at hWorker
    split at hWorker
    · next after r₁ hTold =>
      cases hWorker
      obtain ⟨x, hx, hId, hState, hEdge, rfl, hStore⟩ := Realm.transition_eq_ok _ _ hTold
      have hEffect : Effect cue _ [] s.realm r' := .of_transition hTold
      have hTarget : t.target ≠ .running := by
        rintro hRunning
        rw [hRunning] at hEdge
        cases hEdge
      refine .settle i cue record t _ (.ok (t.apply x cue.now)) rfl hAt rfl ?_
        (.inr ⟨x, hx, hId, hState, hTarget, rfl, hStore⟩) (hEffect.invocations (by decide))
        (by simp only [deeds, hAt, hTold])
      split
      · split <;> rfl
      · rfl
    · next e r₁ hTold =>
      cases hWorker
      cases Realm.tell_eq_error _ _ hTold
      exact .settle i cue record t _ (.error e) rfl hAt rfl rfl (.inl ⟨e, rfl, rfl⟩) rfl
        (by simp only [deeds, hAt, hTold])

/-- Every step is one of the four moves. -/
theorem move_of_step (hStep : s.step e = some u) : Move s e u := by
  cases e with
  | call call =>
    cases hStep
    refine .quiet (fun x' hx => .inl ⟨x', hx, .refl x'⟩) ?_ rfl rfl
    intro i w record hAt _
    rcases threads_of_call hAt with hOld | ⟨-, hEq⟩
    · exact hOld
    · cases hEq
  | sweep cutoff =>
    have hStore := store_of_quiet hFormed hStep fun hOp => by
      cases hOp
      trivial
    cases hStep
    exact .quiet hStore (fun hAt _ => hAt) rfl rfl
  | advance i cue =>
    obtain ⟨th, r', th', crew, hAt, hThread, rfl⟩ := step_advance hStep
    by_cases hWorker : ∃ w, th = .worker w
    · obtain ⟨w, rfl⟩ := hWorker
      obtain ⟨w', hWorker, rfl, rfl⟩ := Thread.step_worker hThread
      rw [List.append_nil] at hStep ⊢
      exact move_of_worker hFormed hAt hWorker hStep
    · have hNot : ∀ w, th ≠ .worker w := fun w hEq => hWorker ⟨w, hEq⟩
      refine .quiet (store_of_quiet hFormed hStep ?_) ?_ ?_ ?_
      · intro op now hOp
        obtain ⟨-, -, x, hAt', hAsks⟩ := op?_advance_eq_some.mp hOp
        rw [hAt] at hAt'
        cases hAt'
        exact Thread.quiet_of_op? hNot hAsks
      · intro j w record hAt' hAttempt
        rcases threads_of_advance hAt' with ⟨-, rfl⟩ | ⟨-, hOld⟩ | ⟨-, hMem⟩
        · obtain ⟨w₀, hEq, -⟩ := Thread.worker_of_step hThread
          exact absurd hEq (hNot w₀)
        · exact hOld
        · rcases Thread.crew_of_step hThread _ hMem with hEq | hEq <;> cases hEq
          cases hAttempt
      · refine (Thread.effect hThread).invocations fun hMem => ?_
        obtain ⟨w, hEq, -⟩ := Thread.worker_of_mem_touched hMem (.inl rfl)
        exact hNot w hEq
      · simp only [deeds, hAt]
        split
        · next hEq =>
          cases hEq
          exact absurd rfl (hNot _)
        · next hEq =>
          cases hEq
          exact absurd rfl (hNot _)
        · rfl

end System

end BackgroundJobs
