import BackgroundJobs.Proofs.Realm.Attempts
import BackgroundJobs.Proofs.Realm.Table

/-!
# Proofs — who hears a signal

The table of tokens is kept by run. A worker binds the run to the token of its
attempt when it comes, before it claims the run, and unbinds the run when it
leaves, whatever the run is bound to by then. So the binding is that of the last
visit: a worker that leaves takes away the binding of another one that has come
for the next attempt, and one that comes in vain takes over the binding of the
worker that is in the attempt. As long as no other worker comes or leaves, the
attempt is bound to its own token, and hears a cancellation.

Main results:

* `System.visits`      — the observer of workers that come and leave.
* `registered_of_run`  — a run is bound to the token of its last visit.
* `signals_of_run`     — an attempt whose worker was the last to visit the run is
  told of every cancellation that answers with it.
-/

namespace BackgroundJobs

-- ---------------------------------------------------------------------------
-- The table of tokens
-- ---------------------------------------------------------------------------

namespace Tokens

variable {t : Tokens} {id other : JobId} {token : Token}

theorem find?_register (t : Tokens) (id other : JobId) (token : Token) :
    (t.register id token).find? other = if other = id then some token else t.find? other := by
  rw [find?, register, List.lookup_append, lookup_filter_ne]
  by_cases hOther : other = id
  · simp [hOther]
  · simp [hOther, List.lookup_cons, beq_false_of_ne hOther, find?]

theorem find?_deregister (t : Tokens) (id other : JobId) :
    (t.deregister id).find? other = if other = id then none else t.find? other :=
  lookup_filter_ne t.running id other

theorem isRaised_signal (h : t.find? id = some token) : (t.signal id).isRaised token = true := by
  rw [signal, h]
  exact isRaised_raise_self t token

end Tokens

-- ---------------------------------------------------------------------------
-- Visits
-- ---------------------------------------------------------------------------

/-- A worker comes to a run, with the token that it binds the run to, or leaves it. -/
inductive Visit where
  | came (worker : Nat) (id : JobId) (token : Token)
  | left (worker : Nat) (id : JobId)

namespace Visit

def jobId : Visit → JobId
  | came _ id _ | left _ id => id

/-- The token that the run is bound to from then on. -/
def token? : Visit → Option Token
  | came _ _ token => some token
  | left _ _ => none

/-- The last visit of a log that is one to the given run. -/
def last? (log : List Visit) (id : JobId) : Option Visit :=
  (log.filter (·.jobId = id)).getLast?

variable {log : List Visit} {v : Visit} {id : JobId}

theorem last?_concat (log : List Visit) (v : Visit) (id : JobId) :
    last? (log ++ [v]) id = if v.jobId = id then some v else last? log id := by
  by_cases h : v.jobId = id <;> simp [last?, List.filter_append, h]

theorem mem_of_last? (h : last? log id = some v) : v ∈ log ∧ v.jobId = id := by
  simpa using List.mem_of_getLast? h

end Visit

variable {δ : Type}

/-- The visit that an event begins or ends, if it does. -/
def System.visits (s : System δ) : Event → List Visit
  | .advance i _ =>
    match s.threads[i]? with
    | some (.worker (.entering id)) => [.came i id s.realm.tokens.issue.1]
    | some (.worker (.leaving id)) => [.left i id]
    | _ => []
  | _ => []

/-- The run that a worker has come to, with the token of the attempt, until that is over. -/
def Worker.token? : Worker δ → Option (JobId × Token)
  | .claiming id token => some (id, token)
  | .claimed record token | .executing record token _ | .judging record token _ =>
    some (record.id, token)
  | _ => none

/-- A worker that has bound a run has done so with its last step, or had done so before. -/
theorem Worker.token?_of_step {cue : Cue} {r r' : Realm δ} {w w' : Worker δ} {p : JobId × Token}
    (h : w.step cue r = some (r', w')) (hToken : w'.token? = some p) :
    w.token? = some p ∨ ∃ id, w = .entering id := by
  cases goes_of_step h with
  | comes id => exact .inr ⟨id, rfl⟩
  | claims | calls | returns => exact .inl hToken
  | settles record t w next =>
    rcases next with ⟨updated, rfl | rfl | rfl⟩ | rfl <;> cases hToken
  | rests | takes | halts | enters | drops | misses | judges | withdraws | yields | requeues
  | finishes | leaves => cases hToken

namespace System

variable {s u : System δ} {e : Event} {ids : List JobId} {log : List Visit} {id : JobId} {n : Nat}

/-- What a step does to the table of tokens. -/
inductive Passage (s : System δ) (e : Event) (u : System δ) : Prop where
  /-- The table stays as it is, and nobody comes to a run. -/
  | apart (visits : s.visits e = [])
    (bindings : u.realm.tokens.running = s.realm.tokens.running ∧
      u.realm.tokens.issued = s.realm.tokens.issued)
    (workers : ∀ {j : Nat} {w p}, u.threads[j]? = some (.worker w) → w.token? = some p →
      ∃ w₀, s.threads[j]? = some (.worker w₀) ∧ w₀.token? = some p)
  /-- A worker comes to a run. -/
  | comes (i : Nat) (id : JobId) (visits : s.visits e = [.came i id s.realm.tokens.issue.1])
    (threads : u.threads = s.threads.set i (.worker (.claiming id s.realm.tokens.issue.1)))
    (tokens : u.realm.tokens = s.realm.tokens.issue.2.register id s.realm.tokens.issue.1)
  /-- A worker leaves a run. -/
  | leaves (i : Nat) (id : JobId) (visits : s.visits e = [.left i id])
    (threads : u.threads = s.threads.set i (.worker .idle))
    (tokens : u.realm.tokens = s.realm.tokens.deregister id)

theorem passage_of_step (hStep : s.step e = some u) : Passage s e u := by
  cases e with
  | call call =>
    cases hStep
    refine .apart rfl ⟨rfl, rfl⟩ fun hAt hToken => ?_
    rcases threads_of_call hAt with hOld | ⟨-, hEq⟩
    · exact ⟨_, hOld, hToken⟩
    · cases hEq
  | sweep cutoff =>
    cases hStep
    exact .apart rfl ⟨rfl, rfl⟩ fun hAt hToken => ⟨_, hAt, hToken⟩
  | advance i cue =>
    obtain ⟨th, r', th', crew, hAt, hThread, rfl⟩ := step_advance hStep
    by_cases hTouched : Part.bindings ∈ th.touched
    · obtain ⟨w, rfl, hMem⟩ := Thread.worker_of_mem_touched hTouched (.inr rfl)
      rcases Worker.mem_touched hMem with
        ⟨hPart, -⟩ | ⟨-, id, rfl | rfl⟩ | ⟨hPart | hPart, -⟩ | ⟨hPart, -⟩
      · cases hPart
      · cases hThread
        exact .comes i id (by simp only [visits, hAt]) (List.append_nil _) rfl
      · cases hThread
        exact .leaves i id (by simp only [visits, hAt]) (List.append_nil _) rfl
      all_goals cases hPart
    · have hNot : ∀ id, th ≠ .worker (.entering id) ∧ th ≠ .worker (.leaving id) := by
        refine fun id => ⟨?_, ?_⟩ <;> rintro rfl <;> exact hTouched List.mem_cons_self
      refine .apart ?_ ((Thread.effect hThread).bindings hTouched) ?_
      · simp only [visits, hAt]
        split
        · next hEq => exact absurd (Option.some.inj hEq) (hNot _).1
        · next hEq => exact absurd (Option.some.inj hEq) (hNot _).2
        · rfl
      · intro j w p hAt' hToken
        rcases threads_of_advance hAt' with ⟨rfl, rfl⟩ | ⟨-, hOld⟩ | ⟨-, hMem⟩
        · obtain ⟨w₀, rfl, hWorker, -⟩ := Thread.worker_of_step hThread
          rcases Worker.token?_of_step hWorker hToken with hSame | ⟨id, rfl⟩
          · exact ⟨w₀, hAt, hSame⟩
          · exact absurd rfl (hNot id).1
        · exact ⟨w, hOld, hToken⟩
        · rcases Thread.crew_of_step hThread _ hMem with hEq | hEq <;> cases hEq
          cases hToken

-- ---------------------------------------------------------------------------
-- The binding is that of the last visit
-- ---------------------------------------------------------------------------

/-- The table of tokens agrees with a log of visits, no two of which came with one token. -/
structure Registered (s : System δ) (log : List Visit) : Prop where
  bound : ∀ id, s.realm.tokens.find? id = (Visit.last? log id).bind Visit.token?
  issued : ∀ {i id token}, .came i id token ∈ log → token.number < s.realm.tokens.issued
  once : ∀ {i j id id' token}, .came i id token ∈ log → .came j id' token ∈ log →
    i = j ∧ id = id'
  came : ∀ {i : Nat} {w id token}, s.threads[i]? = some (.worker w) →
    w.token? = some (id, token) → .came i id token ∈ log

namespace Registered

/-- A run is bound to the token of an attempt exactly if the worker of that attempt was the last to
visit it. -/
theorem find?_eq_some_iff (h : s.Registered log) {i : Nat} {w : Worker δ} {token : Token}
    (hAt : s.threads[i]? = some (.worker w)) (hToken : w.token? = some (id, token)) :
    s.realm.tokens.find? id = some token ↔ Visit.last? log id = some (.came i id token) := by
  rw [h.bound id]
  constructor
  · intro hBound
    obtain ⟨v, hLast, hv⟩ := Option.bind_eq_some_iff.mp hBound
    obtain ⟨hMem, hId⟩ := Visit.mem_of_last? hLast
    cases v with
    | came j id' token' =>
      cases hId
      cases hv
      rw [hLast, (h.once hMem (h.came hAt hToken)).1]
      rfl
    | left j id' => cases hv
  · intro hLast
    rw [hLast]
    rfl

theorem step (h : s.Registered log) (hPassage : Passage s e u) :
    u.Registered (log ++ s.visits e) := by
  cases hPassage with
  | apart hVisits hBindings hWorkers =>
    rw [hVisits, List.append_nil]
    refine ⟨fun id => ?_, fun hMem => ?_, h.once, fun hAt hToken => ?_⟩
    · rw [← h.bound id, Tokens.find?, Tokens.find?, hBindings.1]
    · rw [hBindings.2]
      exact h.issued hMem
    · obtain ⟨w₀, hOld, hSame⟩ := hWorkers hAt hToken
      exact h.came hOld hSame
  | comes i id hVisits hThreads hTokens =>
    rw [hVisits]
    -- the new token was never handed out
    have hNew : ∀ {j id'}, .came j id' s.realm.tokens.issue.1 ∉ log := fun hMem =>
      absurd (h.issued hMem) (Nat.lt_irrefl _)
    refine ⟨fun other => ?_, fun hMem => ?_, fun hMem hMem' => ?_, fun hAt hToken => ?_⟩
    · rw [hTokens, Tokens.find?_register, Visit.last?_concat]
      by_cases hId : other = id
      · simp [Visit.jobId, Visit.token?, hId]
      · simp only [Visit.jobId, hId, Ne.symm hId, if_false]
        exact h.bound other
    · rw [hTokens]
      rcases List.mem_append.mp hMem with hOld | hLast
      · exact Nat.lt_succ_of_lt (h.issued hOld)
      · cases List.mem_singleton.mp hLast
        exact Nat.lt_succ_self _
    · rcases List.mem_append.mp hMem with hOld | hLast <;>
        rcases List.mem_append.mp hMem' with hOld' | hLast'
      · exact h.once hOld hOld'
      · cases List.mem_singleton.mp hLast'
        exact absurd hOld hNew
      · cases List.mem_singleton.mp hLast
        exact absurd hOld' hNew
      · cases List.mem_singleton.mp hLast
        cases List.mem_singleton.mp hLast'
        exact ⟨rfl, rfl⟩
    · rw [hThreads, ← List.append_nil (s.threads.set i _)] at hAt
      rcases threads_of_advance hAt with ⟨rfl, hEq⟩ | ⟨-, hOld⟩ | ⟨-, hMem⟩
      · cases hEq
        cases hToken
        exact List.mem_append_right _ (List.mem_singleton.mpr rfl)
      · exact List.mem_append_left _ (h.came hOld hToken)
      · cases hMem
  | leaves i id hVisits hThreads hTokens =>
    rw [hVisits]
    have hBefore : ∀ {j id' token}, .came j id' token ∈ log ++ [.left i id] →
        .came j id' token ∈ log := fun hMem => by simpa using hMem
    refine ⟨fun other => ?_, fun hMem => ?_, fun hMem hMem' => ?_, fun hAt hToken => ?_⟩
    · rw [hTokens, Tokens.find?_deregister, Visit.last?_concat]
      by_cases hId : other = id
      · simp [Visit.jobId, Visit.token?, hId]
      · simp [Visit.jobId, hId, Ne.symm hId, h.bound other]
    · rw [hTokens]
      exact h.issued (hBefore hMem)
    · exact h.once (hBefore hMem) (hBefore hMem')
    · rw [hThreads, ← List.append_nil (s.threads.set i _)] at hAt
      rcases threads_of_advance hAt with ⟨-, hEq⟩ | ⟨-, hOld⟩ | ⟨-, hMem⟩
      · cases hEq
        cases hToken
      · exact List.mem_append_left _ (h.came hOld hToken)
      · cases hMem

end Registered

variable {settings : RealmSettings} {registry : Registry δ} {store : Store} {events : List Event}

theorem registered_of_run (hRun : (initial settings registry store).run events = some u) :
    u.Registered ((initial settings registry store).trail visits events) := by
  refine run_induction (motive := fun events u =>
    u.Registered ((initial settings registry store).trail visits events)) hRun ?_ ?_
  · exact ⟨fun _ => rfl, nofun, nofun, nofun⟩
  · intro before t e v hBefore hStep ih
    rw [trail_concat hBefore]
    exact ih.step (passage_of_step hStep)

-- ---------------------------------------------------------------------------
-- Attempts that were told
-- ---------------------------------------------------------------------------

/-- The run has had this many attempts at least. -/
def Begun (s : System δ) (id : JobId) (n : Nat) : Prop :=
  ∀ x ∈ s.realm.store.records, x.id = id → n ≤ x.attempts

theorem Begun.step (h : s.Begun id n) (hStep : s.step e = some u)
    (hIds : (ids ++ (s.admissions e).map (·.2.id)).Nodup) (hId : id ∈ ids) : u.Begun id n := by
  rintro x' hx' rfl
  rcases changes_of_step hStep hx' with ⟨x, hx, hChanges⟩ | ⟨a, hAdmitted⟩
  · rw [hChanges.attempts]
    exact Nat.le_add_right_of_le (h x hx hChanges.sameRun.id.symm)
  · exact absurd rfl ((List.nodup_append.mp hIds).2.2 _ hId _ (List.mem_map_of_mem hAdmitted))

/-- An attempt goes on, or it has begun with a claim and is the next one of the run. -/
theorem busy_of_step {i : Nat} {w : Worker δ} {record : JobRecord} {token : Token}
    (hMove : Move s e u) (hBusy : u.Busy i w record) (hToken : w.token? = some (id, token)) :
    (∃ w₀, s.Busy i w₀ record ∧ w₀.token? = some (id, token)) ∨
      ∃ x ∈ s.realm.store.records, x.id = id ∧ record.attempts = x.attempts + 1 := by
  cases hMove with
  | quiet _ hWorkers _ _ => exact .inl ⟨w, Owned.busy_of_quiet hWorkers hBusy, hToken⟩
  | claim j cue x token' _ _ hThreads hStored _ _ _ _ =>
    rcases busy_of_set_of_some hThreads rfl hBusy with ⟨-, rfl, rfl⟩ | ⟨-, hOld⟩
    · cases hToken
      exact .inr ⟨x, hStored, rfl, rfl⟩
    · exact .inl ⟨w, hOld, hToken⟩
  | goOn j cue w₀ w' record' _ hBefore hThreads hAttempt hAttempt' hStep _ _ =>
    rcases busy_of_set_of_some hThreads hAttempt' hBusy with ⟨rfl, rfl, rfl⟩ | ⟨-, hOld⟩
    · rcases Worker.token?_of_step hStep hToken with hSame | ⟨id, rfl⟩
      · exact .inl ⟨w₀, ⟨hBefore, hAttempt⟩, hSame⟩
      · cases hAttempt
    · exact .inl ⟨w, hOld, hToken⟩
  | settle j cue record' t w' result _ _ hThreads hNone _ _ _ =>
    exact .inl ⟨w, (busy_of_set_of_none hThreads hNone hBusy).2, hToken⟩

/-- All attempts of the run up to the given one have their tokens raised, if their workers were the
last to visit it. -/
structure Heard (s : System δ) (log : List Visit) (id : JobId) (n : Nat) : Prop where
  begun : s.Begun id n
  raised : ∀ {i w record token}, s.Busy i w record → w.token? = some (id, token) →
    record.attempts ≤ n → Visit.last? log id = some (.came i id token) →
      s.realm.tokens.isRaised token = true

theorem Heard.step (h : s.Heard log id n) (hStep : s.step e = some u) (hMove : Move s e u)
    (hIds : (ids ++ (s.admissions e).map (·.2.id)).Nodup) (hId : id ∈ ids) :
    u.Heard (log ++ s.visits e) id n := by
  refine ⟨h.begun.step hStep hIds hId, fun {i w record token} hBusy hToken hOld hLast => ?_⟩
  rcases busy_of_step hMove hBusy hToken with ⟨w₀, hBefore, hSame⟩ | ⟨x, hx, hxId, hNext⟩
  · refine raised_of_step hStep (h.raised hBefore hSame hOld ?_)
    -- a worker that is in an attempt does not come to the run again
    cases passage_of_step hStep with
    | apart hVisits =>
      rw [hVisits, List.append_nil] at hLast
      exact hLast
    | comes j other hVisits hThreads =>
      rw [hVisits, Visit.last?_concat] at hLast
      split at hLast
      · cases hLast
        exact absurd rfl (busy_of_set_of_none hThreads rfl hBusy).1
      · exact hLast
    | leaves j other hVisits =>
      rw [hVisits, Visit.last?_concat] at hLast
      split at hLast
      · cases hLast
      · exact hLast
  · have hMore := h.begun x hx hxId
    omega

end System

-- ---------------------------------------------------------------------------
-- The cancellation
-- ---------------------------------------------------------------------------

/-- What holds of a thread that cancels a run: `marked` of the record that it has marked, while it
goes on, and `told` of the record that it answers with, if that goes on. -/
def Thread.Tells (marked told : JobRecord → Prop) : Thread δ → Prop
  | .caller (.made call) => ∃ id, call = .cancel id
  | .caller (.canceling point) =>
    match point with
    | .unqueueing record | .finishing record => record.state = .canceled
    | .signalling record => record.state = .running → marked record
    | _ => True
  | .answered (.ok (.record record)) => record.state = .running → told record
  | .answered _ => True
  | _ => False

theorem Thread.Tells.imp {marked told marked' told' : JobRecord → Prop} {th : Thread δ}
    (h : th.Tells marked told) (hMarked : ∀ record, marked record → marked' record)
    (hTold : ∀ record, told record → told' record) : th.Tells marked' told' := by
  cases th with
  | worker w => exact h.elim
  | timer t => exact h.elim
  | answered answer =>
    cases answer with
    | error e => trivial
    | ok reply =>
      cases reply with
      | record record => exact fun hRunning => hTold record (h hRunning)
      | _ => trivial
  | caller point =>
    cases point with
    | made call => exact h
    | canceling point =>
      cases point with
      | signalling record => exact fun hRunning => hMarked record (h hRunning)
      | unqueueing record => exact h
      | finishing record => exact h
      | _ => trivial
    | admitting | starting | stopping | scheduling | declaring => exact h.elim

/-- A cancellation answers with a record that goes on only after it has marked it and given the
signal. -/
theorem Cancellation.tells_of_step {cue : Cue} {r r' : Realm δ} {point : Cancellation}
    {p : Progress Cancellation (Except JobError JobRecord)}
    {marked told marked' told' : JobRecord → Prop}
    (h : (Thread.caller (.canceling point) : Thread δ).Tells marked told)
    (hMarks : ∀ id record, point = .marking id →
      r.tell cue (·.requestCancel id cue.now) = (.ok record, r') → record.state = .running →
        marked' record)
    (hSignals : ∀ record, point = .signalling record → record.state = .running → told' record)
    (hStep : point.step cue r = (r', p)) :
    match p with
    | .at next => (Thread.caller (.canceling next) : Thread δ).Tells marked' told'
    | .done result => (Thread.answered (result.map .record) : Thread δ).Tells marked' told' := by
  cases point with
  | looking id =>
    simp only [step] at hStep
    split at hStep
    · cases hStep
      trivial
    · split at hStep <;> cases hStep
      · trivial
      · trivial
      · next hRunning => exact fun hState => absurd hState hRunning
  | revoking id =>
    simp only [step] at hStep
    split at hStep <;> cases hStep
    · next hTold =>
      obtain ⟨x, -, -, -, -, rfl, -⟩ := Realm.transition_eq_ok _ _ hTold
      rfl
    · trivial
    · trivial
  | unqueueing record =>
    cases hStep
    exact h
  | finishing record =>
    cases hStep
    intro hRunning
    have hCanceled : record.state = .canceled := h
    rw [hCanceled] at hRunning
    cases hRunning
  | marking id =>
    simp only [step] at hStep
    split at hStep <;> cases hStep
    · next record hTold =>
      show Thread.Tells marked' told'
        (.caller (.canceling (if record.state = .queued then .looking id else .signalling record)))
      split
      · trivial
      · exact hMarks id record rfl hTold
    · trivial
  | signalling record =>
    cases hStep
    exact hSignals record rfl

namespace System

variable {s u : System δ} {e : Event} {ids : List JobId} {log : List Visit}

/-- What holds of the thread that cancels a run in the course of its steps: a record that it has
marked, or answers with, has had no fewer attempts than it shows, and when it answers, the attempts
were told. -/
def Announces (s : System δ) (ids : List JobId) (log : List Visit) (th : Thread δ) : Prop :=
  th.Tells (fun record => record.id ∈ ids ∧ s.Begun record.id record.attempts)
    fun record => record.id ∈ ids ∧ s.Heard log record.id record.attempts

/-- A step of another thread takes nothing back. -/
theorem Announces.other {th : Thread δ} (h : s.Announces ids log th) (hStep : s.step e = some u)
    (hMove : Move s e u) (hIds : (ids ++ (s.admissions e).map (·.2.id)).Nodup) :
    u.Announces (ids ++ (s.admissions e).map (·.2.id)) (log ++ s.visits e) th := by
  refine Thread.Tells.imp h ?_ ?_
  · rintro record ⟨hId, hBegun⟩
    exact ⟨List.mem_append_left _ hId, hBegun.step hStep hIds hId⟩
  · rintro record ⟨hId, hHeard⟩
    exact ⟨List.mem_append_left _ hId, hHeard.step hStep hMove hIds hId⟩

/-- The cancellation marks a run that goes on, and then raises the token that it is bound to. -/
theorem Announces.own {i : Nat} {cue : Cue} {th : Thread δ} (h : s.Announces ids log th)
    (hAt : s.threads[i]? = some th) (hStored : ∀ x ∈ s.realm.store.records, x.id ∈ ids)
    (hRegistered : s.Registered log) (hStep : s.step (.advance i cue) = some u) :
    ∃ th', u.threads[i]? = some th' ∧
      u.Announces (ids ++ (s.admissions (.advance i cue)).map (·.2.id))
        (log ++ s.visits (.advance i cue)) th' := by
  obtain ⟨r', th', crew, hThread, rfl⟩ := step_advance_at hAt hStep
  refine ⟨th', thread_of_advance_self hAt, ?_⟩
  cases th with
  | worker w => exact h.elim
  | timer t => exact h.elim
  | answered answer => cases hThread
  | caller callPoint =>
    cases callPoint with
    | admitting | starting | stopping | scheduling | declaring => exact h.elim
    | made call =>
      obtain ⟨id, rfl⟩ := h
      cases hThread
      trivial
    | canceling point =>
      have hVisits : s.visits (.advance i cue) = [] := by simp only [visits, hAt]
      have hAdmissions : s.admissions (.advance i cue) = [] := by
        simp [admissions, hAt, Thread.admission?]
      rw [hVisits, hAdmissions, List.append_nil, List.map_nil, List.append_nil]
      have hMarks : ∀ id record, point = .marking id →
          s.realm.tell cue (·.requestCancel id cue.now) = (.ok record, r') →
            record.state = .running → record.id ∈ ids ∧
              System.Begun ⟨r', s.threads.set i th' ++ crew⟩ record.id record.attempts := by
        rintro id record rfl hTold -
        obtain ⟨-, store, hStore, rfl⟩ := (Realm.tell_eq_ok _ _).mp hTold
        obtain ⟨x, hx, rfl, rfl, -⟩ := Store.requestCancel_ok hStore
        refine ⟨by rw [Store.marked_id]; exact hStored x hx, fun y hy hId => ?_⟩
        rcases (Store.mem_of_requestCancel_ok hStore).mp hy with rfl | ⟨-, hNe⟩
        · exact Nat.le_refl _
        · exact absurd (hId.trans (Store.marked_id x)) hNe
      have hSignals : ∀ record, point = .signalling record → record.state = .running →
          record.id ∈ ids ∧
            System.Heard ⟨r', s.threads.set i th' ++ crew⟩ log record.id record.attempts := by
        rintro record rfl hRunning
        obtain ⟨hId, hBegun⟩ := h hRunning
        cases hThread
        refine ⟨hId, hBegun, fun {j w claimed token} hBusy hToken _ hLast => ?_⟩
        have hBefore : s.threads[j]? = some (.worker w) := by
          rcases threads_of_advance hBusy.1 with ⟨-, hEq⟩ | ⟨-, hOld⟩ | ⟨-, hMem⟩
          · cases hEq
          · exact hOld
          · cases hMem
        exact Tokens.isRaised_signal ((hRegistered.find?_eq_some_iff hBefore hToken).mpr hLast)
      rcases Thread.step_lifted (x := some (point.step cue s.realm)) rfl hThread with
        ⟨next, hPoint, rfl, -⟩ | ⟨result, hPoint, rfl, -⟩
      · exact Cancellation.tells_of_step h hMarks hSignals (Option.some.inj hPoint)
      · exact Cancellation.tells_of_step h hMarks hSignals (Option.some.inj hPoint)

-- ---------------------------------------------------------------------------
-- All together
-- ---------------------------------------------------------------------------

variable {settings : RealmSettings} {registry : Registry δ} {store : Store}
  {before after : List Event}

theorem announces_of_run {id : JobId}
    (hBefore : (initial settings registry store).run before = some s)
    (hRun : s.run (.call (.cancel id) :: after) = some u)
    (hIds : ((initial settings registry store).runIds
      (before ++ .call (.cancel id) :: after)).Nodup) :
    ∃ th, u.threads[s.threads.length]? = some th ∧
      u.Announces ((initial settings registry store).runIds (before ++ .call (.cancel id) :: after))
        ((initial settings registry store).trail visits (before ++ .call (.cancel id) :: after))
        th := by
  obtain ⟨t, hCall, hRest⟩ := Option.bind_eq_some_iff.mp hRun
  have hFirst : (initial settings registry store).run (before ++ [.call (.cancel id)]) =
      some t := run_concat_of_run hBefore hCall
  rw [List.append_cons] at hIds ⊢
  refine run_induction_of_nodup (motive := fun mid v =>
    ∃ th, v.threads[s.threads.length]? = some th ∧
      v.Announces
        ((initial settings registry store).runIds (before ++ [.call (.cancel id)] ++ mid))
        ((initial settings registry store).trail visits (before ++ [.call (.cancel id)] ++ mid))
        th) hFirst hRest hIds ?_ ?_
  · cases hCall
    exact ⟨_, List.getElem?_concat_length, id, rfl⟩
  · intro mid v e w hMid hStep hUpTo hOwned hIds ih
    obtain ⟨th, hAt, hAnnounces⟩ := ih
    rw [← List.append_assoc, runIds_concat hUpTo, trail_concat hUpTo]
    by_cases hOwn : ∃ cue, e = .advance s.threads.length cue
    · obtain ⟨cue, rfl⟩ := hOwn
      exact hAnnounces.own hAt hOwned.stored (registered_of_run hUpTo) hStep
    · exact ⟨th, thread_of_step_of_ne hStep hAt fun cue hEq => hOwn ⟨cue, hEq⟩,
        hAnnounces.other hStep (move_of_step (made_of_run hUpTo) hStep) hIds⟩

/-- However the threads of a realm interleave, a run is bound to the token of an attempt exactly if
the worker of that attempt was the last to come to the run or to leave it; and then the token is
raised by every cancellation that answers with the run going on in that attempt. -/
theorem signals_of_run (hBefore : (initial settings registry store).run before = some s)
    (hAfter : s.run after = some u)
    (hIds : ((initial settings registry store).runIds (before ++ after)).Nodup) :
    (∀ (i : Nat) record token definition,
      u.threads[i]? = some (.worker (.executing record token definition)) →
        (u.realm.tokens.find? record.id = some token ↔
          Visit.last? ((initial settings registry store).trail visits (before ++ after)) record.id =
            some (.came i record.id token))) ∧
      ∀ id rest record, after = .call (.cancel id) :: rest →
        u.threads[s.threads.length]? = some (.answered (.ok (.record record))) →
          record.state = .running →
            ∀ (i : Nat) claimed token definition,
              u.threads[i]? = some (.worker (.executing claimed token definition)) →
                claimed.id = record.id → claimed.attempts = record.attempts →
                  Visit.last? ((initial settings registry store).trail visits (before ++ after))
                      record.id = some (.came i record.id token) →
                    u.realm.tokens.isRaised token = true := by
  have hRun : (initial settings registry store).run (before ++ after) = some u := by
    rw [run_append_of_run hBefore, hAfter]
  refine ⟨?_, ?_⟩
  · intro i record token definition hAt
    exact (registered_of_run hRun).find?_eq_some_iff hAt rfl
  · rintro id rest record rfl hAnswer hRunning i claimed token definition hAt hId hAttempts hLast
    obtain ⟨th, hThread, hAnnounces⟩ := announces_of_run hBefore hAfter hIds
    rw [hAnswer] at hThread
    cases hThread
    have hToken : (Worker.executing claimed token definition).token? = some (record.id, token) := by
      rw [← hId]
      rfl
    exact (hAnnounces hRunning).2.raised ⟨hAt, rfl⟩ hToken (Nat.le_of_eq hAttempts) hLast

/-- A worker is in the first attempt of a run. -/
def atWork : List Event :=
  let request : JobRequest :=
    { jobKey := "job", name := "job", group := none, arguments := Dict.empty,
      metadata := Dict.empty, constraints := [], retryPolicy := none, trigger := .immediate }
  let advance (i n : Nat) : Event := .advance i { now := ⟨n, 0⟩, fresh := ⟨BitVec.ofNat 128 n⟩ }
  [.call (.submit request), advance 0 1, advance 0 2, advance 0 3, advance 0 4, advance 0 5,
    advance 0 6, .call .start, advance 1 7, advance 1 8, advance 1 9, advance 1 10, advance 1 11,
    advance 1 12, advance 2 13, advance 2 14, advance 2 15, advance 2 16, advance 2 17]

/-- The attempt fails and the run is queued again. Another worker comes to it before the first one
has left it, and claims it afterwards. -/
def handedOn : List Event :=
  let advance (i n : Nat) : Event := .advance i { now := ⟨n, 0⟩, fresh := default }
  let fail (i n : Nat) : Event :=
    .advance i { now := ⟨n, 0⟩, fresh := default, outcome := .error (.failed "once more" true) }
  [fail 2 18, advance 2 19, advance 2 20, advance 2 21, advance 3 100, advance 3 101,
    advance 3 102, advance 2 103, advance 3 104, advance 3 105]

/-- The run is canceled. -/
def canceledThen : List Event :=
  let advance (i n : Nat) : Event := .advance i { now := ⟨n, 0⟩, fresh := default }
  [.call (.cancel ⟨⟨3⟩⟩), advance 5 106, advance 5 107, advance 5 108, advance 5 109]

/-- Was thread `k` answered with a record that goes on in the attempt that worker `i` is in? The run
is bound as given for the token of the attempt, and the token is raised or not. -/
def answersAttempt (s : System Unit) (k i : Nat) (bound : Token → Option Token) (raised : Bool) :
    Bool :=
  match s.threads[k]?, s.threads[i]? with
  | some (.answered (.ok (.record record))), some (.worker (.executing claimed token _)) =>
    record.state = .running && claimed.id = record.id && claimed.attempts = record.attempts &&
      s.realm.tokens.find? claimed.id = bound token && s.realm.tokens.isRaised token = raised
  | _, _ => false

theorem answersAttempt_eq_true {s : System Unit} {k i : Nat} {bound : Token → Option Token}
    {raised : Bool} (h : s.answersAttempt k i bound raised = true) :
    ∃ record claimed token,
      s.threads[k]? = some (.answered (.ok (.record record))) ∧ record.state = .running ∧
        s.threads[i]? = some (.worker (.executing claimed token ())) ∧
          claimed.id = record.id ∧ claimed.attempts = record.attempts ∧
            s.realm.tokens.find? claimed.id = bound token ∧
              s.realm.tokens.isRaised token = raised := by
  unfold answersAttempt at h
  split at h
  · next record claimed token _ hAnswer hAttempt =>
    simp only [Bool.and_eq_true, decide_eq_true_eq] at h
    obtain ⟨⟨⟨⟨hState, hId⟩, hAttempts⟩, hBound⟩, hRaised⟩ := h
    exact ⟨record, claimed, token, hAnswer, hState, hAttempt, hId, hAttempts, hBound, hRaised⟩
  · cases h

/-- A cancellation that comes while the worker is in the first attempt raises its token. -/
theorem signals_of_run_canceledThen :
    ∃ (s u : System Unit) (claimed : JobRecord) (token : Token),
      (initial { workers := 2 } ⟨Dict.empty.insert "job" ()⟩ Store.empty).run atWork = some s ∧
        s.run canceledThen = some u ∧
          u.threads[2]? = some (.worker (.executing claimed token ())) ∧
            u.realm.tokens.isRaised token = true := by
  have hBegin : ((initial { workers := 2 } ⟨Dict.empty.insert "job" ()⟩ Store.empty).run
      atWork).map (·.threads.length) = some 5 := by
    decide +kernel
  have hEnd : ((initial { workers := 2 } ⟨Dict.empty.insert "job" ()⟩ Store.empty).run
      (atWork ++ canceledThen)).map (·.answersAttempt 5 2 some true) = some true := by
    decide +kernel
  have hIds : ((initial { workers := 2 } ⟨Dict.empty.insert "job" ()⟩ Store.empty).runIds
      (atWork ++ canceledThen)).Nodup := by
    decide +kernel
  obtain ⟨s, hBefore, hLength⟩ := Option.map_eq_some_iff.mp hBegin
  rw [run_append_of_run hBefore] at hEnd
  obtain ⟨u, hAfter, hMeets⟩ := Option.map_eq_some_iff.mp hEnd
  obtain ⟨record, claimed, token, hAnswer, hState, hAt, hId, hAttempts, hBound, -⟩ :=
    answersAttempt_eq_true hMeets
  obtain ⟨hOwn, hHeard⟩ := signals_of_run hBefore hAfter hIds
  have hLast := (hOwn 2 claimed token () hAt).mp hBound
  rw [hId] at hLast
  refine ⟨s, u, claimed, token, hBefore, hAfter, hAt, ?_⟩
  exact hHeard _ _ record rfl (by rw [hLength, hAnswer]) hState 2 claimed token () hAt hId hAttempts
    hLast

/-- A cancellation may answer with a run that goes on although nobody has told the attempt: the
worker that has left the run has taken away what it was bound to. -/
theorem cancellation_unheard :
    ∃ (s u : System Unit) (record claimed : JobRecord) (token : Token),
      (initial { workers := 2 } ⟨Dict.empty.insert "job" ()⟩ Store.empty).run
          (atWork ++ handedOn) = some s ∧
        s.run canceledThen = some u ∧
          u.threads[s.threads.length]? = some (.answered (.ok (.record record))) ∧
            record.state = .running ∧
              u.threads[3]? = some (.worker (.executing claimed token ())) ∧
                claimed.id = record.id ∧ claimed.attempts = record.attempts ∧
                  u.realm.tokens.find? claimed.id = none ∧
                    u.realm.tokens.isRaised token = false := by
  have hBegin : ((initial { workers := 2 } ⟨Dict.empty.insert "job" ()⟩ Store.empty).run
      (atWork ++ handedOn)).map (·.threads.length) = some 5 := by
    decide +kernel
  have hEnd : ((initial { workers := 2 } ⟨Dict.empty.insert "job" ()⟩ Store.empty).run
      (atWork ++ handedOn ++ canceledThen)).map (·.answersAttempt 5 3 (fun _ => none) false) =
        some true := by
    decide +kernel
  obtain ⟨s, hBefore, hLength⟩ := Option.map_eq_some_iff.mp hBegin
  rw [run_append_of_run hBefore] at hEnd
  obtain ⟨u, hAfter, hMeets⟩ := Option.map_eq_some_iff.mp hEnd
  obtain ⟨record, claimed, token, hAnswer, hState, hRest⟩ := answersAttempt_eq_true hMeets
  exact ⟨s, u, record, claimed, token, hBefore, hAfter, by rw [hLength, hAnswer], hState, hRest⟩

end System

end BackgroundJobs
