import BackgroundJobs.Proofs.Realm.Run
import BackgroundJobs.Proofs.Realm.Threads
import BackgroundJobs.Proofs.Store.Operation

/-!
# Proofs — what a step does to the realm

Every step of a thread asks the store for at most one operation, and touches
few other parts of the realm: only admissions work on the admission lock, only
starting and stopping change the lifecycle, and only workers call definitions
and bind runs to tokens. What was raised stays raised, and a realm that stops
goes on to stop.

Main results:

* `Thread.effect`         — the operation that a thread's step asks for, and what
  the step leaves alone.
* `System.store_of_step`  — what an event makes of the store.
-/

namespace BackgroundJobs

/-- The store after what a step asks of it, if it asks for anything. A store in trouble does
nothing. -/
def Cue.act (cue : Cue) (s : Store) : Option Store.Op → Store
  | none => s
  | some op =>
    match cue.fault with
    | some _ => s
    | none => s.perform cue.now op

namespace Realm

variable {δ : Type} (r : Realm δ) (cue : Cue)

/-- The store does what it is told if it is not in trouble and has no objection. -/
theorem tell_eq_ok {α : Type} {action : Store → Except StoreError (α × Store)} {a : α}
    {r' : Realm δ} :
    r.tell cue action = (.ok a, r') ↔
      cue.fault = none ∧ ∃ store, action r.store = .ok (a, store) ∧ r' = { r with store } := by
  unfold tell
  cases cue.fault with
  | some text => simp
  | none =>
    cases action r.store with
    | error e => simp
    | ok x =>
      obtain ⟨b, store⟩ := x
      constructor
      · intro h
        cases h
        exact ⟨rfl, store, rfl, rfl⟩
      · rintro ⟨-, _, hx, rfl⟩
        cases hx
        rfl

theorem tell_eq_error {α : Type} {action : Store → Except StoreError (α × Store)}
    {e : StoreError} {r' : Realm δ} (h : r.tell cue action = (.error e, r')) : r' = r := by
  unfold tell at h
  split at h
  · cases h
    rfl
  · split at h <;> cases h
    rfl

/-- A record that is found is stored, under the id that was looked for. -/
theorem find_eq_ok {id : JobId} {record : JobRecord} (h : r.find cue id = .ok record) :
    record ∈ r.store.records ∧ record.id = id := by
  unfold find at h
  split at h
  · cases h
  · cases h
  · next hAsked =>
    cases h
    unfold ask at hAsked
    split at hAsked
    · cases hAsked
    · exact Store.find?_eq_some_iff.mp (Except.ok.inj hAsked)

/-- What a change of state that succeeds found and made. -/
theorem transition_eq_ok {id : JobId} {expected : JobState} {t : Transition} {after : JobRecord}
    {r' : Realm δ} (h : r.transition cue id expected t = (.ok after, r')) :
    ∃ x ∈ r.store.records, x.id = id ∧ x.state = expected ∧ expected.canBecome t.target = true ∧
      after = t.apply x cue.now ∧
      ∀ y, y ∈ r'.store.records ↔ y = after ∨ (y ∈ r.store.records ∧ y.id ≠ id) := by
  obtain ⟨-, store, hStore, rfl⟩ := (tell_eq_ok r cue).mp h
  obtain ⟨x, hx, hId, hState, hEdge, hAfter, -⟩ := Store.transition_ok hStore
  exact ⟨x, hx, hId, hState, hEdge, hAfter, fun y => Store.mem_of_transition_ok hStore⟩

/-- A record that is created is new to the store. -/
theorem create_eq_ok {record : JobRecord} {r' : Realm δ}
    (h : (r.tell cue fun s => (s.create record).map (Prod.mk ())) = (.ok (), r')) :
    ∃ store, r.store.create record = .ok store ∧ r' = { r with store } := by
  obtain ⟨-, store, hStore, rfl⟩ := (tell_eq_ok r cue).mp h
  refine ⟨store, ?_, rfl⟩
  cases hCreated : r.store.create record <;> rw [hCreated] at hStore <;> cases hStore
  rfl

theorem transition_realm (id : JobId) (expected : JobState) (t : Transition) :
    (r.transition cue id expected t).2 =
      { r with store := cue.act r.store (some (.transition id expected t)) } := by
  unfold transition tell Cue.act
  cases cue.fault with
  | some text => rfl
  | none =>
    simp only [Store.perform]
    split <;> simp_all

theorem requestCancel_realm (id : JobId) :
    (r.tell cue (·.requestCancel id cue.now)).2 =
      { r with store := cue.act r.store (some (.requestCancel id)) } := by
  unfold tell Cue.act
  cases cue.fault with
  | some text => rfl
  | none =>
    simp only [Store.perform]
    split <;> simp_all

theorem create_realm (record : JobRecord) :
    (r.tell cue fun s => (s.create record).map (Prod.mk ())).2 =
      { r with store := cue.act r.store (some (.create record)) } := by
  unfold tell Cue.act
  cases cue.fault with
  | some text => rfl
  | none =>
    simp only [Store.perform]
    cases r.store.create record <;> rfl

theorem deleteTerminal_realm (ids : List JobId) :
    (r.tell cue fun s => .ok (s.deleteTerminal ids)).2 =
      { r with store := cue.act r.store (some (.deleteTerminal ids)) } := by
  unfold tell Cue.act
  cases cue.fault <;> rfl

theorem deleteFinishedBefore_realm (cutoff : Instant) :
    (r.tell cue fun s => .ok (s.deleteFinishedBefore cutoff)).2 =
      { r with store := cue.act r.store (some (.deleteFinishedBefore cutoff)) } := by
  unfold tell Cue.act
  cases cue.fault <;> rfl

end Realm

-- ---------------------------------------------------------------------------
-- What is asked of the store
-- ---------------------------------------------------------------------------

def AdmissionPoint.op? : AdmissionPoint → Option Store.Op
  | .creating record => some (.create record)
  | _ => none

def Cancellation.op? : Cancellation → Option Store.Op
  | .revoking id => some (.transition id .queued .cancel)
  | .marking id => some (.requestCancel id)
  | _ => none

def Shutdown.op? : Shutdown → Option Store.Op
  | .interrupting id _ _ => some (.transition id .running .interrupt)
  | _ => none

def Startup.op? : Startup → Option Store.Op
  | .recovering (record :: _) =>
    if record.state = .running then some (.transition record.id .running .interrupt) else none
  | _ => none

/-- What the first step of a call asks of the store. -/
def Call.op? {δ : Type} (cue : Cue) (r : Realm δ) : Call → Option Store.Op
  | .delete ids => some (.deleteTerminal ids)
  | .purge => (Purge.cutoff? r.settings.retention cue.now).map .deleteFinishedBefore
  | _ => none

def CallPoint.op? {δ : Type} (cue : Cue) (r : Realm δ) : CallPoint → Option Store.Op
  | .made call => call.op? cue r
  | .admitting _ point => point.op?
  | .starting point => point.op?
  | .stopping point => point.op?
  | .canceling point => point.op?
  | .scheduling _ | .declaring _ => none

def Timer.op? : Timer → Option Store.Op
  | .firing _ _ _ _ point => point.op?
  | _ => none

def Worker.op? {δ : Type} : Worker δ → Option Store.Op
  | .claiming id _ => some (.transition id .queued .start)
  | .recording record t => some (.transition record.id .running t)
  | .withdrawing record => some (.transition record.id .queued .cancel)
  | _ => none

/-- What a thread's step asks of the store. -/
def Thread.op? {δ : Type} (cue : Cue) (r : Realm δ) : Thread δ → Option Store.Op
  | .caller point => point.op? cue r
  | .worker w => w.op?
  | .timer t => t.op?
  | .answered _ => none

-- ---------------------------------------------------------------------------
-- What is touched
-- ---------------------------------------------------------------------------

/-- Parts of a realm that few steps touch. -/
inductive Part where
  | admission
  | lifecycle
  | invocations
  | queue
  /-- Which token every run is bound to, and which were handed out. -/
  | bindings
  /-- Which tokens are raised. -/
  | signals
  /-- The count of repeated attempts. -/
  | retries
  deriving DecidableEq

def AdmissionPoint.touched : AdmissionPoint → List Part
  | .queueing _ => [.queue, .admission]
  | _ => [.admission]

def Cancellation.touched : Cancellation → List Part
  | .unqueueing _ => [.queue]
  | .signalling _ => [.signals]
  | _ => []

def Shutdown.touched : Shutdown → List Part
  | .closing _ => [.queue, .lifecycle]
  | .striking .. => [.signals, .lifecycle]
  | _ => [.lifecycle]

def Startup.touched : Startup → List Part
  | .queueing .. => [.queue, .lifecycle]
  | _ => [.lifecycle]

def Call.touched : Call → List Part
  | .pause | .unpause => [.queue]
  | _ => []

def CallPoint.touched : CallPoint → List Part
  | .made call => call.touched
  | .admitting _ point => point.touched
  | .starting point => point.touched
  | .stopping point => point.touched
  | .canceling point => point.touched
  | .scheduling _ | .declaring _ => []

def Timer.touched : Timer → List Part
  | .firing _ _ _ _ point => point.touched
  | _ => []

def Worker.touched {δ : Type} : Worker δ → List Part
  | .idle => [.queue]
  | .requeueing _ => [.queue, .retries]
  | .entering _ | .leaving _ => [.bindings]
  | .claimed .. => [.invocations, .signals]
  | _ => []

/-- The parts that a thread's step may touch. -/
def Thread.touched {δ : Type} : Thread δ → List Part
  | .caller point => point.touched
  | .worker w => w.touched
  | .timer t => t.touched
  | .answered _ => []

section Touched

variable {part : Part}

theorem AdmissionPoint.mem_touched {point : AdmissionPoint} (h : part ∈ point.touched) :
    (part = .queue ∧ ∃ record, point = .queueing record) ∨ part = .admission := by
  cases point <;> simp_all [touched]

theorem Cancellation.mem_touched {point : Cancellation} (h : part ∈ point.touched) :
    (part = .queue ∧ ∃ record, point = .unqueueing record) ∨
      (part = .signals ∧ ∃ record, point = .signalling record) := by
  cases point <;> simp_all [touched]

theorem Shutdown.mem_touched {point : Shutdown} (h : part ∈ point.touched) :
    (part = .queue ∧ ∃ drain, point = .closing drain) ∨
      (part = .signals ∧ ∃ stuck report, point = .striking stuck report) ∨ part = .lifecycle := by
  cases point <;> simp_all [touched]

theorem Startup.mem_touched {point : Startup} (h : part ∈ point.touched) :
    (part = .queue ∧ ∃ id rest, point = .queueing id rest) ∨ part = .lifecycle := by
  cases point <;> simp_all [touched]

theorem Call.mem_touched {call : Call} (h : part ∈ call.touched) :
    part = .queue ∧ (call = .pause ∨ call = .unpause) := by
  cases call <;> simp_all [touched]

theorem Worker.mem_touched {δ : Type} {w : Worker δ} (h : part ∈ w.touched) :
    (part = .queue ∧ (w = .idle ∨ ∃ record, w = .requeueing record)) ∨
      (part = .bindings ∧ ∃ id, w = .entering id ∨ w = .leaving id) ∨
      ((part = .invocations ∨ part = .signals) ∧ ∃ record token, w = .claimed record token) ∨
      (part = .retries ∧ ∃ record, w = .requeueing record) := by
  cases w <;> simp_all [touched]

theorem CallPoint.mem_touched {point : CallPoint} (h : part ∈ point.touched) :
    part = .queue ∨ (part = .admission ∧ ∃ a at', point = .admitting a at') ∨
      (part = .lifecycle ∧ ((∃ at', point = .starting at') ∨ ∃ at', point = .stopping at')) ∨
      (part = .signals ∧ ((∃ record, point = .canceling (.signalling record)) ∨
        ∃ at', point = .stopping at')) := by
  cases point with
  | made call => exact .inl (Call.mem_touched h).1
  | admitting a at' =>
    rcases AdmissionPoint.mem_touched h with ⟨hQueue, -⟩ | hAdmission
    · exact .inl hQueue
    · exact .inr (.inl ⟨hAdmission, a, at', rfl⟩)
  | starting at' =>
    rcases Startup.mem_touched h with ⟨hQueue, -⟩ | hLifecycle
    · exact .inl hQueue
    · exact .inr (.inr (.inl ⟨hLifecycle, .inl ⟨at', rfl⟩⟩))
  | stopping at' =>
    rcases Shutdown.mem_touched h with ⟨hQueue, -⟩ | ⟨hSignals, -⟩ | hLifecycle
    · exact .inl hQueue
    · exact .inr (.inr (.inr ⟨hSignals, .inr ⟨at', rfl⟩⟩))
    · exact .inr (.inr (.inl ⟨hLifecycle, .inr ⟨at', rfl⟩⟩))
  | canceling at' =>
    rcases Cancellation.mem_touched h with ⟨hQueue, -⟩ | ⟨hSignals, record, rfl⟩
    · exact .inl hQueue
    · exact .inr (.inr (.inr ⟨hSignals, .inl ⟨record, rfl⟩⟩))
  | scheduling => cases h
  | declaring => cases h

theorem Timer.mem_touched {t : Timer} (h : part ∈ t.touched) :
    (part = .queue ∨ part = .admission) ∧
      ∃ now id rest a point, t = .firing now id rest a point := by
  cases t with
  | firing now id rest a point =>
    exact ⟨(AdmissionPoint.mem_touched h).imp_left (·.1), now, id, rest, a, point, rfl⟩
  | resting | waiting | passing | checking | noting | retired => cases h

/-- Only workers call definitions and bind runs to tokens. -/
theorem Thread.worker_of_mem_touched {δ : Type} {th : Thread δ} (h : part ∈ th.touched)
    (hPart : part = .invocations ∨ part = .bindings) : ∃ w, th = .worker w ∧ part ∈ w.touched := by
  cases th with
  | worker w => exact ⟨w, rfl, h⟩
  | caller point =>
    rcases CallPoint.mem_touched h with rfl | ⟨rfl, -⟩ | ⟨rfl, -⟩ | ⟨rfl, -⟩ <;> simp at hPart
  | timer t =>
    obtain ⟨rfl | rfl, -⟩ := Timer.mem_touched h <;> simp at hPart
  | answered => cases h

end Touched

/-- What a step does to the realm: it asks the store for an operation and leaves alone what it may
not touch. -/
structure Effect {δ : Type} (cue : Cue) (op : Option Store.Op) (touched : List Part)
    (r r' : Realm δ) : Prop where
  store : r'.store = cue.act r.store op
  raised : ∀ token, r.tokens.isRaised token = true → r'.tokens.isRaised token = true
  stopping : r.stopping = true → r'.stopping = true
  settings : r'.settings = r.settings
  registry : r'.registry = r.registry
  admission : .admission ∉ touched → r'.admissionHeld = r.admissionHeld
  lifecycle : .lifecycle ∉ touched →
    r'.lifecycle = r.lifecycle ∧ r'.lifecycleHeld = r.lifecycleHeld ∧ r'.stopping = r.stopping
  invocations : .invocations ∉ touched → r'.invocations = r.invocations
  queue : .queue ∉ touched → r'.queue = r.queue
  bindings : .bindings ∉ touched →
    r'.tokens.running = r.tokens.running ∧ r'.tokens.issued = r.tokens.issued
  signals : .signals ∉ touched → r'.tokens.raised = r.tokens.raised
  retries : .retries ∉ touched → r'.counters.retried = r.counters.retried

/-- A run that is over is not counted as repeated. -/
theorem Counters.retried_addFinal (c : Counters) (state : JobState) :
    (c.addFinal state).retried = c.retried := by
  cases state <;> rfl

namespace Tokens

theorem isRaised_raise_of_isRaised {t : Tokens} {token other : Token}
    (h : t.isRaised token = true) : (t.raise other).isRaised token = true := by
  simp only [isRaised, raise, List.contains_cons, Bool.or_eq_true]
  exact .inr h

@[simp] theorem isRaised_raise_self (t : Tokens) (token : Token) :
    (t.raise token).isRaised token = true := by
  simp [isRaised, raise]

theorem isRaised_signal_of_isRaised {t : Tokens} {token : Token} (id : JobId)
    (h : t.isRaised token = true) : (t.signal id).isRaised token = true := by
  unfold signal
  cases t.find? id with
  | none => exact h
  | some other => exact isRaised_raise_of_isRaised h

/-- A signal raises a token and binds no run to another one. -/
theorem signal_bindings (t : Tokens) (id : JobId) :
    (t.signal id).running = t.running ∧ (t.signal id).issued = t.issued := by
  unfold signal
  cases t.find? id <;> exact ⟨rfl, rfl⟩

end Tokens

section Procedures

variable {δ : Type} {cue : Cue} {r r₁ r' : Realm δ} {op : Option Store.Op} {touched : List Part}

namespace Effect

theorem refl : Effect cue none touched r r :=
  ⟨rfl, fun _ h => h, fun h => h, rfl, rfl, fun _ => rfl, fun _ => ⟨rfl, rfl, rfl⟩, fun _ => rfl,
    fun _ => rfl, fun _ => ⟨rfl, rfl⟩, fun _ => rfl, fun _ => rfl⟩

/-- A step may change more of the realm after it had the store do something. -/
theorem andThen (h : Effect cue op touched r r₁) (h' : Effect cue none touched r₁ r') :
    Effect cue op touched r r' where
  store := h'.store.trans h.store
  raised token hRaised := h'.raised token (h.raised token hRaised)
  stopping hStopping := h'.stopping (h.stopping hStopping)
  settings := h'.settings.trans h.settings
  registry := h'.registry.trans h.registry
  admission hNot := (h'.admission hNot).trans (h.admission hNot)
  lifecycle hNot := by
    obtain ⟨hLifecycle, hHeld, hStopping⟩ := h.lifecycle hNot
    obtain ⟨hLifecycle', hHeld', hStopping'⟩ := h'.lifecycle hNot
    exact ⟨hLifecycle'.trans hLifecycle, hHeld'.trans hHeld, hStopping'.trans hStopping⟩
  invocations hNot := (h'.invocations hNot).trans (h.invocations hNot)
  queue hNot := (h'.queue hNot).trans (h.queue hNot)
  bindings hNot := by
    obtain ⟨hRunning, hIssued⟩ := h.bindings hNot
    obtain ⟨hRunning', hIssued'⟩ := h'.bindings hNot
    exact ⟨hRunning'.trans hRunning, hIssued'.trans hIssued⟩
  signals hNot := (h'.signals hNot).trans (h.signals hNot)
  retries hNot := (h'.retries hNot).trans (h.retries hNot)

/-- Having the store do something has no other effect. -/
theorem asked (h : r' = { r with store := cue.act r.store op }) : Effect cue op touched r r' := by
  subst h
  exact ⟨rfl, fun _ h => h, fun h => h, rfl, rfl, fun _ => rfl, fun _ => ⟨rfl, rfl, rfl⟩,
    fun _ => rfl, fun _ => rfl, fun _ => ⟨rfl, rfl⟩, fun _ => rfl, fun _ => rfl⟩

theorem of_transition {id : JobId} {expected : JobState} {t : Transition}
    {result : Except StoreError JobRecord} (h : r.transition cue id expected t = (result, r')) :
    Effect cue (some (.transition id expected t)) touched r r' :=
  asked (by rw [← r.transition_realm cue id expected t, h])

theorem of_requestCancel {id : JobId} {result : Except StoreError JobRecord}
    (h : r.tell cue (·.requestCancel id cue.now) = (result, r')) :
    Effect cue (some (.requestCancel id)) touched r r' :=
  asked (by rw [← r.requestCancel_realm cue id, h])

theorem of_create {record : JobRecord} {result : Except StoreError Unit}
    (h : (r.tell cue fun s => (s.create record).map (Prod.mk ())) = (result, r')) :
    Effect cue (some (.create record)) touched r r' :=
  asked (by rw [← r.create_realm cue record, h])

theorem of_deleteTerminal {ids : List JobId} {result : Except StoreError Nat}
    (h : (r.tell cue fun s => .ok (s.deleteTerminal ids)) = (result, r')) :
    Effect cue (some (.deleteTerminal ids)) touched r r' :=
  asked (by rw [← r.deleteTerminal_realm cue ids, h])

theorem of_deleteFinishedBefore {cutoff : Instant} {result : Except StoreError Nat}
    (h : (r.tell cue fun s => .ok (s.deleteFinishedBefore cutoff)) = (result, r')) :
    Effect cue (some (.deleteFinishedBefore cutoff)) touched r r' :=
  asked (by rw [← r.deleteFinishedBefore_realm cue cutoff, h])

/-- A step may work on the triggers and the log, and on the admission lock and the queue if it may
touch them. -/
theorem elsewhere (h : r' = { r with
      queue := r'.queue, triggers := r'.triggers, triggersHeld := r'.triggersHeld,
      counters := r'.counters, offers := r'.offers, admissionHeld := r'.admissionHeld })
    (hAdmission : .admission ∉ touched → r'.admissionHeld = r.admissionHeld)
    (hQueue : .queue ∉ touched → r'.queue = r.queue)
    (hRetries : .retries ∉ touched → r'.counters.retried = r.counters.retried) :
    Effect cue none touched r r' where
  store := by rw [h]; rfl
  raised token hRaised := by rw [h]; exact hRaised
  stopping hStopping := by rw [h]; exact hStopping
  settings := by rw [h]
  registry := by rw [h]
  admission := hAdmission
  lifecycle _ := by rw [h]; exact ⟨rfl, rfl, rfl⟩
  invocations _ := by rw [h]
  queue := hQueue
  bindings _ := by rw [h]; exact ⟨rfl, rfl⟩
  signals _ := by rw [h]
  retries := hRetries

end Effect

theorem AdmissionPoint.admission_mem_touched (point : AdmissionPoint) :
    .admission ∈ point.touched := by
  cases point <;> simp [touched]

theorem Shutdown.lifecycle_mem_touched (point : Shutdown) : .lifecycle ∈ point.touched := by
  cases point <;> simp [touched]

theorem Startup.lifecycle_mem_touched (point : Startup) : .lifecycle ∈ point.touched := by
  cases point <;> simp [touched]

theorem Admission.effect {a : Admission} {point : AdmissionPoint}
    {p : Progress AdmissionPoint (Except JobError JobRecord)}
    (h : a.step cue r point = some (r', p)) : Effect cue point.op? point.touched r r' := by
  have hLock : Part.admission ∉ point.touched → ∀ {q q' : Realm δ},
      q'.admissionHeld = q.admissionHeld :=
    fun hNot => absurd point.admission_mem_touched hNot
  cases point with
  | waiting =>
    simp only [step] at h
    split at h
    · cases h
    · cases h
      exact .elsewhere rfl (fun hNot => hLock hNot) (fun _ => rfl) fun _ => rfl
  | checking =>
    simp only [step] at h
    split at h
    · cases h
      exact .elsewhere rfl (fun hNot => hLock hNot) (fun _ => rfl) fun _ => rfl
    · split at h
      · cases h
        exact .elsewhere rfl (fun hNot => hLock hNot) (fun _ => rfl) fun _ => rfl
      · cases h
        exact .refl
  | creating record =>
    simp only [step] at h
    split at h
    · next r₁ hTold =>
      cases h
      exact .of_create hTold
    · next e r₁ hTold =>
      cases h
      exact (Effect.of_create hTold).andThen (.elsewhere rfl (fun hNot => hLock hNot)
        (fun _ => rfl) fun _ => rfl)
  | queueing record =>
    cases h
    exact .elsewhere rfl (fun hNot => hLock hNot) (fun hNot => absurd List.mem_cons_self hNot)
      fun _ => rfl
  | counting record =>
    cases h
    exact .elsewhere rfl (fun hNot => hLock hNot) (fun _ => rfl) fun _ => rfl

theorem Cancellation.effect {point : Cancellation}
    {p : Progress Cancellation (Except JobError JobRecord)} (h : point.step cue r = (r', p)) :
    Effect cue point.op? point.touched r r' := by
  cases point with
  | looking id =>
    simp only [step] at h
    split at h
    · cases h
      exact .refl
    · split at h <;> cases h <;> exact .refl
  | revoking id =>
    simp only [step] at h
    split at h <;> next hTold => cases h; exact .of_transition hTold
  | unqueueing record =>
    cases h
    exact .elsewhere rfl (fun _ => rfl) (fun hNot => absurd List.mem_cons_self hNot)
      fun _ => rfl
  | finishing record =>
    cases h
    exact .elsewhere rfl (fun _ => rfl) (fun _ => rfl) fun _ =>
      Counters.retried_addFinal _ _
  | marking id =>
    simp only [step] at h
    split at h <;> next hTold => cases h; exact .of_requestCancel hTold
  | signalling record =>
    cases h
    exact ⟨rfl, fun _ => Tokens.isRaised_signal_of_isRaised record.id, fun h => h, rfl, rfl,
      fun _ => rfl, fun _ => ⟨rfl, rfl, rfl⟩, fun _ => rfl, fun _ => rfl,
      fun _ => Tokens.signal_bindings r.tokens record.id,
      fun hNot => absurd List.mem_cons_self hNot, fun _ => rfl⟩

theorem Registration.effect {point : Registration}
    {p : Progress Registration (Except JobError TriggerId)}
    (h : point.step cue r = some (r', p)) : Effect cue none touched r r' := by
  cases point with
  | opening request =>
    simp only [step] at h
    split at h <;> cases h <;> exact .refl
  | inserting id entry =>
    simp only [step] at h
    split at h
    · cases h
    · cases h
      exact .elsewhere rfl (fun _ => rfl) (fun _ => rfl) fun _ => rfl

theorem Declaration.effect {point : Declaration}
    {p : Progress Declaration (Except JobError (List TriggerId))}
    (h : point.step cue r = some (r', p)) : Effect cue none touched r r' := by
  cases point with
  | next rest made =>
    cases rest with
    | nil =>
      cases h
      exact .refl
    | cons settings rest =>
      simp only [step] at h
      split at h <;> cases h <;> exact .refl
  | registering point rest made =>
    obtain ⟨⟨r₁, q⟩, hStep, hEq⟩ := Option.map_eq_some_iff.mp h
    have hEffect : Effect cue none touched r r₁ := Registration.effect hStep
    split at hEq <;> next hPair => cases hPair; cases hEq; exact hEffect

theorem Shutdown.effect {point : Shutdown} {p : Progress Shutdown ShutdownReport}
    (h : point.step cue r = some (r', p)) : Effect cue point.op? point.touched r r' := by
  have hLifecycle : .lifecycle ∉ point.touched → ∀ {q q' : Realm δ}, q'.lifecycle = q.lifecycle ∧
      q'.lifecycleHeld = q.lifecycleHeld ∧ q'.stopping = q.stopping :=
    fun hNot => absurd point.lifecycle_mem_touched hNot
  cases point with
  | waiting =>
    simp only [step] at h
    split at h
    · cases h
    · split at h <;> cases h
      · exact .refl
      all_goals
        exact ⟨rfl, fun _ h => h, fun h => h, rfl, rfl, fun _ => rfl, fun hNot => hLifecycle hNot,
          fun _ => rfl, fun _ => rfl, fun _ => ⟨rfl, rfl⟩, fun _ => rfl, fun _ => rfl⟩
  | marking drain =>
    cases h
    exact ⟨rfl, fun _ h => h, fun _ => rfl, rfl, rfl, fun _ => rfl, fun hNot => hLifecycle hNot,
      fun _ => rfl, fun _ => rfl, fun _ => ⟨rfl, rfl⟩, fun _ => rfl, fun _ => rfl⟩
  | closing drain =>
    simp only [step] at h
    split at h <;> cases h
    all_goals
      exact ⟨rfl, fun _ h => h, fun h => h, rfl, rfl, fun _ => rfl, fun hNot => hLifecycle hNot,
        fun _ => rfl, fun hNot => absurd List.mem_cons_self hNot, fun _ => ⟨rfl, rfl⟩,
        fun _ => rfl, fun _ => rfl⟩
  | draining deadline =>
    simp only [step] at h
    split at h
    · cases h
      exact .refl
    · split at h <;> cases h
      exact .refl
  | striking stuck report =>
    cases stuck with
    | nil =>
      cases h
      exact ⟨rfl, fun _ h => h, fun h => h, rfl, rfl, fun _ => rfl, fun hNot => hLifecycle hNot,
        fun _ => rfl, fun _ => rfl, fun _ => ⟨rfl, rfl⟩, fun _ => rfl, fun _ => rfl⟩
    | cons entry stuck =>
      cases h
      exact ⟨rfl, fun _ => Tokens.isRaised_raise_of_isRaised, fun h => h, rfl, rfl, fun _ => rfl,
        fun hNot => hLifecycle hNot, fun _ => rfl, fun _ => rfl, fun _ => ⟨rfl, rfl⟩,
        fun hNot => absurd List.mem_cons_self hNot, fun _ => rfl⟩
  | interrupting id stuck report =>
    simp only [step] at h
    split at h <;> next hTold => cases h; exact .of_transition hTold
  | finishing record stuck report =>
    cases h
    exact .elsewhere rfl (fun _ => rfl) (fun _ => rfl) fun _ =>
      Counters.retried_addFinal _ _

theorem Startup.effect {point : Startup} {p : Progress Startup (Except JobError Unit)}
    (h : point.step cue r = some (r', p)) : Effect cue point.op? point.touched r r' := by
  have hLifecycle : .lifecycle ∉ point.touched → ∀ {q q' : Realm δ}, q'.lifecycle = q.lifecycle ∧
      q'.lifecycleHeld = q.lifecycleHeld ∧ q'.stopping = q.stopping :=
    fun hNot => absurd point.lifecycle_mem_touched hNot
  have hReleased : ∀ q : Realm δ,
      Effect cue none point.touched q { q with lifecycleHeld := false } := fun q =>
    ⟨rfl, fun _ h => h, fun h => h, rfl, rfl, fun _ => rfl, fun hNot => hLifecycle hNot,
      fun _ => rfl, fun _ => rfl, fun _ => ⟨rfl, rfl⟩, fun _ => rfl, fun _ => rfl⟩
  cases point with
  | waiting =>
    simp only [step] at h
    split at h
    · cases h
    · split at h <;> cases h
      · exact .refl
      · exact .refl
      · exact ⟨rfl, fun _ h => h, fun h => h, rfl, rfl, fun _ => rfl, fun hNot => hLifecycle hNot,
          fun _ => rfl, fun _ => rfl, fun _ => ⟨rfl, rfl⟩, fun _ => rfl, fun _ => rfl⟩
  | listing =>
    simp only [step] at h
    split at h <;> cases h
    · exact hReleased r
    · exact .refl
  | recovering rest =>
    cases rest with
    | nil =>
      cases h
      exact .refl
    | cons record rest =>
      simp only [step] at h
      split at h
      · next hState =>
        cases h
        rw [op?, hState]
        exact .refl
      · next hState =>
        rw [op?, hState]
        split at h
        · next hTold =>
          cases h
          exact .of_transition hTold
        · next hTold =>
          cases h
          exact .of_transition hTold
        · next r₁ _ hTold =>
          cases h
          exact (Effect.of_transition hTold).andThen (hReleased r₁)
      · next hQueued hRunning =>
        cases h
        rw [op?, if_neg hRunning]
        exact .refl
  | queueing id rest =>
    cases h
    exact .elsewhere rfl (fun _ => rfl) (fun hNot => absurd List.mem_cons_self hNot)
      fun _ => rfl
  | finishing record rest =>
    cases h
    exact .elsewhere rfl (fun _ => rfl) (fun _ => rfl) fun _ =>
      Counters.retried_addFinal _ _
  | opening =>
    cases h
    exact ⟨rfl, fun _ h => h, fun h => h, rfl, rfl, fun _ => rfl, fun hNot => hLifecycle hNot,
      fun _ => rfl, fun _ => rfl, fun _ => ⟨rfl, rfl⟩, fun _ => rfl, fun _ => rfl⟩

theorem Call.effect {call : Call} {p : Progress CallPoint Answer}
    (h : call.begin cue r = some (r', p)) : Effect cue (call.op? cue r) call.touched r r' := by
  cases call with
  | submit request =>
    simp only [begin] at h
    split at h
    · cases h
      exact .refl
    · split at h
      · cases h
        exact .refl
      · split at h <;> cases h <;> exact .refl
  | reschedule id times =>
    simp only [begin, onTrigger] at h
    split at h
    · cases h
    · split at h <;> cases h
      · exact .refl
      · exact .elsewhere rfl (fun _ => rfl) (fun _ => rfl) fun _ => rfl
  | unschedule id =>
    simp only [begin, onTrigger] at h
    split at h
    · cases h
    · split at h <;> cases h
      · exact .refl
      · exact .elsewhere rfl (fun _ => rfl) (fun _ => rfl) fun _ => rfl
  | triggers =>
    simp only [begin] at h
    split at h <;> cases h
    exact .refl
  | pause | unpause =>
    cases h
    exact .elsewhere rfl (fun _ => rfl) (fun hNot => absurd List.mem_cons_self hNot)
      fun _ => rfl
  | delete ids =>
    cases h
    exact .of_deleteTerminal rfl
  | purge =>
    simp only [begin] at h
    split at h
    · next hCutoff =>
      cases h
      rw [op?, hCutoff]
      exact .refl
    · next cutoff hCutoff =>
      cases h
      rw [op?, hCutoff]
      exact .of_deleteFinishedBefore rfl
  | start | shutdown | cancel _ | status _ | list _ | listGroup _ | schedule _ | declare _
  | stats =>
    cases h
    exact .refl

theorem Timer.effect {t t' : Timer} (h : t.step cue r = some (r', t')) :
    Effect cue t.op? t.touched r r' := by
  cases t with
  | resting =>
    cases h
    exact .refl
  | waiting now =>
    simp only [step] at h
    split at h <;> cases h
    exact .elsewhere rfl (fun _ => rfl) (fun _ => rfl) fun _ => rfl
  | passing now rest =>
    cases rest with
    | nil =>
      cases h
      exact .elsewhere rfl (fun _ => rfl) (fun _ => rfl) fun _ => rfl
    | cons id rest =>
      simp only [step] at h
      split at h
      · cases h
        exact .refl
      · split at h
        · split at h <;> cases h <;> exact .elsewhere rfl (fun _ => rfl) (fun _ => rfl) fun _ => rfl
        · cases h
          exact .refl
  | checking now id last rest =>
    simp only [step] at h
    split at h <;> cases h <;> exact .refl
  | firing now id rest a point =>
    obtain ⟨⟨r₁, p⟩, hStep, hEq⟩ := Option.map_eq_some_iff.mp h
    have hEffect := Admission.effect hStep
    split at hEq <;> next hPair => cases hPair; cases hEq; exact hEffect
  | noting now id rest made =>
    cases made <;> cases h <;> exact .elsewhere rfl (fun _ => rfl) (fun _ => rfl) fun _ => rfl
  | retired => cases h

theorem Worker.effect {w w' : Worker δ} (h : w.step cue r = some (r', w')) :
    Effect cue w.op? w.touched r r' := by
  cases w with
  | idle =>
    simp only [step] at h
    split at h
    · cases h
      exact .refl
    · obtain ⟨⟨id, queue⟩, -, hEq⟩ := Option.map_eq_some_iff.mp h
      cases hEq
      exact .elsewhere rfl (fun _ => rfl) (fun hNot => absurd List.mem_cons_self hNot)
        fun _ => rfl
  | taken id =>
    cases h
    exact .refl
  | entering id =>
    cases h
    exact ⟨rfl, fun _ h => h, fun h => h, rfl, rfl, fun _ => rfl, fun _ => ⟨rfl, rfl, rfl⟩,
      fun _ => rfl, fun _ => rfl, fun hNot => absurd List.mem_cons_self hNot, fun _ => rfl,
      fun _ => rfl⟩
  | claiming id token =>
    simp only [step] at h
    split at h <;> next hTold => cases h; exact .of_transition hTold
  | claimed record token =>
    simp only [step] at h
    split at h <;> cases h <;> split
    · exact ⟨rfl, fun _ => Tokens.isRaised_raise_of_isRaised, fun h => h, rfl, rfl,
        fun _ => rfl, fun _ => ⟨rfl, rfl, rfl⟩, fun hNot => absurd List.mem_cons_self hNot,
        fun _ => rfl, fun _ => ⟨rfl, rfl⟩,
        fun hNot => absurd (by simp [touched]) hNot, fun _ => rfl⟩
    · exact ⟨rfl, fun _ h => h, fun h => h, rfl, rfl, fun _ => rfl, fun _ => ⟨rfl, rfl, rfl⟩,
        fun hNot => absurd List.mem_cons_self hNot, fun _ => rfl, fun _ => ⟨rfl, rfl⟩,
        fun _ => rfl, fun _ => rfl⟩
    · exact ⟨rfl, fun _ => Tokens.isRaised_raise_of_isRaised, fun h => h, rfl, rfl,
        fun _ => rfl, fun _ => ⟨rfl, rfl, rfl⟩, fun hNot => absurd List.mem_cons_self hNot,
        fun _ => rfl, fun _ => ⟨rfl, rfl⟩,
        fun hNot => absurd (by simp [touched]) hNot, fun _ => rfl⟩
    · exact .refl
  | executing record token definition =>
    cases h
    exact .refl
  | judging record token outcome =>
    cases h
    exact .refl
  | recording record t =>
    simp only [step] at h
    split at h <;> next hTold => cases h; exact .of_transition hTold
  | withdrawing record =>
    simp only [step] at h
    split at h <;> next hTold => cases h; exact .of_transition hTold
  | requeueing record =>
    cases h
    exact .elsewhere rfl (fun _ => rfl) (fun hNot => absurd List.mem_cons_self hNot)
      fun hNot => absurd (by simp [touched]) hNot
  | finishing record =>
    cases h
    exact .elsewhere rfl (fun _ => rfl) (fun _ => rfl) fun _ =>
      Counters.retried_addFinal _ _
  | leaving id =>
    cases h
    exact ⟨rfl, fun _ h => h, fun h => h, rfl, rfl, fun _ => rfl, fun _ => ⟨rfl, rfl, rfl⟩,
      fun _ => rfl, fun _ => rfl, fun hNot => absurd List.mem_cons_self hNot, fun _ => rfl,
      fun _ => rfl⟩
  | retired => cases h

/-- A call follows one of its procedures. -/
theorem CallPoint.effect {point : CallPoint} {p : Progress CallPoint Answer}
    (h : point.step cue r = some (r', p)) :
    Effect cue (point.op? cue r) point.touched r r' := by
  cases point with
  | made call => exact Call.effect h
  | canceling point =>
    obtain ⟨q, hq⟩ := lift_eq (Option.some.inj h)
    exact Cancellation.effect hq
  | admitting a point =>
    obtain ⟨x, hStep, hx⟩ := Option.map_eq_some_iff.mp h
    obtain ⟨q, rfl⟩ := lift_eq hx
    exact Admission.effect hStep
  | starting point =>
    obtain ⟨x, hStep, hx⟩ := Option.map_eq_some_iff.mp h
    obtain ⟨q, rfl⟩ := lift_eq hx
    exact Startup.effect hStep
  | stopping point =>
    obtain ⟨x, hStep, hx⟩ := Option.map_eq_some_iff.mp h
    obtain ⟨q, rfl⟩ := lift_eq hx
    exact Shutdown.effect hStep
  | scheduling point =>
    obtain ⟨x, hStep, hx⟩ := Option.map_eq_some_iff.mp h
    obtain ⟨q, rfl⟩ := lift_eq hx
    exact Registration.effect hStep
  | declaring point =>
    obtain ⟨x, hStep, hx⟩ := Option.map_eq_some_iff.mp h
    obtain ⟨q, rfl⟩ := lift_eq hx
    exact Declaration.effect hStep

theorem Thread.effect {th th' : Thread δ} {crew : List (Thread δ)}
    (h : th.step cue r = some (r', th', crew)) : Effect cue (th.op? cue r) th.touched r r' := by
  cases th with
  | caller point =>
    obtain ⟨⟨q, progress⟩, hStep, hEq⟩ := Option.map_eq_some_iff.mp h
    cases progress <;> cases hEq <;> exact CallPoint.effect hStep
  | worker w =>
    obtain ⟨⟨q, w'⟩, hStep, hEq⟩ := Option.map_eq_some_iff.mp h
    cases hEq
    exact Worker.effect hStep
  | timer t =>
    obtain ⟨⟨q, t'⟩, hStep, hEq⟩ := Option.map_eq_some_iff.mp h
    cases hEq
    exact Timer.effect hStep
  | answered answer => cases h

end Procedures

-- ---------------------------------------------------------------------------
-- What the store is asked to do
-- ---------------------------------------------------------------------------

namespace System

variable {δ : Type} {s u : System δ} {e : Event}

/-- What an event has the store do, and at which time. -/
def op? (s : System δ) : Event → Option (Store.Op × Instant)
  | .call _ => none
  | .advance i cue =>
    match cue.fault with
    | some _ => none
    | none => (s.threads[i]?.bind (·.op? cue s.realm)).map fun op => (op, cue.now)
  | .sweep cutoff => some (.deleteFinishedBefore cutoff, cutoff)

/-- An event of a thread has the store do what the thread asks for, unless the store is in
trouble. -/
theorem op?_advance_eq_some {i : Nat} {cue : Cue} {op : Store.Op} {now : Instant} :
    s.op? (.advance i cue) = some (op, now) ↔
      cue.fault = none ∧ now = cue.now ∧
        ∃ th, s.threads[i]? = some th ∧ th.op? cue s.realm = some op := by
  simp only [op?]
  cases cue.fault with
  | some text => simp
  | none =>
    simp only [Option.map_eq_some_iff, Option.bind_eq_some_iff, Prod.mk.injEq, true_and]
    constructor
    · rintro ⟨op', hThread, rfl, rfl⟩
      exact ⟨rfl, hThread⟩
    · rintro ⟨rfl, hThread⟩
      exact ⟨op, hThread, rfl, rfl⟩

theorem store_of_step (h : s.step e = some u) :
    u.realm.store = (s.op? e).elim s.realm.store fun x => s.realm.store.perform x.2 x.1 := by
  cases e with
  | call call =>
    cases h
    rfl
  | sweep cutoff =>
    cases h
    rfl
  | advance i cue =>
    obtain ⟨th, r', th', crew, hAt, hStep, rfl⟩ := step_advance h
    rw [(Thread.effect hStep).store]
    simp only [op?, Cue.act, hAt, Option.bind_some]
    cases th.op? cue s.realm <;> cases cue.fault <;> rfl

/-- A realm that is stopping goes on to stop. -/
theorem stopping_of_step (h : s.step e = some u) (hStopping : s.realm.stopping = true) :
    u.realm.stopping = true := by
  cases e with
  | call call =>
    cases h
    exact hStopping
  | sweep cutoff =>
    cases h
    exact hStopping
  | advance i cue =>
    obtain ⟨th, r', th', crew, -, hThread, rfl⟩ := step_advance h
    exact (Thread.effect hThread).stopping hStopping

/-- A realm that goes on after a step went on before it. -/
theorem goesOn_of_step (h : s.step e = some u) (hGoesOn : u.realm.stopping = false) :
    s.realm.stopping = false := by
  by_contra hStops
  rw [stopping_of_step h (by simpa using hStops)] at hGoesOn
  cases hGoesOn

/-- A token that was raised stays raised. -/
theorem raised_of_step {token : Token} (h : s.step e = some u)
    (hRaised : s.realm.tokens.isRaised token = true) :
    u.realm.tokens.isRaised token = true := by
  cases e with
  | call call =>
    cases h
    exact hRaised
  | sweep cutoff =>
    cases h
    exact hRaised
  | advance i cue =>
    obtain ⟨th, r', th', crew, -, hThread, rfl⟩ := step_advance h
    exact (Thread.effect hThread).raised token hRaised

end System

end BackgroundJobs
