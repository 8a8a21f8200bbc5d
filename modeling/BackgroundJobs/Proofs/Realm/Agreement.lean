import BackgroundJobs.Proofs.Realm.Census
import BackgroundJobs.Proofs.Realm.Dispatch
import BackgroundJobs.Proofs.Realm.Reports

/-!
# Proofs — the views of a realm agree

The store, the queue, the table of tokens and the counters each tell something of
the same runs, and no step changes more than one of them. In the middle of an
operation they differ, by what its thread has in hand. So while operations come
one after the other, each as a whole, the queue holds the runs that wait, the
table binds those that go on, and the counters add up.

Main results:

* `Thread.agreed_step`  — one step, with what its thread has in hand before and after.
* `agrees_of_run`       — the agreement, after every run of whole operations.
* `views_of_run`        — what it comes to when no operation is under way.
-/

namespace BackgroundJobs

-- ---------------------------------------------------------------------------
-- What a thread has in hand
-- ---------------------------------------------------------------------------

/-- By what a thread in the middle of an operation sets the views of its realm apart. -/
structure Pending where
  /-- Runs that wait and are in no queue. -/
  held : List JobId := []
  /-- Runs that are in the queue and do not wait any more. -/
  stale : List JobId := []
  /-- Runs that are bound to a token and do not go on. -/
  bound : List JobId := []

def AdmissionPoint.pending : AdmissionPoint → Pending
  | .queueing record => { held := [record.id] }
  | _ => {}

def Cancellation.pending : Cancellation → Pending
  | .unqueueing record => { stale := [record.id] }
  | _ => {}

def Timer.pending : Timer → Pending
  | .firing _ _ _ _ point => point.pending
  | _ => {}

def CallPoint.pending : CallPoint → Pending
  | .admitting _ point => point.pending
  | .canceling point => point.pending
  | _ => {}

section Threads

variable {δ : Type}

def Worker.pending : Worker δ → Pending
  | .taken id | .entering id => { held := [id] }
  | .claiming id _ => { held := [id], bound := [id] }
  | .withdrawing record | .requeueing record => { held := [record.id], bound := [record.id] }
  | .finishing record => { bound := [record.id] }
  | .leaving id => { bound := [id] }
  | _ => {}

def Thread.pending : Thread δ → Pending
  | .caller point => point.pending
  | .worker w => w.pending
  | .timer t => t.pending
  | .answered _ => {}

/-- Is a worker between two operations? It may be inside a definition then. -/
def Worker.atRest : Worker δ → Bool
  | .idle | .claimed .. | .executing .. | .judging .. | .recording .. | .retired => true
  | _ => false

/-- Is the timer between two operations? It may be in the middle of a pass then. -/
def Timer.atRest : Timer → Bool
  | .resting | .waiting _ | .passing .. | .retired => true
  | _ => false

/-- Is a thread between two operations? -/
def Thread.atRest : Thread δ → Bool
  | .caller (.made _) | .answered _ => true
  | .caller _ => false
  | .worker w => w.atRest
  | .timer t => t.atRest

/-- Between two operations a thread has nothing in hand, is in no admission and owes no note. -/
theorem Thread.idle_of_atRest {th : Thread δ} (h : th.atRest = true) :
    th.pending = {} ∧ th.joining = [] ∧ th.owed? = none := by
  cases th with
  | caller point => cases point <;> first | exact ⟨rfl, rfl, rfl⟩ | cases h
  | worker w => cases w <;> first | exact ⟨rfl, rfl, rfl⟩ | cases h
  | timer t => cases t <;> first | exact ⟨rfl, rfl, rfl⟩ | cases h
  | answered answer => exact ⟨rfl, rfl, rfl⟩

end Threads

-- ---------------------------------------------------------------------------
-- Agreement
-- ---------------------------------------------------------------------------

variable {δ : Type} {cue : Cue} {r r' : Realm δ} {p p' : Pending} {id : JobId}

/-- The queue and the table of tokens agree with the store, but for what is in hand. -/
structure Agreed (r : Realm δ) (p : Pending) : Prop where
  waiting : ∀ id, r.queue.ids.count id + p.held.count id =
    (r.store.idsIn .queued).count id + p.stale.count id
  running : ∀ id, (r.tokens.running.map (·.1)).count id =
    (r.store.idsIn .running).count id + p.bound.count id

namespace Agreed

/-- A run in hand is one that waits. -/
theorem mem_idsIn_of_held (h : Agreed r p) (hHeld : id ∈ p.held) (hStale : p.stale = []) :
    id ∈ r.store.idsIn .queued := by
  have hCount := h.waiting id
  have hPos : 0 < p.held.count id := List.count_pos_iff.mpr hHeld
  rw [hStale, List.count_nil] at hCount
  exact List.count_pos_iff.mp (by omega)

/-- A step that has the store change no state, and moves nothing in the queue and the table. -/
theorem of_effect {op : Option Store.Op} {touched : List Part} (h : Agreed r p)
    (hEffect : Effect cue op touched r r') (hTame : ∀ o, op = some o → o.Tame)
    (hQueue : r'.queue.ids = r.queue.ids) (hBindings : .bindings ∉ touched) : Agreed r' p := by
  have hSame : ∀ state : JobState, state.isActive = true →
      r'.store.idsIn state = r.store.idsIn state := by
    intro state hState
    rw [hEffect.store]
    unfold Cue.act
    split
    · rfl
    · next o =>
      split
      · rfl
      · exact Store.idsIn_perform_of_tame (hTame o rfl) hState
  refine ⟨fun id => ?_, fun id => ?_⟩
  · rw [hQueue, hSame .queued rfl, h.waiting]
  · rw [(hEffect.bindings hBindings).1, hSame .running rfl, h.running]

/-- A change of state that succeeds, and what it leaves in the hand of its thread. -/
theorem of_transition {expected : JobState} {t : Transition} {y : JobRecord} (h : Agreed r p)
    (hTold : r.transition cue id expected t = (.ok y, r'))
    (hWaiting : ∀ a, p'.held.count a + (if expected = .queued then [id] else []).count a +
        p.stale.count a =
      p.held.count a + (if t.target = .queued then [id] else []).count a + p'.stale.count a)
    (hRunning : ∀ a, p.bound.count a + (if expected = .running then [id] else []).count a =
      p'.bound.count a + (if t.target = .running then [id] else []).count a) : Agreed r' p' := by
  obtain ⟨-, store, hStore, rfl⟩ := (Realm.tell_eq_ok r cue).mp hTold
  obtain ⟨others, hMoved⟩ := Store.idsIn_of_transition hStore
  refine ⟨fun a => ?_, fun a => ?_⟩
  · obtain ⟨hBefore, hAfter⟩ := hMoved .queued
    have hCount := h.waiting a
    have hChange := hWaiting a
    rw [hBefore.count_eq, List.count_append] at hCount
    show r.queue.ids.count a + _ = (store.idsIn .queued).count a + _
    rw [hAfter.count_eq, List.count_append]
    omega
  · obtain ⟨hBefore, hAfter⟩ := hMoved .running
    have hCount := h.running a
    have hChange := hRunning a
    rw [hBefore.count_eq, List.count_append] at hCount
    show (r.tokens.running.map (·.1)).count a = (store.idsIn .running).count a + _
    rw [hAfter.count_eq, List.count_append]
    omega

/-- A run that is in hand is put into an open queue. -/
theorem push (h : Agreed r p) (hOpen : r.queue.closed = false) (notBefore : Option Instant)
    (hQueue : r'.queue = r.queue.push id notBefore) (hStore : r'.store = r.store)
    (hTokens : r'.tokens = r.tokens) (hHeld : ∀ a, p.held.count a = [id].count a + p'.held.count a)
    (hStale : p'.stale = p.stale) (hBound : p'.bound = p.bound) : Agreed r' p' := by
  refine ⟨fun a => ?_, fun a => ?_⟩
  · have hCount := h.waiting a
    rw [hHeld] at hCount
    rw [hQueue, Queue.ids_push_of_open hOpen, List.count_append, hStore, hStale]
    omega
  · rw [hTokens, hStore, hBound, h.running]

end Agreed

/-- A store in no trouble makes a change of state that the graph allows. -/
theorem Realm.not_refused {expected : JobState} {t : Transition} {e : StoreError}
    (hCalm : cue.fault = none) (hId : id ∈ r.store.idsIn expected)
    (hEdge : expected.canBecome t.target = true) :
    r.transition cue id expected t ≠ (.error e, r') := by
  intro hTold
  obtain ⟨x, hx, rfl, rfl⟩ := Store.mem_idsIn.mp hId
  simp only [transition, tell, hCalm, Store.transition_of_mem hx hEdge cue.now] at hTold
  cases hTold

-- ---------------------------------------------------------------------------
-- The steps of the procedures
-- ---------------------------------------------------------------------------

theorem Admission.agreed_step {a : Admission} {point : AdmissionPoint}
    {next : Progress AdmissionPoint (Except JobError JobRecord)}
    (h : a.step cue r point = some (r', next)) (hAgreed : Agreed r point.pending)
    (hOpen : r.queue.closed = false)
    (hFirst : ∀ record, point = .creating record → record.state = .queued) :
    Agreed r' (next.point?.elim {} AdmissionPoint.pending) := by
  cases point with
  | waiting =>
    have hEffect := Admission.effect h
    simp only [step] at h
    split at h <;> cases h
    exact hAgreed.of_effect hEffect (by rintro o ⟨⟩) rfl (by decide)
  | checking =>
    have hEffect := Admission.effect h
    simp only [step] at h
    split at h
    · cases h
      exact hAgreed.of_effect hEffect (by rintro o ⟨⟩) rfl (by decide)
    · split at h <;> cases h <;>
        exact hAgreed.of_effect hEffect (by rintro o ⟨⟩) rfl (by decide)
  | creating record =>
    simp only [step] at h
    split at h
    · next hTold =>
      cases h
      obtain ⟨store, hCreated, rfl⟩ := Realm.create_eq_ok r cue hTold
      have hState : record.state = .queued := hFirst record rfl
      refine ⟨fun a => ?_, fun a => ?_⟩
      · have hCount := hAgreed.waiting a
        show r.queue.ids.count a + [record.id].count a = (store.idsIn .queued).count a + 0
        rw [Store.idsIn_of_create hCreated, if_pos hState, List.count_append]
        simp only [AdmissionPoint.pending, List.count_nil] at hCount
        omega
      · show _ = (store.idsIn .running).count a + 0
        rw [Store.idsIn_of_create hCreated, if_neg (by rw [hState]; decide), List.append_nil]
        exact hAgreed.running a
    · next hTold =>
      cases h
      cases Realm.tell_eq_error _ _ hTold
      exact ⟨hAgreed.waiting, hAgreed.running⟩
  | queueing record =>
    cases h
    exact hAgreed.push hOpen none rfl rfl rfl (fun _ => rfl) rfl rfl
  | counting record =>
    cases h
    exact ⟨hAgreed.waiting, hAgreed.running⟩

theorem Cancellation.agreed_step {point : Cancellation}
    {next : Progress Cancellation (Except JobError JobRecord)} (h : point.step cue r = (r', next))
    (hAgreed : Agreed r point.pending)
    (hOver : ∀ record, point = .unqueueing record → record.id ∉ r.store.idsIn .queued) :
    Agreed r' (next.point?.elim {} Cancellation.pending) := by
  cases point with
  | looking id =>
    simp only [step] at h
    split at h
    · cases h
      exact hAgreed
    · split at h <;> cases h <;> exact hAgreed
  | revoking id =>
    simp only [step] at h
    split at h
    · next hTold =>
      cases h
      obtain ⟨x, -, rfl, -, -, rfl, -⟩ := Realm.transition_eq_ok _ _ hTold
      exact hAgreed.of_transition hTold
        (fun a => by simp [pending, Progress.point?, Transition.cancel])
        (fun a => by simp [pending, Progress.point?, Transition.cancel])
    all_goals
      next hTold =>
      cases h
      cases Realm.tell_eq_error _ _ hTold
      exact hAgreed
  | unqueueing record =>
    cases h
    have hGone : record.id ∉ r.store.idsIn .queued := hOver record rfl
    refine ⟨fun a => ?_, hAgreed.running⟩
    show ((r.queue.remove record.id).ids).count a + 0 = _ + 0
    have hCount := hAgreed.waiting a
    simp only [pending, List.count_nil, List.count_singleton] at hCount
    have hRest : (r.queue.remove record.id).ids = r.queue.ids.filter (· != record.id) := by
      rw [Queue.ids, Queue.remove, Queue.ids, List.filter_map]
      rfl
    rw [hRest]
    by_cases hId : record.id = a
    · subst hId
      rw [List.count_eq_zero_of_not_mem hGone, List.count_eq_zero_of_not_mem (by simp)]
    · rw [List.count_filter (by simpa using Ne.symm hId)]
      simpa [hId] using hCount
  | finishing record =>
    cases h
    exact ⟨hAgreed.waiting, hAgreed.running⟩
  | marking id =>
    have hEffect := Cancellation.effect h
    simp only [step] at h
    split at h <;> next hTold =>
      cases h
      have hMarked : Agreed r' {} := hAgreed.of_effect hEffect (by rintro o ⟨⟩; trivial)
        (by rw [hEffect.queue (by simp [touched])]) (by simp [touched])
      first
        | exact hMarked
        | split <;> exact hMarked
  | signalling record =>
    have hEffect := Cancellation.effect h
    cases h
    exact hAgreed.of_effect hEffect (by rintro o ⟨⟩) rfl (by simp [touched])

/-- What the step of a worker relies on, in an open realm. -/
structure Worker.Fit (r : Realm δ) (w : Worker δ) : Prop where
  attempt : ∀ record, w.attempt? = some record → record.id ∈ r.store.idsIn .running
  ends : ∀ record t, w = .recording record t → t.target ≠ .running

theorem Worker.agreed_step {w w' : Worker δ} (h : w.step cue r = some (r', w'))
    (hAgreed : Agreed r w.pending) (hCalm : cue.fault = none) (hOpen : r.queue.closed = false)
    (hGoesOn : r.stopping = false) (hOnce : (r.tokens.running.map (·.1)).Nodup) (hFit : w.Fit r) :
    Agreed r' w'.pending := by
  have hEffect := Worker.effect h
  have hUnbound : ∀ id, (r.tokens.deregister id).running.map (·.1) =
      (r.tokens.running.map (·.1)).filter (· != id) := by
    intro id
    rw [Tokens.deregister, List.filter_map]
    rfl
  cases w with
  | idle =>
    simp only [step] at h
    split at h
    · cases h
      exact hAgreed
    · obtain ⟨⟨id, queue⟩, hTake, hEq⟩ := Option.map_eq_some_iff.mp h
      cases hEq
      obtain ⟨-, -, entry, before, after, rfl, hEntries, hRest⟩ := Queue.take?_eq_some hTake
      refine ⟨fun a => ?_, hAgreed.running⟩
      have hCount := hAgreed.waiting a
      show queue.ids.count a + [entry.jobId].count a = _ + 0
      simp only [Queue.ids, hEntries, List.map_append, List.map_cons, List.count_append, pending,
        List.count_cons, List.count_nil] at hCount
      simp only [Queue.ids, hRest, List.map_append, List.count_append, List.count_cons,
        List.count_nil]
      omega
  | taken id =>
    cases h
    rw [hGoesOn]
    exact hAgreed
  | entering id =>
    cases h
    have hWaits : id ∈ r.store.idsIn .queued :=
      hAgreed.mem_idsIn_of_held List.mem_cons_self rfl
    have hIdle : id ∉ r.store.idsIn .running :=
      Store.not_mem_idsIn_of_ne hWaits (by decide)
    refine ⟨hAgreed.waiting, fun a => ?_⟩
    have hCount := hAgreed.running
    simp only [pending, List.count_nil, Nat.add_zero] at hCount
    show ((((r.tokens.issue.2).register id r.tokens.issue.1).running).map (·.1)).count a = _
    have hKeys : ((r.tokens.issue.2).register id r.tokens.issue.1).running.map (·.1) =
        (r.tokens.running.map (·.1)).filter (· != id) ++ [id] := by
      rw [← hUnbound, Tokens.register, List.map_append]
      rfl
    have hNotBound : id ∉ r.tokens.running.map (·.1) := by
      rw [← List.count_eq_zero, hCount, List.count_eq_zero_of_not_mem hIdle]
    have hAll : (r.tokens.running.map (·.1)).filter (· != id) = r.tokens.running.map (·.1) :=
      List.filter_eq_self.mpr fun b hb => bne_iff_ne.mpr (ne_of_mem_of_not_mem hb hNotBound)
    rw [hKeys, hAll, List.count_append, hCount]
    rfl
  | claiming id token =>
    simp only [step] at h
    split at h
    · next hTold =>
      cases h
      exact hAgreed.of_transition hTold
        (fun a => by simp [pending, Transition.start])
        (fun a => by simp [pending, Transition.start])
    · next hTold =>
      have hWaits : id ∈ r.store.idsIn .queued :=
        hAgreed.mem_idsIn_of_held List.mem_cons_self rfl
      exact absurd hTold (Realm.not_refused hCalm hWaits rfl)
  | claimed record token =>
    simp only [step] at h
    split at h <;> cases h <;>
      exact hAgreed.of_effect hEffect (by rintro o ⟨⟩)
        (by rw [hEffect.queue (by simp [touched])]) (by simp [touched])
  | executing record token definition =>
    cases h
    exact hAgreed
  | judging record token outcome =>
    cases h
    exact hAgreed
  | recording record t =>
    have hTarget : t.target ≠ .running := hFit.ends record t rfl
    simp only [step] at h
    split at h
    · next updated _ hTold =>
      cases h
      obtain ⟨x, -, hId, -, -, rfl, -⟩ := Realm.transition_eq_ok _ _ hTold
      have hState : (t.apply x cue.now).state = t.target := rfl
      rw [hState]
      by_cases hAgain : t.target = .queued
      · rw [if_pos hAgain]
        split
        all_goals
          exact hAgreed.of_transition hTold
            (fun a => by simp [pending, hAgain, hId])
            (fun a => by simp [pending, hAgain, hId])
      · rw [if_neg hAgain]
        exact hAgreed.of_transition hTold
          (fun a => by simp [pending, hAgain])
          (fun a => by simp [pending, hTarget, hId])
    · next hTold =>
      have hEdge : JobState.canBecome .running t.target = true :=
        JobState.canBecome_iff.mpr (.inr ⟨rfl, hTarget⟩)
      exact absurd hTold (Realm.not_refused hCalm (hFit.attempt record rfl) hEdge)
  | withdrawing record =>
    simp only [step] at h
    split at h
    · next hTold =>
      cases h
      obtain ⟨x, -, hId, -, -, rfl, -⟩ := Realm.transition_eq_ok _ _ hTold
      exact hAgreed.of_transition hTold
        (fun a => by simp [pending, Transition.cancel])
        (fun a => by simp [pending, Transition.cancel, hId])
    · next hTold =>
      have hWaits : record.id ∈ r.store.idsIn .queued :=
        hAgreed.mem_idsIn_of_held List.mem_cons_self rfl
      exact absurd hTold (Realm.not_refused hCalm hWaits rfl)
  | requeueing record =>
    cases h
    exact hAgreed.push hOpen _ rfl rfl rfl (fun _ => rfl) rfl rfl
  | finishing record =>
    cases h
    exact ⟨hAgreed.waiting, hAgreed.running⟩
  | leaving id =>
    cases h
    refine ⟨hAgreed.waiting, fun a => ?_⟩
    have hCount := hAgreed.running a
    show ((r.tokens.deregister id).running.map (·.1)).count a = (r.store.idsIn .running).count a + 0
    rw [hUnbound]
    simp only [pending, List.count_singleton] at hCount
    by_cases hId : id = a
    · subst hId
      have hBound := List.nodup_iff_count_le_one.mp hOnce id
      rw [List.count_eq_zero_of_not_mem (by simp)]
      simp only [beq_self_eq_true, if_true] at hCount
      omega
    · rw [List.count_filter (by simpa using Ne.symm hId)]
      simpa [hId] using hCount
  | retired => cases h

/-- What a start that takes up runs finds in a realm that agrees with an empty store from its
beginning: all the runs that it listed wait, in the queue. -/
def Startup.Calm (r : Realm δ) : Startup → Prop
  | .waiting | .listing | .opening => True
  | .recovering rest => ∀ x ∈ rest, x.state = .queued ∧ x.id ∈ r.queue.ids
  | .queueing .. | .finishing .. => False

theorem Startup.agreed_step {point : Startup} {next : Progress Startup (Except JobError Unit)}
    (h : point.step cue r = some (r', next)) (hAgreed : Agreed r {}) (hCalm : point.Calm r)
    (hUnbound : point = .listing → r.tokens.running = []) :
    Agreed r' {} ∧ next.point?.elim True (Startup.Calm r') := by
  cases point with
  | waiting =>
    simp only [step] at h
    split at h
    · cases h
    · split at h <;> cases h
      · exact ⟨hAgreed, trivial⟩
      · exact ⟨hAgreed, trivial⟩
      · refine ⟨⟨hAgreed.waiting, hAgreed.running⟩, ?_⟩
        split <;> trivial
  | listing =>
    simp only [step] at h
    split at h
    · cases h
      exact ⟨⟨hAgreed.waiting, hAgreed.running⟩, trivial⟩
    · next records hAsk =>
      cases h
      refine ⟨hAgreed, fun x hx => ?_⟩
      have hListed : x ∈ r.store.list (backlog r.settings) := by
        unfold Realm.ask at hAsk
        split at hAsk <;> cases hAsk
        exact hx
      obtain ⟨hStored, hWaits | hRuns, -⟩ := mem_backlog.mp hListed
      · refine ⟨hWaits, List.count_pos_iff.mp ?_⟩
        have hCount := hAgreed.waiting x.id
        have hPos := List.count_pos_iff.mpr (Store.mem_idsIn_of_mem hStored hWaits)
        simp only [List.count_nil, Nat.add_zero] at hCount
        omega
      · have hCount := hAgreed.running x.id
        have hPos := List.count_pos_iff.mpr (Store.mem_idsIn_of_mem hStored hRuns)
        rw [hUnbound rfl, List.map_nil, List.count_nil] at hCount
        omega
  | recovering rest =>
    cases rest with
    | nil =>
      cases h
      exact ⟨hAgreed, trivial⟩
    | cons x rest =>
      obtain ⟨hWaits, hQueued⟩ := hCalm x List.mem_cons_self
      simp only [step, hWaits, Queue.contains_iff.mpr hQueued, if_true] at h
      cases h
      exact ⟨hAgreed, fun y hy => hCalm y (List.mem_cons_of_mem x hy)⟩
  | queueing id rest => exact hCalm.elim
  | finishing record rest => exact hCalm.elim
  | opening =>
    cases h
    exact ⟨⟨hAgreed.waiting, hAgreed.running⟩, trivial⟩

def CallPoint.Calm (r : Realm δ) : CallPoint → Prop
  | .starting point => point.Calm r
  | _ => True

def Thread.Calm (r : Realm δ) : Thread δ → Prop
  | .caller point => point.Calm r
  | _ => True

/-- What the step of a call relies on, in an open realm whose operations come one after the
other. -/
structure CallPoint.Fit (r : Realm δ) (point : CallPoint) : Prop where
  calm : point.Calm r
  first : ∀ a record, point = .admitting a (.creating record) → record.state = .queued
  gone : ∀ record, point = .canceling (.unqueueing record) → record.id ∉ r.store.idsIn .queued
  unbound : point = .starting .listing → r.tokens.running = []
  goesOn : ∀ q, point = .stopping q → q.marked = false

/-- The first step of a call changes no state, and leaves the entries of the queue. -/
theorem Call.agreed_begin {call : Call} {next : Progress CallPoint Answer}
    (h : call.begin cue r = some (r', next)) (hAgreed : Agreed r {}) :
    Agreed r' (next.point?.elim {} CallPoint.pending) ∧
      next.point?.elim True (CallPoint.Calm r') := by
  have hEffect := Call.effect h
  have hTame : ∀ o, call.op? cue r = some o → o.Tame := by
    intro o hOp
    cases call with
    | purge =>
      obtain ⟨cutoff, -, rfl⟩ := Option.map_eq_some_iff.mp hOp
      trivial
    | delete ids =>
      cases hOp
      trivial
    | _ => cases hOp
  have hQueue : r'.queue.ids = r.queue.ids := by
    by_cases hTouched : Part.queue ∈ call.touched
    · obtain ⟨-, rfl | rfl⟩ := Call.mem_touched hTouched <;> cases h <;> rfl
    · rw [hEffect.queue hTouched]
  have hBindings : Part.bindings ∉ call.touched := by
    intro hTouched
    cases (Call.mem_touched hTouched).1
  have hAgreed' : Agreed r' {} := hAgreed.of_effect hEffect hTame hQueue hBindings
  cases next with
  | done answer => exact ⟨hAgreed', trivial⟩
  | «at» q =>
    obtain ⟨-, hOpens⟩ := Call.opens_of_begin h
    cases hOpens <;> exact ⟨hAgreed', trivial⟩

theorem CallPoint.agreed_step {point : CallPoint} {next : Progress CallPoint Answer}
    (h : point.step cue r = some (r', next)) (hAgreed : Agreed r point.pending)
    (hOpen : r.queue.closed = false) (hFit : point.Fit r) :
    Agreed r' (next.point?.elim {} CallPoint.pending) ∧
      next.point?.elim True (CallPoint.Calm r') := by
  have hEffect := CallPoint.effect h
  -- a procedure that never has anything in hand, and works on neither the queue nor the table
  have hApart : ∀ {σ ρ : Type} {toPoint : σ → CallPoint} {answer : ρ → Answer}
      {x : Realm δ × Progress σ ρ}, lift toPoint answer x = (r', next) →
      (∀ q, (toPoint q).pending = {} ∧ (toPoint q).Calm r') → point.pending = {} →
      point.op? cue r = none → Part.queue ∉ point.touched → Part.bindings ∉ point.touched →
        Agreed r' (next.point?.elim {} CallPoint.pending) ∧
          next.point?.elim True (CallPoint.Calm r') := by
    intro σ ρ toPoint answer x hLift hPlain hPending hOp hQueue hBindings
    rw [hPending] at hAgreed
    have hAgreed' : Agreed r' {} := hAgreed.of_effect hEffect (by rw [hOp]; rintro o ⟨⟩)
      (by rw [hEffect.queue hQueue]) hBindings
    obtain ⟨r₁, progress⟩ := x
    cases progress with
    | «at» q =>
      cases hLift
      obtain ⟨hNone, hCalm⟩ := hPlain q
      refine ⟨?_, hCalm⟩
      show Agreed r' (toPoint q).pending
      rwa [hNone]
    | done result =>
      cases hLift
      exact ⟨hAgreed', trivial⟩
  cases point with
  | made call => exact Call.agreed_begin h hAgreed
  | admitting a point =>
    obtain ⟨⟨r₁, progress⟩, hStep, hLift⟩ := Option.map_eq_some_iff.mp h
    have hNext := Admission.agreed_step hStep hAgreed hOpen
      fun record hEq => hFit.first a record (by rw [hEq])
    cases progress <;> cases hLift <;> exact ⟨hNext, trivial⟩
  | canceling point =>
    obtain ⟨⟨r₁, progress⟩, hStep⟩ : ∃ x, point.step cue r = x := ⟨_, rfl⟩
    have hNext := Cancellation.agreed_step hStep hAgreed
      fun record hEq => hFit.gone record (by rw [hEq])
    have hLift := Option.some.inj h
    rw [hStep] at hLift
    cases progress <;> cases hLift <;> exact ⟨hNext, trivial⟩
  | starting point =>
    obtain ⟨⟨r₁, progress⟩, hStep, hLift⟩ := Option.map_eq_some_iff.mp h
    obtain ⟨hNext, hCalm⟩ := Startup.agreed_step hStep hAgreed hFit.calm
      fun hEq => hFit.unbound (by rw [hEq])
    cases progress <;> cases hLift
    · exact ⟨hNext, hCalm⟩
    · exact ⟨hNext, trivial⟩
  | stopping point =>
    obtain ⟨x, -, hLift⟩ := Option.map_eq_some_iff.mp h
    have hUnmarked : point.marked = false := hFit.goesOn point rfl
    cases point with
    | waiting | marking =>
      exact hApart hLift (fun _ => ⟨rfl, trivial⟩) rfl rfl (by simp [touched, Shutdown.touched])
        (by simp [touched, Shutdown.touched])
    | closing | draining | striking | interrupting | finishing => cases hUnmarked
  | scheduling point =>
    obtain ⟨x, -, hLift⟩ := Option.map_eq_some_iff.mp h
    exact hApart hLift (fun _ => ⟨rfl, trivial⟩) rfl rfl List.not_mem_nil List.not_mem_nil
  | declaring point =>
    obtain ⟨x, -, hLift⟩ := Option.map_eq_some_iff.mp h
    exact hApart hLift (fun _ => ⟨rfl, trivial⟩) rfl rfl List.not_mem_nil List.not_mem_nil

theorem Timer.agreed_step {t t' : Timer} (h : t.step cue r = some (r', t'))
    (hAgreed : Agreed r t.pending) (hOpen : r.queue.closed = false)
    (hFirst : ∀ now id rest a record, t = .firing now id rest a (.creating record) →
      record.state = .queued) : Agreed r' t'.pending := by
  have hFire : ∀ {now id rest e}, (Timer.fire cue r now id rest e).pending = {} := by
    intro now id rest e
    unfold fire
    split <;> rfl
  have hEffect := Timer.effect h
  -- the timer has something in hand only while it admits a run
  have hApart : t.pending = {} → t.op? = none → t.touched = [] → t'.pending = {} →
      Agreed r' t'.pending := by
    intro hPending hOp hTouched hPending'
    rw [hPending] at hAgreed
    rw [hOp, hTouched] at hEffect
    rw [hPending']
    exact hAgreed.of_effect hEffect (by rintro o ⟨⟩) (by rw [hEffect.queue nofun]) nofun
  cases t with
  | resting =>
    refine hApart rfl rfl rfl ?_
    cases h
    split <;> rfl
  | waiting now =>
    refine hApart rfl rfl rfl ?_
    simp only [step] at h
    split at h <;> cases h
    rfl
  | passing now rest =>
    refine hApart rfl rfl rfl ?_
    cases rest with
    | nil =>
      cases h
      rfl
    | cons id rest =>
      simp only [step] at h
      split at h
      · cases h
        rfl
      · split at h
        · split at h <;> cases h
          · rfl
          · exact hFire
        · cases h
          rfl
  | checking now id last rest =>
    refine hApart rfl rfl rfl ?_
    simp only [step] at h
    split at h <;> cases h
    · exact hFire
    · rfl
  | firing now id rest a point =>
    obtain ⟨⟨r₁, progress⟩, hStep, hEq⟩ := Option.map_eq_some_iff.mp h
    have hNext := Admission.agreed_step hStep hAgreed hOpen
      fun record hEq => hFirst now id rest a record (by rw [hEq])
    split at hEq <;> next hPair => cases hPair; cases hEq; exact hNext
  | noting now id rest made =>
    refine hApart rfl rfl rfl ?_
    cases made <;> cases h <;> rfl
  | retired => cases h

theorem Thread.calm_of_atRest {th : Thread δ} (h : th.atRest = true) (r : Realm δ) : th.Calm r := by
  cases th with
  | caller point => cases point <;> trivial
  | worker w => trivial
  | timer t => trivial
  | answered answer => trivial

/-- One step in an open realm, with what its thread has in hand before and after. -/
theorem Thread.agreed_step {th th' : Thread δ} {crew : List (Thread δ)}
    (h : th.step cue r = some (r', th', crew)) (hAgreed : Agreed r th.pending)
    (hCalm : cue.fault = none) (hOpen : r.queue.closed = false) (hGoesOn : r.stopping = false)
    (hOnce : (r.tokens.running.map (·.1)).Nodup)
    (hCaller : ∀ point, th = .caller point → point.Fit r)
    (hWorker : ∀ w, th = .worker w → w.Fit r)
    (hTimer : ∀ now id rest a record, th = .timer (.firing now id rest a (.creating record)) →
      record.state = .queued) : Agreed r' th'.pending ∧ th'.Calm r' := by
  cases th with
  | caller point =>
    rcases step_caller h with ⟨next, hStep, rfl, -⟩ | ⟨answer, hStep, rfl, -⟩
    · exact CallPoint.agreed_step hStep hAgreed hOpen (hCaller point rfl)
    · exact CallPoint.agreed_step hStep hAgreed hOpen (hCaller point rfl)
  | worker w =>
    obtain ⟨w', hStep, rfl, -⟩ := step_worker h
    exact ⟨Worker.agreed_step hStep hAgreed hCalm hOpen hGoesOn hOnce (hWorker w rfl), trivial⟩
  | timer t =>
    obtain ⟨t', hStep, rfl, -⟩ := step_timer h
    refine ⟨Timer.agreed_step hStep hAgreed hOpen fun now id rest a record hEq => ?_, trivial⟩
    exact hTimer now id rest a record (by rw [hEq])
  | answered answer => cases h

-- ---------------------------------------------------------------------------
-- Whole operations
-- ---------------------------------------------------------------------------

namespace System

variable {s u : System δ} {e : Event} {events before : List Event} {settings : RealmSettings}
  {registry : Registry δ}

/-- Is every other thread between two operations when the event happens? -/
def alone (s : System δ) : Event → Bool
  | .advance i _ => (s.threads.eraseIdx i).all (·.atRest)
  | .call _ | .sweep _ => true

/-- A run whose operations come one after the other, each as a whole. -/
def OneByOne (s : System δ) (events : List Event) : Prop :=
  ∀ b ∈ s.trail (fun t e => [t.alone e]) events, b = true

theorem atRest_of_alone {i j : Nat} {cue : Cue} {th : Thread δ}
    (h : s.alone (.advance i cue) = true) (hAt : s.threads[j]? = some th) (hji : j ≠ i) :
    th.atRest = true :=
  List.all_eq_true.mp h th (List.mem_eraseIdx_iff_getElem?.mpr ⟨j, hji, hAt⟩)

/-- What the threads of a system have in hand. -/
def pending (s : System δ) : Pending where
  held := s.gather (·.pending.held)
  stale := s.gather (·.pending.stale)
  bound := s.gather (·.pending.bound)

theorem pending_of_alone {i : Nat} {th : Thread δ} (hAt : s.threads[i]? = some th)
    (hAlone : ∀ j : Nat, ∀ x, s.threads[j]? = some x → j ≠ i → x.atRest = true) :
    s.pending = th.pending := by
  have hNone : ∀ j : Nat, ∀ x, s.threads[j]? = some x → j ≠ i → x.pending = {} :=
    fun j x hx hji => (Thread.idle_of_atRest (hAlone j x hx hji)).1
  rw [pending, gather_of_alone hAt fun j x hx hji => by rw [hNone j x hx hji],
    gather_of_alone hAt fun j x hx hji => by rw [hNone j x hx hji],
    gather_of_alone hAt fun j x hx hji => by rw [hNone j x hx hji]]

/-- Between the operations nobody has anything in hand. -/
theorem pending_of_atRest (h : ∀ th ∈ s.threads, th.atRest = true) : s.pending = {} := by
  have hNone : ∀ th ∈ s.threads, th.pending = {} :=
    fun th hMem => (Thread.idle_of_atRest (h th hMem)).1
  have hGather : ∀ f : Pending → List JobId, f {} = [] → s.gather (fun th => f th.pending) = [] :=
    fun f hf => List.flatMap_eq_nil_iff.mpr fun th hMem => by rw [hNone th hMem, hf]
  rw [pending, hGather (·.held) rfl, hGather (·.stale) rfl, hGather (·.bound) rfl]

/-- The views of the realm agree, but for what the threads have in hand. -/
structure Agrees (s : System δ) : Prop where
  agreed : Agreed s.realm s.pending
  calm : ∀ i : Nat, ∀ th, s.threads[i]? = some th → th.Calm s.realm

/-- Before a realm is started no run is bound to a token. -/
theorem unbound_of_run {r : Realm δ} (hRun : (ofRealm r).run events = some u)
    (hStart : r.tokens.running = []) (hCreated : u.realm.lifecycle = .created) :
    u.realm.tokens.running = [] := by
  refine run_induction (motive := fun _ u => u.realm.lifecycle = .created →
    u.realm.tokens.running = []) hRun (fun _ => hStart) ?_ hCreated
  intro before t e v hBefore hStep ih hCreated
  cases e with
  | call call =>
    cases hStep
    exact ih hCreated
  | sweep cutoff =>
    cases hStep
    exact ih hCreated
  | advance i cue =>
    obtain ⟨th, r', th', crew, hAt, hThread, rfl⟩ := step_advance hStep
    have hOld : t.realm.lifecycle = .created := by
      by_contra hNot
      exact Thread.lifecycle_ne_created_of_step hThread hNot hCreated
    have hBindings : Part.bindings ∉ th.touched := by
      intro hTouched
      obtain ⟨w, rfl, -⟩ := Thread.worker_of_mem_touched hTouched (.inr rfl)
      exact (governed_of_run hBefore).working hAt hOld
    rw [((Thread.effect hThread).bindings hBindings).1]
    exact ih hOld

/-- A run that is canceled and still in the queue does not wait. -/
theorem not_mem_idsIn_of_unqueueing {ids : List JobId} {ends : List JobRecord}
    {notes : List (JobRecord × List Bool)} (h : Settled s ids ends notes) {i : Nat}
    {record : JobRecord}
    (hAt : s.threads[i]? = some (.caller (.canceling (.unqueueing record)))) :
    record.id ∉ s.realm.store.idsIn .queued := by
  have hOwed : record ∈ s.owed :=
    List.mem_flatMap.mpr ⟨_, List.mem_of_getElem? hAt, List.mem_cons_self⟩
  have hEnded := h.balance.symm.subset (List.mem_append_right _ hOwed)
  obtain ⟨hOver, -, hStays⟩ := h.ended record hEnded
  intro hWaits
  obtain ⟨x, hx, hId, hQueued⟩ := Store.mem_idsIn.mp hWaits
  rw [← hStays x hx hId, JobRecord.isTerminal_of_queued hQueued] at hOver
  cases hOver

/-- A record that is to be created waits. -/
theorem queued_of_creating {r : Realm δ} (hRun : (ofRealm r).run events = some u) {i : Nat}
    {th : Thread δ} {a : Admission} {record : JobRecord} (hAt : u.threads[i]? = some th)
    (hCreating : th.admission? = some (a, .creating record)) : record.state = .queued := by
  obtain ⟨id, now, rfl⟩ := made_of_run hRun hAt a _ record hCreating rfl
  rfl

theorem fit_of_caller (hRun : (initial settings registry Store.empty).run events = some s)
    (hIds : ((initial settings registry Store.empty).runIds events).Nodup) (hAgrees : s.Agrees)
    (hGoesOn : s.realm.stopping = false) {i : Nat} {point : CallPoint}
    (hAt : s.threads[i]? = some (.caller point)) : point.Fit s.realm where
  calm := hAgrees.calm i _ hAt
  first a record hEq := queued_of_creating hRun hAt (by rw [hEq]; rfl)
  gone record hEq := not_mem_idsIn_of_unqueueing (settled_of_run hRun hIds) (hEq ▸ hAt)
  unbound hEq := unbound_of_run hRun rfl ((governed_of_run hRun).starting (hEq ▸ hAt) rfl)
  goesOn q hEq := by
    cases hMarked : q.marked with
    | false => rfl
    | true =>
      have hStopping := (governed_of_run hRun).stopping (hEq ▸ hAt) hMarked
      rw [hGoesOn] at hStopping
      cases hStopping

theorem fit_of_worker (hRun : (initial settings registry Store.empty).run events = some s)
    (hIds : ((initial settings registry Store.empty).runIds events).Nodup)
    (hGoesOn : s.realm.stopping = false) {i : Nat} {w : Worker δ}
    (hAt : s.threads[i]? = some (.worker w)) : w.Fit s.realm where
  attempt record hAttempt := by
    rcases attended_of_run hRun hIds i w record ⟨hAt, hAttempt⟩ with ⟨x, hx, hId, hState⟩ | hStops
    · exact Store.mem_idsIn.mpr ⟨x, hx, hId, hState⟩
    · rw [hGoesOn] at hStops
      cases hStops.1
  ends record t hEq := ends_of_run hRun i _ hAt record t (by rw [hEq])

/-- A thread that takes a step while the others are at rest keeps the agreement. -/
theorem Agrees.advance {i : Nat} {cue : Cue} (h : s.Agrees)
    (hRun : (initial settings registry Store.empty).run events = some s)
    (hIds : ((initial settings registry Store.empty).runIds events).Nodup)
    (hStep : s.step (.advance i cue) = some u) (hCalm : cue.fault = none)
    (hAlone : s.alone (.advance i cue) = true) (hGoesOn : u.realm.stopping = false) :
    u.Agrees := by
  have hOpen := goesOn_of_step hStep hGoesOn
  have hQueue : s.realm.queue.closed = false := by
    by_contra hClosed
    rw [stopping_of_closed hRun (by simpa using hClosed)] at hOpen
    cases hOpen
  obtain ⟨th, r', th', crew, hAt, hThread, rfl⟩ := step_advance hStep
  have hAgreed := h.agreed
  rw [pending_of_alone hAt fun j x => atRest_of_alone hAlone] at hAgreed
  obtain ⟨hAgreed', hCalm'⟩ := Thread.agreed_step hThread hAgreed hCalm hQueue hOpen
    (nodup_running_of_run hRun) (fun point hEq => fit_of_caller hRun hIds h hOpen (hEq ▸ hAt))
    (fun w hEq => fit_of_worker hRun hIds hOpen (hEq ▸ hAt))
    fun now id rest a record hEq => queued_of_creating hRun hAt (by rw [hEq]; rfl)
  have hOthers : ∀ j : Nat, ∀ x, (s.threads.set i th' ++ crew)[j]? = some x → j ≠ i →
      x.atRest = true := by
    intro j x hx hji
    rcases threads_of_advance hx with ⟨hEq, -⟩ | ⟨-, hOld⟩ | ⟨-, hMem⟩
    · exact absurd hEq hji
    · exact atRest_of_alone hAlone hOld hji
    · rcases Thread.crew_of_step hThread x hMem with rfl | rfl <;> rfl
  refine ⟨?_, fun j x hx => ?_⟩
  · rw [pending_of_alone (thread_of_advance_self hAt) hOthers]
    exact hAgreed'
  · by_cases hji : j = i
    · subst hji
      rw [thread_of_advance_self hAt] at hx
      cases hx
      exact hCalm'
    · exact Thread.calm_of_atRest (hOthers j x hx hji) r'

theorem Agrees.call {call : Call} (h : s.Agrees) (hStep : s.step (.call call) = some u) :
    u.Agrees := by
  have hPending : u.pending = s.pending := by
    rw [pending, gather_of_call hStep rfl, gather_of_call hStep rfl, gather_of_call hStep rfl]
    rfl
  cases hStep
  refine ⟨?_, fun j x hx => ?_⟩
  · rw [hPending]
    exact h.agreed
  · rcases threads_of_call hx with hOld | ⟨-, rfl⟩
    · exact h.calm j x hOld
    · trivial

theorem Agrees.sweep {cutoff : Instant} (h : s.Agrees) (hStep : s.step (.sweep cutoff) = some u) :
    u.Agrees := by
  cases hStep
  let cue : Cue := { now := cutoff, fresh := default }
  have hEffect : Effect cue (some (.deleteFinishedBefore cutoff)) [] s.realm
      { s.realm with store := (s.realm.store.deleteFinishedBefore cutoff).2 } :=
    .asked rfl
  exact ⟨h.agreed.of_effect hEffect (by rintro o ⟨⟩; trivial) rfl nofun, h.calm⟩

/-- While operations come one after the other, on a store in no trouble and in an open realm, its
views agree but for what is in hand. -/
theorem agrees_of_run (hRun : (initial settings registry Store.empty).run events = some u)
    (hIds : ((initial settings registry Store.empty).runIds events).Nodup)
    (hCalm : ∀ e ∈ events, e.Untroubled)
    (hWhole : (initial settings registry Store.empty).OneByOne events)
    (hGoesOn : u.realm.stopping = false) : u.Agrees := by
  refine run_induction (motive := fun events u =>
    ((initial settings registry Store.empty).runIds events).Nodup →
    (∀ e ∈ events, e.Untroubled) → (initial settings registry Store.empty).OneByOne events →
      u.realm.stopping = false → u.Agrees) hRun ?_ ?_ hIds hCalm hWhole hGoesOn
  · intro _ _ _ _
    refine ⟨⟨fun _ => rfl, fun _ => rfl⟩, fun i th hAt => ?_⟩
    cases hAt
  · intro before t e v hBefore hStep ih hIds hCalm hWhole hGoesOn
    rw [runIds_concat hBefore] at hIds
    have hIds' := (List.nodup_append.mp hIds).1
    have hOpen := goesOn_of_step hStep hGoesOn
    rw [OneByOne, trail_concat hBefore] at hWhole
    have hAgrees : t.Agrees :=
      ih hIds' (fun e he => hCalm e (List.mem_append_left _ he))
        (fun b hb => hWhole b (List.mem_append_left _ hb)) hOpen
    have hAlone : t.alone e = true := hWhole _ (List.mem_append_right _ List.mem_cons_self)
    have hLast : e.Untroubled := hCalm e (List.mem_append_right _ List.mem_cons_self)
    cases e with
    | call call => exact hAgrees.call hStep
    | sweep cutoff => exact hAgrees.sweep hStep
    | advance i cue =>
      exact hAgrees.advance hBefore hIds' hStep hLast hAlone hGoesOn

-- ---------------------------------------------------------------------------
-- Between the operations
-- ---------------------------------------------------------------------------

/-- The views of a realm between its operations. -/
structure Consistent (u : System δ) : Prop where
  /-- No run is queued twice. -/
  once : u.realm.queue.ids.Nodup
  queued : ∀ id, id ∈ u.realm.queue.ids ↔
    ∃ x ∈ u.realm.store.records, x.id = id ∧ x.state = .queued
  bound : ∀ id, id ∈ u.realm.tokens.running.map (·.1) ↔
    ∃ x ∈ u.realm.store.records, x.id = id ∧ x.state = .running
  /-- The statistics show as many runs in the queue, and as many at work, as there are records. -/
  depth : ∀ cue : Cue, cue.fault = none →
    (u.realm.stats cue).queueDepth = (u.realm.stats cue).statuses.queued ∧
      (u.realm.stats cue).running = (u.realm.stats cue).statuses.running
  /-- Every run that was admitted is over, or waits, or goes on. -/
  total : ∀ cue : Cue, cue.fault = none →
    (u.realm.stats cue).counters.admitted =
      (u.realm.stats cue).counters.finished + (u.realm.stats cue).counters.failed +
        (u.realm.stats cue).counters.canceled + (u.realm.stats cue).counters.interrupted +
          (u.realm.stats cue).statuses.queued + (u.realm.stats cue).statuses.running

/-- Runs that are over are in one of the four states. -/
theorem length_of_terminal {ends : List JobRecord} (h : ∀ y ∈ ends, y.isTerminal = true) :
    ends.length = ends.countP (·.state = .finished) + ends.countP (·.state = .failed) +
      ends.countP (·.state = .canceled) + ends.countP (·.state = .interrupted) := by
  induction ends with
  | nil => rfl
  | cons y rest ih =>
    have hRest := ih fun z hz => h z (List.mem_cons_of_mem y hz)
    have hOver := h y List.mem_cons_self
    simp only [List.length_cons, List.countP_cons]
    cases hState : y.state with
    | queued =>
      rw [JobRecord.isTerminal_of_queued hState] at hOver
      cases hOver
    | running =>
      rw [JobRecord.isTerminal_of_running hState] at hOver
      cases hOver
    | finished | failed | canceled | interrupted =>
      simp
      omega

/-- After whole operations on a store that was empty at the beginning, in any number and order, the
queue holds exactly the runs that wait, each once, the table binds exactly those that go on, and the
counters account for all runs, whatever was deleted. -/
theorem views_of_run (hRun : (initial settings registry Store.empty).run events = some u)
    (hIds : ((initial settings registry Store.empty).runIds events).Nodup)
    (hCalm : ∀ e ∈ events, e.Untroubled)
    (hWhole : (initial settings registry Store.empty).OneByOne events)
    (hGoesOn : u.realm.stopping = false) (hRest : ∀ th ∈ u.threads, th.atRest = true) :
    u.Consistent := by
  have hAgreed := (agrees_of_run hRun hIds hCalm hWhole hGoesOn).agreed
  rw [pending_of_atRest hRest] at hAgreed
  have hQueue : u.realm.queue.ids.Perm (u.realm.store.idsIn .queued) :=
    List.perm_iff_count.mpr fun id => hAgreed.waiting id
  have hTable : (u.realm.tokens.running.map (·.1)).Perm (u.realm.store.idsIn .running) :=
    List.perm_iff_count.mpr fun id => hAgreed.running id
  have hDepth : u.realm.queue.size = u.realm.store.countIn .queued := by
    rw [← Store.length_idsIn, ← hQueue.length_eq, Queue.ids, List.length_map, Queue.size]
  have hBound : u.realm.tokens.running.length = u.realm.store.countIn .running := by
    rw [← Store.length_idsIn, ← hTable.length_eq, List.length_map]
  have hStatuses : ∀ cue : Cue, cue.fault = none →
      (u.realm.stats cue).statuses = u.realm.store.counts := by
    intro cue hFault
    simp only [Realm.stats, Realm.ask, hFault]
  have hJoining : u.gather (·.joining) = [] :=
    List.flatMap_eq_nil_iff.mpr fun th hMem => (Thread.idle_of_atRest (hRest th hMem)).2.1
  have hOwed : u.owed = [] := List.flatMap_eq_nil_iff.mpr fun th hMem => by
    rw [(Thread.idle_of_atRest (hRest th hMem)).2.2]
    rfl
  refine ⟨?_, fun id => ?_, fun id => ?_, fun cue hFault => ?_, fun cue hFault => ?_⟩
  · exact hQueue.nodup_iff.mpr (Store.nodup_idsIn _ _)
  · rw [hQueue.mem_iff, Store.mem_idsIn]
  · rw [hTable.mem_iff, Store.mem_idsIn]
  · rw [hStatuses cue hFault]
    exact ⟨hDepth, hBound⟩
  · have hSettled := settled_of_run hRun hIds
    have hEnds := length_of_terminal fun y hy => (hSettled.ended y hy).1
    have hAdmitted := admitted_of_run hRun
    have hTotal := (admissions_perm hRun hIds).length_eq
    have hFinal : ∀ state : JobState, state.isTerminal = true → _ :=
      fun state hState => hSettled.final_eq hOwed hState
    rw [hJoining, List.length_nil, Nat.add_zero] at hAdmitted
    rw [List.length_map, List.length_append, List.length_map, Store.activeIds, List.length_append,
      Store.length_idsIn, Store.length_idsIn, hEnds, ← hFinal .finished rfl, ← hFinal .failed rfl,
      ← hFinal .canceled rfl, ← hFinal .interrupted rfl] at hTotal
    rw [hStatuses cue hFault]
    show u.realm.counters.admitted = _
    rw [hAdmitted, hTotal]
    simp only [Counters.final, Realm.stats, Store.counts, Nat.add_assoc]

/-- Two runs are admitted. One fails at its first attempt and waits for the next; the other is
canceled and then deleted. -/
def retriedAndDeleted : List Event :=
  let request : JobRequest :=
    { jobKey := "job", name := "job", group := none, arguments := Dict.empty,
      metadata := Dict.empty, constraints := [], retryPolicy := none, trigger := .immediate }
  let advance (i n : Nat) : Event := .advance i { now := ⟨n, 0⟩, fresh := ⟨BitVec.ofNat 128 n⟩ }
  [.call .start, advance 0 1, advance 0 2, advance 0 3, advance 0 4, advance 0 5,
    .call (.submit request), advance 3 6, advance 3 7, advance 3 8, advance 3 9, advance 3 10,
    advance 3 11,
    .call (.submit request), advance 4 12, advance 4 13, advance 4 14, advance 4 15, advance 4 16,
    advance 4 17,
    advance 1 18, advance 1 19, advance 1 20, advance 1 21,
    .call (.cancel ⟨⟨14⟩⟩), advance 5 22, advance 5 23, advance 5 24, advance 5 25, advance 5 26,
    advance 1 27,
    .advance 1 { now := ⟨28, 0⟩, fresh := default, outcome := .error (.failed "once more" true) },
    advance 1 29, advance 1 30, advance 1 31, advance 1 32,
    .call (.delete [⟨⟨14⟩⟩]), advance 6 33]

theorem views_of_run_retriedAndDeleted :
    ∃ u : System Unit,
      (initial { workers := 1 } ⟨Dict.empty.insert "job" ()⟩ Store.empty).run
        retriedAndDeleted = some u ∧
      u.realm.queue.ids = [⟨⟨8⟩⟩] ∧ u.realm.counters.admitted = 2 ∧
      u.realm.counters.canceled = 1 ∧ u.Consistent := by
  have hEnd : ((initial { workers := 1 } ⟨Dict.empty.insert "job" ()⟩ Store.empty).run
      retriedAndDeleted).map (fun u : System Unit => (u.realm.stopping,
        u.threads.all (·.atRest), u.realm.queue.ids, u.realm.counters.admitted,
        u.realm.counters.canceled)) = some (false, true, [⟨⟨8⟩⟩], 2, 1) := by
    decide +kernel
  have hIds : ((initial { workers := 1 } ⟨Dict.empty.insert "job" ()⟩ Store.empty :
      System Unit).runIds retriedAndDeleted).Nodup := by
    decide +kernel
  have hWhole : (initial { workers := 1 } ⟨Dict.empty.insert "job" ()⟩ Store.empty :
      System Unit).OneByOne retriedAndDeleted := by
    unfold OneByOne
    decide +kernel
  have hCalm : ∀ e ∈ retriedAndDeleted, e.Untroubled := by
    simp [retriedAndDeleted, Event.Untroubled]
  obtain ⟨u, hRun, hSeen⟩ := Option.map_eq_some_iff.mp hEnd
  simp only [Prod.mk.injEq, List.all_eq_true] at hSeen
  obtain ⟨hGoesOn, hRest, hQueue, hAdmitted, hCanceled⟩ := hSeen
  exact ⟨u, hRun, hQueue, hAdmitted, hCanceled, views_of_run hRun hIds hCalm hWhole hGoesOn hRest⟩

end System

end BackgroundJobs
