import BackgroundJobs.Proofs.Realm.Lifecycle
import BackgroundJobs.Proofs.Realm.Queue

/-!
# Proofs — what happens to the dispatch queue

A thread that works on the queue adds an id at its end, takes one out, removes
all entries of one, or closes it. Idle workers take ids out, a cancellation
removes those of the run that it has canceled, and only a shutdown closes the
queue, after it has marked the realm as stopping.

Main results:

* `Thread.handling_of_step` — what a step does to the queue.
* `stopping_of_closed`      — a realm whose queue is closed is stopping.
-/

namespace BackgroundJobs

-- ---------------------------------------------------------------------------
-- The steps that work on the queue
-- ---------------------------------------------------------------------------

variable {δ : Type} {cue : Cue} {r r' : Realm δ} {th th' : Thread δ} {crew : List (Thread δ)}

/-- What a thread's step does to the queue of the realm. -/
inductive Thread.Handling (r r' : Realm δ) (th th' : Thread δ) : Prop where
  /-- The entries are left as they are, and a closed queue stays closed. -/
  | leaves (entries : r'.queue.entries = r.queue.entries)
    (closed : r'.queue.closed = r.queue.closed)
  | pushes (id : JobId) (notBefore : Option Instant) (queue : r'.queue = r.queue.push id notBefore)
  /-- A cancellation removes the entries of the run that it has canceled. -/
  | removes (record : JobRecord) (before : th = .caller (.canceling (.unqueueing record)))
    (queue : r'.queue = r.queue.remove record.id)
  /-- A worker is handed an id. -/
  | takes (id : JobId) (now : Instant) (before : th = .worker .idle)
    (after : th' = .worker (.taken id)) (queue : r.queue.take? now = some (id, r'.queue))
  | closes (drain : Bool) (before : th = .caller (.stopping (.closing drain)))
    (queue : r'.queue = r.queue.close)

namespace Thread

theorem Handling.of_queue_eq (h : r'.queue = r.queue) : Handling r r' th th' :=
  .leaves (by rw [h]) (by rw [h])

theorem handling_of_caller {point : CallPoint}
    (h : step cue r (.caller point) = some (r', th', crew)) :
    Handling r r' (.caller point) th' := by
  by_cases hTouched : Part.queue ∈ (Thread.caller point : Thread δ).touched
  · cases point with
    | made call =>
      obtain ⟨-, rfl | rfl⟩ := Call.mem_touched hTouched <;> cases h <;> exact .leaves rfl rfl
    | admitting a point =>
      rcases AdmissionPoint.mem_touched hTouched with ⟨-, record, rfl⟩ | hPart
      · cases h
        exact .pushes record.id none rfl
      · cases hPart
    | starting point =>
      rcases Startup.mem_touched hTouched with ⟨-, id, rest, rfl⟩ | hPart
      · cases h
        exact .pushes id none rfl
      · cases hPart
    | stopping point =>
      rcases Shutdown.mem_touched hTouched with ⟨-, drain, rfl⟩ | ⟨hPart, -⟩ | hPart
      · cases drain <;> cases h <;> exact .closes _ rfl rfl
      · cases hPart
      · cases hPart
    | canceling point =>
      rcases Cancellation.mem_touched hTouched with ⟨-, record, rfl⟩ | ⟨hPart, -⟩
      · cases h
        exact .removes record rfl rfl
      · cases hPart
    | scheduling => cases hTouched
    | declaring => cases hTouched
  · exact .of_queue_eq ((effect h).queue hTouched)

theorem handling_of_timer {t : Timer} (h : step cue r (.timer t) = some (r', th', crew)) :
    Handling r r' (.timer t) th' := by
  by_cases hTouched : Part.queue ∈ (Thread.timer t : Thread δ).touched
  · obtain ⟨-, now, id, rest, a, point, rfl⟩ := Timer.mem_touched hTouched
    rcases AdmissionPoint.mem_touched hTouched with ⟨-, record, rfl⟩ | hPart
    · cases h
      exact .pushes record.id none rfl
    · cases hPart
  · exact .of_queue_eq ((effect h).queue hTouched)

theorem handling_of_worker {w : Worker δ} (h : step cue r (.worker w) = some (r', th', crew)) :
    Handling r r' (.worker w) th' := by
  by_cases hTouched : Part.queue ∈ (Thread.worker w : Thread δ).touched
  · rcases Worker.mem_touched hTouched with
      ⟨-, rfl | ⟨record, rfl⟩⟩ | ⟨hPart, -⟩ | ⟨hPart | hPart, -⟩ | ⟨hPart, -⟩
    · obtain ⟨w', hWorker, rfl, -⟩ := step_worker h
      simp only [Worker.step] at hWorker
      split at hWorker
      · cases hWorker
        exact .leaves rfl rfl
      · obtain ⟨⟨id, queue⟩, hTake, hEq⟩ := Option.map_eq_some_iff.mp hWorker
        cases hEq
        exact .takes id cue.now rfl rfl hTake
    · cases h
      exact .pushes record.id _ rfl
    all_goals cases hPart
  · exact .of_queue_eq ((effect h).queue hTouched)

/-- Every step handles the queue in one of these ways. -/
theorem handling_of_step (h : th.step cue r = some (r', th', crew)) : Handling r r' th th' := by
  cases th with
  | caller point => exact handling_of_caller h
  | timer t => exact handling_of_timer h
  | worker w => exact handling_of_worker h
  | answered answer => cases h

/-- An id stays in the queue until it is handed out, or its run was canceled. -/
theorem Handling.mem_ids {id : JobId} (h : Handling r r' th th') (hMem : id ∈ r.queue.ids) :
    id ∈ r'.queue.ids ∨ th' = .worker (.taken id) ∨
      ∃ record, th = .caller (.canceling (.unqueueing record)) ∧ record.id = id := by
  cases h with
  | leaves hEntries _ =>
    rw [Queue.ids, hEntries]
    exact .inl hMem
  | pushes other notBefore hQueue =>
    rw [hQueue]
    exact .inl (Queue.mem_ids_push hMem notBefore)
  | removes record hBefore hQueue =>
    by_cases hId : record.id = id
    · exact .inr (.inr ⟨record, hBefore, hId⟩)
    · rw [hQueue]
      exact .inl (Queue.mem_ids_remove hMem (Ne.symm hId))
  | takes other now _ hAfter hTake =>
    rcases Queue.mem_ids_of_take hTake hMem with rfl | hRest
    · exact .inr (.inl hAfter)
    · exact .inl hRest
  | closes drain _ hQueue =>
    rw [hQueue]
    exact .inl hMem

/-- Only a shutdown closes the queue. -/
theorem Handling.closed (h : Handling r r' th th') (hClosed : r'.queue.closed = true) :
    r.queue.closed = true ∨ ∃ drain, th = .caller (.stopping (.closing drain)) := by
  cases h with
  | leaves _ hSame => exact .inl (hSame ▸ hClosed)
  | pushes other notBefore hQueue =>
    rw [hQueue, Queue.closed_push] at hClosed
    exact .inl hClosed
  | removes record _ hQueue =>
    rw [hQueue] at hClosed
    exact .inl hClosed
  | takes other now _ _ hTake =>
    rw [(Queue.take?_eq_some hTake).2.1] at hClosed
    cases hClosed
  | closes drain hBefore _ => exact .inr ⟨drain, hBefore⟩

end Thread

namespace System

variable {s u : System δ} {e : Event} {events : List Event}

/-- A realm whose queue is closed is stopping. -/
theorem stopping_of_closed {settings : RealmSettings} {registry : Registry δ} {store : Store}
    (hRun : (initial settings registry store).run events = some u)
    (hClosed : u.realm.queue.closed = true) : u.realm.stopping = true := by
  refine run_induction (motive := fun _ u => u.realm.queue.closed = true →
    u.realm.stopping = true) hRun nofun ?_ hClosed
  intro before t e v hBefore hStep ih hClosed
  cases e with
  | call call =>
    cases hStep
    exact ih hClosed
  | sweep cutoff =>
    cases hStep
    exact ih hClosed
  | advance i cue =>
    have hStays := stopping_of_step hStep
    obtain ⟨th, r', th', crew, hAt, hThread, rfl⟩ := step_advance hStep
    rcases (Thread.handling_of_step hThread).closed hClosed with hOld | ⟨drain, rfl⟩
    · exact hStays (ih hOld)
    · exact hStays ((governed_of_run hBefore).stopping hAt rfl)

end System

end BackgroundJobs
