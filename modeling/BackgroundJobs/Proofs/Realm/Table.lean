import BackgroundJobs.Proofs.Realm.Lifecycle

/-!
# Proofs — the table of triggers

The timer has the table of triggers for itself while it goes through it. In
between a caller may register a trigger, put one on another schedule or drop
it, and nobody else works on the table.

Main results:

* `triggersLock_lawful`  — the lock of the table is lawful.
* `Thread.edit_of_step`  — what the step of anyone but the timer does to the table.
-/

namespace BackgroundJobs

-- ---------------------------------------------------------------------------
-- Entries
-- ---------------------------------------------------------------------------

/-- Looking something up among pairs of other keys. -/
theorem lookup_filter_ne {α β : Type} [DecidableEq α] (l : List (α × β)) (key other : α) :
    (l.filter (·.1 != key)).lookup other = if other = key then none else l.lookup other := by
  induction l with
  | nil => simp
  | cons pair rest ih =>
    obtain ⟨k, value⟩ := pair
    by_cases hKey : k = key
    · subst hKey
      rw [List.filter_cons_of_neg (by simp), ih]
      by_cases hOther : other = k
      · simp [hOther]
      · simp [List.lookup_cons, beq_false_of_ne hOther]
    · rw [List.filter_cons_of_pos (by simpa using hKey), List.lookup_cons, List.lookup_cons, ih]
      by_cases hOther : other = k
      · simp [hOther, hKey]
      · simp [beq_false_of_ne hOther]

namespace Triggers

variable {t : Triggers} {id other : TriggerId}

theorem find?_insert_self (t : Triggers) (id : TriggerId) (entry : TriggerEntry) :
    find? (insert id entry t) id = some entry := by
  induction t with
  | nil => simp [insert, find?]
  | cons first rest ih =>
    obtain ⟨i, e⟩ := first
    rw [find?] at ih
    unfold insert find?
    split
    · simp
    · split
      · simp
      · next hNe =>
        rw [List.lookup_cons, beq_false_of_ne hNe]
        exact ih

theorem find?_insert_of_ne (h : other ≠ id) (entry : TriggerEntry) :
    find? (insert id entry t) other = find? t other := by
  induction t with
  | nil => simp [insert, find?, List.lookup_cons, beq_false_of_ne h]
  | cons first rest ih =>
    obtain ⟨i, e⟩ := first
    rw [find?, find?] at ih
    unfold insert find?
    split
    · rw [List.lookup_cons, beq_false_of_ne h]
    · split
      · next hEq =>
        subst hEq
        simp [List.lookup_cons, beq_false_of_ne h]
      · rw [List.lookup_cons, List.lookup_cons, ih]

theorem find?_modify (t : Triggers) (id other : TriggerId) (change : TriggerEntry → TriggerEntry) :
    (t.modify id change).find? other =
      if other = id then (t.find? other).map change else t.find? other := by
  induction t with
  | nil => simp [modify, find?]
  | cons first rest ih =>
    obtain ⟨i, e⟩ := first
    rw [find?, find?, modify] at ih
    rw [find?, find?, modify, List.map_cons]
    by_cases hFirst : other = i
    · subst hFirst
      by_cases hId : other = id <;> simp [hId]
    · by_cases hId : i = id
      · simp [hId, List.lookup_cons, beq_false_of_ne (hId ▸ hFirst), ih]
      · simp [hId, List.lookup_cons, beq_false_of_ne hFirst, ih]

theorem find?_modify_self (t : Triggers) (id : TriggerId) (change : TriggerEntry → TriggerEntry) :
    (t.modify id change).find? id = (t.find? id).map change := by
  rw [find?_modify, if_pos rfl]

theorem find?_modify_of_ne (h : other ≠ id) (change : TriggerEntry → TriggerEntry) :
    (t.modify id change).find? other = t.find? other := by
  rw [find?_modify, if_neg h]

theorem find?_erase (t : Triggers) (id other : TriggerId) :
    (t.erase id).find? other = if other = id then none else t.find? other :=
  lookup_filter_ne t id other

/-- The triggers in the order of their ids, so that none of them is there twice. -/
def Sorted (t : Triggers) : Prop :=
  (t.map (·.1)).Pairwise (· < ·)

theorem Sorted.nodup (h : Sorted t) : (t.map (·.1)).Nodup :=
  h.imp fun hLt => by
    rintro rfl
    exact BitVec.lt_irrefl _ hLt

theorem mem_map_insert {entry : TriggerEntry} {key : TriggerId}
    (h : key ∈ (insert id entry t).map (·.1)) : key = id ∨ key ∈ t.map (·.1) := by
  induction t with
  | nil => exact .inl (List.mem_singleton.mp h)
  | cons first rest ih =>
    obtain ⟨i, e⟩ := first
    unfold insert at h
    split at h
    · exact List.mem_cons.mp h
    · split at h
      · next hEq => exact (List.mem_cons.mp h).imp_right (List.mem_cons_of_mem i)
      · rcases List.mem_cons.mp h with rfl | hRest
        · exact .inr List.mem_cons_self
        · exact (ih hRest).imp_right (List.mem_cons_of_mem i)

theorem Sorted.insert (h : Sorted t) (id : TriggerId) (entry : TriggerEntry) :
    Sorted (Triggers.insert id entry t) := by
  induction t with
  | nil => exact List.pairwise_singleton _ _
  | cons first rest ih =>
    obtain ⟨i, e⟩ := first
    obtain ⟨hFirst, hRest⟩ := List.pairwise_cons.mp h
    unfold Triggers.insert
    split
    · next hLt =>
      refine List.pairwise_cons.mpr ⟨fun key hKey => ?_, h⟩
      rcases List.mem_cons.mp hKey with rfl | hKey
      · exact hLt
      · exact BitVec.lt_trans hLt (hFirst key hKey)
    · next hNotLt =>
      split
      · next hEq =>
        subst hEq
        exact List.pairwise_cons.mpr ⟨hFirst, hRest⟩
      · next hNe =>
        have hLt : i < id := by
          have hBits : i.uuid.bits ≠ id.uuid.bits := fun hEq =>
            hNe (congrArg (fun bits => TriggerId.mk ⟨bits⟩) hEq.symm)
          exact BitVec.lt_of_le_ne (BitVec.not_lt.mp hNotLt) hBits
        refine List.pairwise_cons.mpr ⟨fun key hKey => ?_, ih hRest⟩
        rcases mem_map_insert hKey with rfl | hKey
        · exact hLt
        · exact hFirst key hKey

theorem map_modify (t : Triggers) (id : TriggerId) (change : TriggerEntry → TriggerEntry) :
    (t.modify id change).map (·.1) = t.map (·.1) := by
  rw [modify, List.map_map]
  refine List.map_congr_left fun entry _ => ?_
  show (if entry.1 = id then _ else _ : TriggerId × TriggerEntry).1 = entry.1
  split <;> rfl

theorem Sorted.modify (h : Sorted t) (id : TriggerId) (change : TriggerEntry → TriggerEntry) :
    Sorted (t.modify id change) := by
  rw [Sorted, map_modify]
  exact h

theorem Sorted.erase (h : Sorted t) (id : TriggerId) : Sorted (t.erase id) :=
  List.Pairwise.sublist (List.filter_sublist.map _) h

theorem mem_map_of_find? {entry : TriggerEntry} (h : t.find? id = some entry) :
    id ∈ t.map (·.1) := by
  obtain ⟨first, last, hEq, -⟩ := List.lookup_eq_some_iff.mp h
  rw [hEq]
  simp

end Triggers

-- ---------------------------------------------------------------------------
-- The lock of the table
-- ---------------------------------------------------------------------------

/-- Where the timer is in a pass: the time that it goes by, the trigger that it works on, and those
that it still comes to. -/
def Timer.pass? : Timer → Option (Instant × Option TriggerId × List TriggerId)
  | .passing now rest => some (now, none, rest)
  | .checking now id _ rest | .firing now id rest _ _ | .noting now id rest _ =>
    some (now, some id, rest)
  | .resting | .waiting _ | .retired => none

/-- Is the timer going through the triggers? -/
def Timer.locked (w : Timer) : Bool :=
  w.pass?.isSome

variable {δ : Type} {cue : Cue} {r r' : Realm δ} {th th' : Thread δ} {crew : List (Thread δ)}

def Thread.patrols : Thread δ → Bool
  | .timer t => t.locked
  | _ => false

def triggersLock : Lock δ := ⟨(·.triggersHeld), Thread.patrols⟩

/-- Is the table of triggers left alone, and whether someone works on it? -/
def Realm.SameTable (r r' : Realm δ) : Prop :=
  r'.triggers = r.triggers ∧ r'.triggersHeld = r.triggersHeld

theorem Realm.sameTable_of_tell {α : Type} {action : Store → Except StoreError (α × Store)}
    {result : Except StoreError α} (h : r.tell cue action = (result, r')) : r.SameTable r' := by
  cases result with
  | ok a =>
    obtain ⟨-, store, -, rfl⟩ := (tell_eq_ok r cue).mp h
    exact ⟨rfl, rfl⟩
  | error e =>
    cases tell_eq_error r cue h
    exact ⟨rfl, rfl⟩

theorem Admission.sameTable {a : Admission} {point : AdmissionPoint}
    {p : Progress AdmissionPoint (Except JobError JobRecord)}
    (h : a.step cue r point = some (r', p)) : r.SameTable r' := by
  cases point with
  | waiting =>
    simp only [step] at h
    split at h <;> cases h
    exact ⟨rfl, rfl⟩
  | checking =>
    simp only [step] at h
    split at h
    · cases h
      exact ⟨rfl, rfl⟩
    · split at h <;> cases h <;> exact ⟨rfl, rfl⟩
  | creating record =>
    simp only [step] at h
    split at h <;> next hTold =>
      cases h
      obtain ⟨hTriggers, hHeld⟩ := Realm.sameTable_of_tell hTold
      exact ⟨hTriggers, hHeld⟩
  | queueing record | counting record =>
    cases h
    exact ⟨rfl, rfl⟩

theorem Cancellation.sameTable {point : Cancellation}
    {p : Progress Cancellation (Except JobError JobRecord)} (h : point.step cue r = (r', p)) :
    r.SameTable r' := by
  cases point with
  | looking id =>
    simp only [step] at h
    split at h
    · cases h
      exact ⟨rfl, rfl⟩
    · split at h <;> cases h <;> exact ⟨rfl, rfl⟩
  | revoking id | marking id =>
    simp only [step] at h
    split at h <;> next hTold =>
      cases h
      exact Realm.sameTable_of_tell hTold
  | unqueueing record | finishing record | signalling record =>
    cases h
    exact ⟨rfl, rfl⟩

theorem Startup.sameTable {point : Startup} {p : Progress Startup (Except JobError Unit)}
    (h : point.step cue r = some (r', p)) : r.SameTable r' := by
  cases point with
  | waiting =>
    obtain ⟨-, ⟨_, -, rfl⟩ | ⟨_, -, -, -, rfl⟩⟩ := step_waiting h <;> exact ⟨rfl, rfl⟩
  | listing =>
    simp only [step] at h
    split at h <;> cases h <;> exact ⟨rfl, rfl⟩
  | recovering rest =>
    cases rest with
    | nil =>
      cases h
      exact ⟨rfl, rfl⟩
    | cons record rest =>
      simp only [step] at h
      split at h
      · cases h
        exact ⟨rfl, rfl⟩
      · split at h <;> next hTold =>
          cases h
          obtain ⟨hTriggers, hHeld⟩ := Realm.sameTable_of_tell hTold
          exact ⟨hTriggers, hHeld⟩
      · cases h
        exact ⟨rfl, rfl⟩
  | queueing id rest | finishing record rest | opening =>
    cases h
    exact ⟨rfl, rfl⟩

theorem Shutdown.sameTable {point : Shutdown} {p : Progress Shutdown ShutdownReport}
    (h : point.step cue r = some (r', p)) : r.SameTable r' := by
  cases point with
  | waiting =>
    simp only [step] at h
    split at h
    · cases h
    · split at h <;> cases h <;> exact ⟨rfl, rfl⟩
  | closing drain =>
    simp only [step] at h
    split at h <;> cases h <;> exact ⟨rfl, rfl⟩
  | draining deadline =>
    simp only [step] at h
    split at h
    · cases h
      exact ⟨rfl, rfl⟩
    · split at h <;> cases h
      exact ⟨rfl, rfl⟩
  | striking stuck report =>
    cases stuck <;> cases h <;> exact ⟨rfl, rfl⟩
  | interrupting id stuck report =>
    simp only [step] at h
    split at h <;> next hTold =>
      cases h
      exact Realm.sameTable_of_tell hTold
  | marking drain | finishing record stuck report =>
    cases h
    exact ⟨rfl, rfl⟩

theorem Worker.sameTable {w w' : Worker δ} (h : w.step cue r = some (r', w')) : r.SameTable r' := by
  cases w with
  | idle =>
    simp only [step] at h
    split at h
    · cases h
      exact ⟨rfl, rfl⟩
    · obtain ⟨x, -, hEq⟩ := Option.map_eq_some_iff.mp h
      cases hEq
      exact ⟨rfl, rfl⟩
  | claimed record token =>
    simp only [step] at h
    split at h <;> cases h <;> split <;> exact ⟨rfl, rfl⟩
  | claiming id token | recording record t | withdrawing record =>
    simp only [step] at h
    split at h <;> next hTold =>
      cases h
      exact Realm.sameTable_of_tell hTold
  | taken | entering | executing | judging | requeueing | finishing | leaving =>
    cases h
    exact ⟨rfl, rfl⟩
  | retired => cases h

-- ---------------------------------------------------------------------------
-- Registration
-- ---------------------------------------------------------------------------

/-- The trigger that is about to be put into the table. -/
def Registration.pending? : Registration → Option (TriggerId × TriggerEntry)
  | .inserting id entry => some (id, entry)
  | .opening _ => none

def Declaration.pending? : Declaration → Option (TriggerId × TriggerEntry)
  | .registering point _ _ => point.pending?
  | .next .. => none

/-- The trigger that a thread is about to put into the table. -/
def Thread.pending? : Thread δ → Option (TriggerId × TriggerEntry)
  | .caller (.scheduling point) => point.pending?
  | .caller (.declaring point) => point.pending?
  | _ => none

theorem Registration.table_step {point : Registration}
    {p : Progress Registration (Except JobError TriggerId)}
    (h : point.step cue r = some (r', p)) :
    r.SameTable r' ∨ ∃ id entry, point.pending? = some (id, entry) ∧ r.triggersHeld = false ∧
      r' = { r with triggers := Triggers.insert id entry r.triggers } := by
  cases point with
  | opening request =>
    simp only [step] at h
    split at h <;> cases h <;> exact .inl ⟨rfl, rfl⟩
  | inserting id entry =>
    simp only [step] at h
    split at h
    · cases h
    · next hFree =>
      cases h
      exact .inr ⟨id, entry, rfl, by simpa using hFree, rfl⟩

theorem Declaration.table_step {point : Declaration}
    {p : Progress Declaration (Except JobError (List TriggerId))}
    (h : point.step cue r = some (r', p)) :
    r.SameTable r' ∨ ∃ id entry, point.pending? = some (id, entry) ∧ r.triggersHeld = false ∧
      r' = { r with triggers := Triggers.insert id entry r.triggers } := by
  cases point with
  | next rest made =>
    cases rest with
    | nil =>
      cases h
      exact .inl ⟨rfl, rfl⟩
    | cons settings rest =>
      simp only [step] at h
      split at h <;> cases h <;> exact .inl ⟨rfl, rfl⟩
  | registering point rest made =>
    obtain ⟨⟨r₁, q⟩, hStep, hEq⟩ := Option.map_eq_some_iff.mp h
    have hTable := Registration.table_step hStep
    split at hEq <;> next hPair => cases hPair; cases hEq; exact hTable

-- ---------------------------------------------------------------------------
-- Those who do not go through the triggers
-- ---------------------------------------------------------------------------

/-- What the step of a thread that does not go through the triggers does to the table of them. -/
inductive Thread.Edit (cue : Cue) (r r' : Realm δ) (th th' : Thread δ) : Prop where
  | leaves (same : r.SameTable r') (after : th'.patrols = false)
  /-- The timer begins to go through the triggers. -/
  | begins (now : Instant) (free : r.triggersHeld = false) (held : r'.triggersHeld = true)
    (table : r'.triggers = r.triggers) (after : th' = .timer (.passing now (r.triggers.map (·.1))))
  | inserts (id : TriggerId) (entry : TriggerEntry) (before : th.pending? = some (id, entry))
    (free : r.triggersHeld = false) (held : r'.triggersHeld = false) (after : th'.patrols = false)
    (table : r'.triggers = Triggers.insert id entry r.triggers)
  | reschedules (id : TriggerId) (entry : TriggerEntry) (times : Schedule)
    (found : r.triggers.find? id = some entry)
    (free : r.triggersHeld = false) (held : r'.triggersHeld = false) (after : th'.patrols = false)
    (table : r'.triggers = r.triggers.modify id fun _ => entry.reschedule times cue.now)
    (asked : th = .caller (.made (.reschedule id times)))
  | drops (id : TriggerId)
    (free : r.triggersHeld = false) (held : r'.triggersHeld = false) (after : th'.patrols = false)
    (table : r'.triggers = r.triggers.erase id)

theorem Call.edit_of_begin {call : Call} {p : Progress CallPoint Answer} {th' : Thread δ}
    (h : call.begin cue r = some (r', p)) (hAfter : th'.patrols = false) :
    Thread.Edit cue r r' (.caller (.made call)) th' := by
  have hTold : ∀ {α : Type} (action : Store → Except StoreError (α × Store)),
      r' = (r.tell cue action).2 → Thread.Edit cue r r' (.caller (.made call)) th' := by
    rintro α action rfl
    exact .leaves (Realm.sameTable_of_tell rfl) hAfter
  cases call with
  | submit request =>
    simp only [begin] at h
    split at h
    · cases h
      exact .leaves ⟨rfl, rfl⟩ hAfter
    · split at h
      · cases h
        exact .leaves ⟨rfl, rfl⟩ hAfter
      · split at h <;> cases h <;> exact .leaves ⟨rfl, rfl⟩ hAfter
  | reschedule id times =>
    simp only [begin, onTrigger] at h
    split at h
    · cases h
    · next hFree =>
      have hFree' : r.triggersHeld = false := by simpa using hFree
      split at h
      · cases h
        exact .leaves ⟨rfl, rfl⟩ hAfter
      · next entry hFound =>
        cases h
        exact .reschedules id entry times hFound hFree' hFree' hAfter rfl rfl
  | unschedule id =>
    simp only [begin, onTrigger] at h
    split at h
    · cases h
    · next hFree =>
      have hFree' : r.triggersHeld = false := by simpa using hFree
      split at h <;> cases h
      · exact .leaves ⟨rfl, rfl⟩ hAfter
      · exact .drops id hFree' hFree' hAfter rfl
  | triggers =>
    simp only [begin] at h
    split at h <;> cases h
    exact .leaves ⟨rfl, rfl⟩ hAfter
  | delete ids =>
    cases h
    exact hTold (fun s => .ok (s.deleteTerminal ids)) rfl
  | purge =>
    simp only [begin] at h
    split at h
    · cases h
      exact .leaves ⟨rfl, rfl⟩ hAfter
    · next cutoff _ =>
      cases h
      exact hTold (fun s => .ok (s.deleteFinishedBefore cutoff)) rfl
  | start | shutdown | pause | unpause | cancel _ | status _ | list _ | listGroup _ | schedule _
  | declare _ | stats =>
    cases h
    exact .leaves ⟨rfl, rfl⟩ hAfter

theorem Thread.edit_of_step (hApart : th.patrols = false)
    (h : th.step cue r = some (r', th', crew)) : Thread.Edit cue r r' th th' := by
  cases th with
  | answered answer => cases h
  | worker w =>
    obtain ⟨w', hStep, rfl, -⟩ := step_worker h
    exact .leaves (Worker.sameTable hStep) rfl
  | timer t =>
    obtain ⟨t', hStep, rfl, -⟩ := step_timer h
    cases t with
    | resting =>
      cases hStep
      refine .leaves ⟨rfl, rfl⟩ ?_
      show Timer.locked _ = false
      split <;> rfl
    | waiting now =>
      simp only [Timer.step] at hStep
      split at hStep
      · cases hStep
      · next hFree =>
        cases hStep
        exact .begins now (by simpa using hFree) rfl rfl rfl
    | retired => cases hStep
    | passing | checking | firing | noting => cases hApart
  | caller point =>
    have hAfter : th'.patrols = false := by
      rcases step_caller h with ⟨_, -, rfl, -⟩ | ⟨_, -, rfl, -⟩ <;> rfl
    have hStep : ∃ p, point.step cue r = some (r', p) := by
      rcases step_caller h with ⟨_, hStep, -⟩ | ⟨_, hStep, -⟩ <;> exact ⟨_, hStep⟩
    obtain ⟨p, hStep⟩ := hStep
    cases point with
    | made call => exact Call.edit_of_begin hStep hAfter
    | canceling point =>
      obtain ⟨q, hq⟩ := CallPoint.lift_eq (Option.some.inj hStep)
      exact .leaves (Cancellation.sameTable hq) hAfter
    | admitting a point =>
      obtain ⟨x, hPoint, hx⟩ := Option.map_eq_some_iff.mp hStep
      obtain ⟨q, rfl⟩ := CallPoint.lift_eq hx
      exact .leaves (Admission.sameTable hPoint) hAfter
    | starting point =>
      obtain ⟨x, hPoint, hx⟩ := Option.map_eq_some_iff.mp hStep
      obtain ⟨q, rfl⟩ := CallPoint.lift_eq hx
      exact .leaves (Startup.sameTable hPoint) hAfter
    | stopping point =>
      obtain ⟨x, hPoint, hx⟩ := Option.map_eq_some_iff.mp hStep
      obtain ⟨q, rfl⟩ := CallPoint.lift_eq hx
      exact .leaves (Shutdown.sameTable hPoint) hAfter
    | scheduling point =>
      obtain ⟨x, hPoint, hx⟩ := Option.map_eq_some_iff.mp hStep
      obtain ⟨q, rfl⟩ := CallPoint.lift_eq hx
      rcases Registration.table_step hPoint with hSame | ⟨id, entry, hPending, hFree, rfl⟩
      · exact .leaves hSame hAfter
      · exact .inserts id entry hPending hFree hFree hAfter rfl
    | declaring point =>
      obtain ⟨x, hPoint, hx⟩ := Option.map_eq_some_iff.mp hStep
      obtain ⟨q, rfl⟩ := CallPoint.lift_eq hx
      rcases Declaration.table_step hPoint with hSame | ⟨id, entry, hPending, hFree, rfl⟩
      · exact .leaves hSame hAfter
      · exact .inserts id entry hPending hFree hFree hAfter rfl

-- ---------------------------------------------------------------------------
-- The timer
-- ---------------------------------------------------------------------------

/-- What came of the firing of a trigger: the run that it made, if it made one. -/
def TriggerEntry.note (e : TriggerEntry) : Option JobId → TriggerEntry
  | some job => e.noteSpawned job
  | none => e.noteSkipped

/-- What a step of the timer in the course of a pass does to the table. -/
inductive Timer.Stride (r r' : Realm δ) (w w' : Timer) : Prop where
  | ends (now : Instant) (before : w = .passing now []) (after : w' = .resting)
    (free : r'.triggersHeld = false) (table : r'.triggers = r.triggers)
  | passes (now : Instant) (id : TriggerId) (rest : List TriggerId)
    (before : w = .passing now (id :: rest)) (after : w' = .passing now rest)
    (early : ∀ e, r.triggers.find? id = some e → e.isDue now = false) (same : r.SameTable r')
  | comes (now : Instant) (id : TriggerId) (rest : List TriggerId) (e : TriggerEntry)
    (before : w = .passing now (id :: rest)) (after : w'.pass? = some (now, some id, rest))
    (found : r.triggers.find? id = some e) (due : e.isDue now = true)
    (held : r'.triggersHeld = r.triggersHeld)
    (table : r'.triggers = r.triggers.modify id (·.advance now))
  | works (now : Instant) (id : TriggerId) (rest : List TriggerId)
    (before : w.pass? = some (now, some id, rest)) (after : w'.pass? = some (now, some id, rest))
    (same : r.SameTable r')
  | notes (now : Instant) (id : TriggerId) (rest : List TriggerId) (made : Option JobId)
    (before : w = .noting now id rest made) (after : w' = .passing now rest)
    (held : r'.triggersHeld = r.triggersHeld)
    (table : r'.triggers = r.triggers.modify id (·.note made))

theorem Timer.pass?_fire (cue : Cue) (r : Realm δ) (now : Instant) (id : TriggerId)
    (rest : List TriggerId) (e : TriggerEntry) :
    (fire cue r now id rest e).pass? = some (now, some id, rest) := by
  unfold fire
  split <;> rfl

theorem Timer.stride_of_step {w w' : Timer} (hLocked : w.locked = true)
    (h : w.step cue r = some (r', w')) : Timer.Stride r r' w w' := by
  cases w with
  | resting | waiting | retired => cases hLocked
  | passing now rest =>
    cases rest with
    | nil =>
      cases h
      exact .ends now rfl rfl rfl rfl
    | cons id rest =>
      simp only [step] at h
      split at h
      · next hNone =>
        cases h
        refine .passes now id rest rfl rfl (fun e hFound => ?_) ⟨rfl, rfl⟩
        rw [hNone] at hFound
        cases hFound
      · next e hFound =>
        split at h
        · next hDue =>
          split at h <;> cases h
          · exact .comes now id rest e rfl rfl hFound hDue rfl rfl
          · exact .comes now id rest e rfl (pass?_fire ..) hFound hDue rfl rfl
        · next hEarly =>
          cases h
          refine .passes now id rest rfl rfl (fun e' hFound' => ?_) ⟨rfl, rfl⟩
          rw [hFound] at hFound'
          cases hFound'
          simpa using hEarly
  | checking now id last rest =>
    simp only [step] at h
    split at h <;> cases h
    · exact .works now id rest rfl (pass?_fire ..) ⟨rfl, rfl⟩
    · exact .works now id rest rfl rfl ⟨rfl, rfl⟩
  | firing now id rest a point =>
    obtain ⟨⟨r₁, p⟩, hStep, hEq⟩ := Option.map_eq_some_iff.mp h
    have hSame := Admission.sameTable hStep
    split at hEq <;> next hPair =>
      cases hPair
      cases hEq
      exact .works now id rest rfl rfl hSame
  | noting now id rest made =>
    cases made <;> cases h <;> exact .notes now id rest _ rfl rfl rfl rfl

theorem Thread.timer_of_patrols (h : th.patrols = true) :
    ∃ t : Timer, th = .timer t ∧ t.locked = true := by
  cases th with
  | timer t => exact ⟨t, rfl, h⟩
  | caller | worker | answered => cases h

theorem triggersLock_lawful : (triggersLock : Lock δ).Lawful where
  call _ := rfl
  crew hStep x hx := by
    rcases Thread.crew_of_step hStep x hx with rfl | rfl <;> rfl
  owner {cue r th r' th' crew} hStep hOwns hHeld := by
    obtain ⟨t, rfl, hLocked⟩ := Thread.timer_of_patrols hOwns
    obtain ⟨t', hTimer, rfl, -⟩ := Thread.step_timer hStep
    cases Timer.stride_of_step hLocked hTimer with
    | ends now before after free =>
      subst after
      exact free
    | passes now id rest before after early same =>
      subst after
      exact same.2.trans hHeld
    | comes now id rest e before after found due held =>
      have hLocked' : t'.locked = true := by rw [Timer.locked, after]; rfl
      exact held.trans (hHeld.trans hLocked'.symm)
    | works now id rest before after same =>
      have hLocked' : t'.locked = true := by rw [Timer.locked, after]; rfl
      exact same.2.trans (hHeld.trans hLocked'.symm)
    | notes now id rest made before after held =>
      subst after
      exact held.trans hHeld
  other {cue r th r' th' crew} hStep hNot := by
    cases Thread.edit_of_step hNot hStep with
    | leaves same after => exact .inl ⟨after, same.2⟩
    | begins now free held table after =>
      subst after
      exact .inr ⟨rfl, free, held⟩
    | inserts id entry before free held after | reschedules id entry times found free held after
    | drops id free held after => exact .inl ⟨after, held.trans free.symm⟩
  sweep _ _ := rfl

end BackgroundJobs
