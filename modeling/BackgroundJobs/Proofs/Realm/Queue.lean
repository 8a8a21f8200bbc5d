import BackgroundJobs.Realm.Queue
import Mathlib.Data.List.Infix
import Mathlib.Data.List.Induction
import Mathlib.Data.List.Nodup
import Mathlib.Tactic.Tauto

/-!
# Proofs — the order of the dispatch queue

Every entry that was ever added is named by the step that added it, so that two
entries of one id are told apart. An entry waits until it is handed out or
removed, and at every time the queue holds the entries that wait, in the order
in which they were added. Nothing is assumed of the times at which the queue is
asked.

Main results:

* `take?_eq_some_iff`, `take?_eq_none_iff` — what is handed out at a given time.
* `Fits.concat`     — one more operation continues the fates of the entries.
* `Fits.first_come` — an entry without a time of its own is not overtaken.
* `orderly_of_run`  — the fate of every entry, and the order in which they are
  handed out.
-/

namespace BackgroundJobs

-- ---------------------------------------------------------------------------
-- The operations of the queue
-- ---------------------------------------------------------------------------

namespace Queue

variable {q q' : Queue} {id other : JobId} {now : Instant}

theorem contains_iff : q.contains id = true ↔ id ∈ q.ids := by
  simp [contains, ids]

@[simp] theorem closed_push (q : Queue) (id : JobId) (notBefore : Option Instant) :
    (q.push id notBefore).closed = q.closed := by
  unfold push
  split <;> rfl

@[simp] theorem paused_push (q : Queue) (id : JobId) (notBefore : Option Instant) :
    (q.push id notBefore).paused = q.paused := by
  unfold push
  split <;> rfl

theorem mem_ids_push (h : other ∈ q.ids) (notBefore : Option Instant) :
    other ∈ (q.push id notBefore).ids := by
  unfold push
  split
  · exact h
  · rw [ids, List.map_append]
    exact List.mem_append_left _ h

theorem mem_ids_of_push {notBefore : Option Instant} (h : other ∈ (q.push id notBefore).ids) :
    other ∈ q.ids ∨ other = id := by
  unfold push at h
  split at h
  · exact .inl h
  · simpa [ids] using h

theorem mem_ids_remove (h : other ∈ q.ids) (hNe : other ≠ id) : other ∈ (q.remove id).ids := by
  obtain ⟨entry, hEntry, rfl⟩ := List.mem_map.mp h
  exact List.mem_map_of_mem (List.mem_filter.mpr ⟨hEntry, by simpa using hNe⟩)

/-- The queue hands out the first entry that is due, and only while it is open and not paused. -/
theorem take?_eq_some_iff : q.take? now = some (id, q') ↔
    q.closed = false ∧ q.paused = false ∧ ∃ before entry rest, q.entries = before ++ entry :: rest ∧
      entry.isDue now = true ∧ (∀ e ∈ before, e.isDue now = false) ∧ entry.jobId = id ∧
        q' = { q with entries := before ++ rest } := by
  have hErase : ∀ {before entry rest}, q.entries = before ++ entry :: rest →
      entry.isDue now = true → (∀ e ∈ before, e.isDue now = false) →
        q.entries.eraseP (·.isDue now) = before ++ rest := by
    intro before entry rest hEntries hDue hEarlier
    have hHead : (entry :: rest).eraseP (·.isDue now) = rest := by simp [hDue]
    rw [hEntries, List.eraseP_append_right _ fun e he => by simpa using hEarlier e he, hHead]
  constructor
  · intro h
    unfold take? at h
    split at h
    · cases h
    · next hOpen =>
      simp only [Bool.or_eq_true, not_or, Bool.not_eq_true] at hOpen
      split at h
      · next entry hFind =>
        obtain ⟨hDue, before, rest, hEntries, hEarlier⟩ := List.find?_eq_some_iff_append.mp hFind
        have hEarlier' : ∀ e ∈ before, e.isDue now = false := by simpa using hEarlier
        rw [hErase hEntries hDue hEarlier'] at h
        cases h
        exact ⟨hOpen.1, hOpen.2, before, entry, rest, hEntries, hDue, hEarlier', rfl, rfl⟩
      · cases h
  · rintro ⟨hOpen, hGoing, before, entry, rest, hEntries, hDue, hEarlier, rfl, rfl⟩
    have hFind : q.entries.find? (·.isDue now) = some entry :=
      List.find?_eq_some_iff_append.mpr
        ⟨hDue, before, rest, hEntries, fun e he => by simpa using hEarlier e he⟩
    simp [take?, hOpen, hGoing, hFind, hErase hEntries hDue hEarlier]

/-- Nothing is handed out exactly if the queue is closed or paused, or no entry is due. -/
theorem take?_eq_none_iff : q.take? now = none ↔
    q.closed = true ∨ q.paused = true ∨ ∀ e ∈ q.entries, e.isDue now = false := by
  unfold take?
  by_cases hShut : (q.closed || q.paused) = true
  · rw [if_pos hShut]
    rw [Bool.or_eq_true] at hShut
    tauto
  · rw [if_neg hShut]
    rw [Bool.or_eq_true] at hShut
    have hFind : q.entries.find? (·.isDue now) = none ↔ ∀ e ∈ q.entries, e.isDue now = false := by
      simp
    cases hCase : q.entries.find? (·.isDue now) with
    | none => simp [← hFind, hCase]
    | some e => simp [← hFind, hCase, not_or.mp hShut]

/-- The queue hands out one entry, of the id that it names, and only while it is open. -/
theorem take?_eq_some (h : q.take? now = some (id, q')) :
    q.closed = false ∧ q'.closed = false ∧
      ∃ entry before after, entry.jobId = id ∧ q.entries = before ++ entry :: after ∧
        q'.entries = before ++ after := by
  obtain ⟨hOpen, -, before, entry, after, hEntries, -, -, hId, rfl⟩ := take?_eq_some_iff.mp h
  exact ⟨hOpen, hOpen, entry, before, after, hId, hEntries, rfl⟩

theorem paused_of_take? (h : q.take? now = some (id, q')) : q'.paused = q.paused := by
  obtain ⟨-, -, before, entry, after, -, -, -, -, rfl⟩ := take?_eq_some_iff.mp h
  rfl

theorem mem_ids_of_take (h : q.take? now = some (id, q')) (hMem : other ∈ q.ids) :
    other = id ∨ other ∈ q'.ids := by
  obtain ⟨-, -, entry, before, after, hId, hEntries, hRest⟩ := take?_eq_some h
  simp only [ids, hEntries, hRest, List.map_append, List.map_cons, List.mem_append, List.mem_cons,
    hId] at hMem ⊢
  rcases hMem with hBefore | hSame | hAfter
  · exact .inr (.inl hBefore)
  · exact .inl hSame
  · exact .inr (.inr hAfter)

/-- A queue that is neither closed nor paused and has an entry hands one out, when its time has
come. -/
theorem exists_take? (hOpen : q.closed = false) (hGoes : q.paused = false)
    (hSome : q.entries ≠ []) : ∃ now x, q.take? now = some x := by
  obtain ⟨entry, rest, hEntries⟩ := List.exists_cons_of_ne_nil hSome
  have hDue : entry.isDue (entry.notBefore.getD default) = true := by
    unfold QueueEntry.isDue
    split
    · rfl
    · next time hTime => simp [hTime, Instant.le_refl]
  refine ⟨entry.notBefore.getD default, ?_⟩
  simp [take?, hOpen, hGoes, hEntries, hDue]

end Queue

-- ---------------------------------------------------------------------------
-- Histories
-- ---------------------------------------------------------------------------

/-- What can be done with a queue. A take is one attempt at the given time. -/
inductive QueueOp where
  | push (id : JobId) (notBefore : Option Instant)
  | remove (id : JobId)
  | pause
  | unpause
  | close
  | take (now : Instant)
  deriving DecidableEq

/-- The entry that a step adds, with the number of the step. -/
def QueueOp.pushed (step : Nat) : QueueOp → List (Nat × QueueEntry)
  | .push id notBefore => [(step, ⟨id, notBefore⟩)]
  | .remove _ | .pause | .unpause | .close | .take _ => []

namespace Queue

/-- What an operation makes of a queue. -/
def apply (q : Queue) : QueueOp → Queue
  | .push id notBefore => q.push id notBefore
  | .remove id => q.remove id
  | .pause => q.pause
  | .unpause => q.unpause
  | .close => q.close
  | .take now => ((q.take? now).map (·.2)).getD q

/-- The queue after some operations on an empty one. -/
def after (ops : List QueueOp) : Queue :=
  ops.foldl apply empty

/-- The entries that are added by operations that come after `step` others, with the numbers of
the steps that add them. A closed queue takes nothing in. -/
def pushesFrom (step : Nat) : List QueueOp → List (Nat × QueueEntry)
  | [] => []
  | .close :: _ => []
  | op :: rest => op.pushed step ++ pushesFrom (step + 1) rest

/-- The entries that were ever added, the earliest first. -/
def pushes (ops : List QueueOp) : List (Nat × QueueEntry) :=
  pushesFrom 0 ops

/-- Was the queue paused last, and not opened again? -/
def isPausedBy (ops : List QueueOp) : Bool :=
  ops.foldl (fun paused op =>
    match op with
    | .pause => true
    | .unpause => false
    | _ => paused) false

variable {q : Queue} {ops : List QueueOp} {op : QueueOp} {x y : Nat × QueueEntry}

theorem after_concat (ops : List QueueOp) (op : QueueOp) :
    after (ops ++ [op]) = (after ops).apply op := by
  simp [after]

theorem pushesFrom_concat (step : Nat) (ops : List QueueOp) (op : QueueOp) :
    pushesFrom step (ops ++ [op]) =
      pushesFrom step ops ++ if .close ∈ ops then [] else op.pushed (step + ops.length) := by
  induction ops generalizing step with
  | nil => cases op <;> simp [pushesFrom, QueueOp.pushed]
  | cons first rest ih =>
    by_cases hClose : first = .close
    · simp [hClose, pushesFrom]
    · have hLength : step + 1 + rest.length = step + (first :: rest).length := by
        rw [List.length_cons]
        omega
      cases first with
      | close => exact absurd rfl hClose
      | push | remove | pause | unpause | take => simp [pushesFrom, ih, hLength]

theorem pushes_concat (ops : List QueueOp) (op : QueueOp) :
    pushes (ops ++ [op]) = pushes ops ++ if .close ∈ ops then [] else op.pushed ops.length := by
  rw [pushes, pushes, pushesFrom_concat, Nat.zero_add]

theorem lt_of_mem_pushes {x : Nat × QueueEntry} (hx : x ∈ pushes ops) : x.1 < ops.length := by
  induction ops using List.reverseRecOn with
  | nil => cases hx
  | append_singleton before op ih =>
    rw [pushes_concat, List.mem_append] at hx
    rw [List.length_append, List.length_singleton]
    rcases hx with hOld | hNew
    · exact Nat.lt_succ_of_lt (ih hOld)
    · split at hNew
      · cases hNew
      · cases op with
        | push => rw [List.mem_singleton.mp hNew]; exact Nat.lt_succ_self _
        | remove | pause | unpause | close | take => cases hNew

/-- Later entries were added by later steps. -/
theorem pairwise_pushes (ops : List QueueOp) : (pushes ops).Pairwise (·.1 < ·.1) := by
  induction ops using List.reverseRecOn with
  | nil => exact List.Pairwise.nil
  | append_singleton before op ih =>
    rw [pushes_concat]
    refine List.pairwise_append.mpr ⟨ih, ?_, fun x hx y hy => ?_⟩
    · split
      · exact List.Pairwise.nil
      · cases op <;> simp [QueueOp.pushed]
    · have hx' := lt_of_mem_pushes hx
      split at hy
      · cases hy
      · cases op with
        | push => rw [List.mem_singleton.mp hy]; exact hx'
        | remove | pause | unpause | close | take => cases hy

theorem closed_apply : (q.apply op).closed = true ↔ q.closed = true ∨ op = .close := by
  cases op with
  | push => simp [apply]
  | remove | pause | unpause | close => simp [apply, remove, pause, unpause, close]
  | take now =>
    cases hTake : q.take? now with
    | none => simp [apply, hTake]
    | some x =>
      obtain ⟨hOpen, hOpen', -⟩ := take?_eq_some hTake
      simp [apply, hTake, hOpen, hOpen']

theorem paused_apply : (q.apply op).paused =
    match op with
    | .pause => true
    | .unpause => false
    | _ => q.paused := by
  cases op with
  | push => simp [apply]
  | remove | pause | unpause | close => rfl
  | take now =>
    cases hTake : q.take? now with
    | none => simp [apply, hTake]
    | some x => simp [apply, hTake, paused_of_take? hTake]

theorem closed_after : (after ops).closed = true ↔ .close ∈ ops := by
  induction ops using List.reverseRecOn with
  | nil => simp [after, empty]
  | append_singleton before op ih =>
    rw [after_concat, closed_apply, ih, List.mem_append, List.mem_singleton, eq_comm (b := op)]

theorem paused_after : (after ops).paused = isPausedBy ops := by
  induction ops using List.reverseRecOn with
  | nil => rfl
  | append_singleton before op ih =>
    rw [after_concat, paused_apply, ih]
    simp only [isPausedBy, List.foldl_append, List.foldl_cons, List.foldl_nil]

theorem eq_of_mem_pushes (hx : x ∈ pushes ops) (hy : y ∈ pushes ops) (h : x.1 = y.1) : x = y := by
  have hNodup : ((pushes ops).map (·.1)).Nodup :=
    List.pairwise_map.mpr ((pairwise_pushes ops).imp Nat.ne_of_lt)
  exact List.inj_on_of_nodup_map hNodup hx hy h

end Queue

-- ---------------------------------------------------------------------------
-- Fates
-- ---------------------------------------------------------------------------

/-- What became of an entry. -/
inductive Fate where
  | waiting
  | handedOut (step : Nat)
  | removed (step : Nat)
  deriving DecidableEq

/-- Does an entry still wait when so many steps are over? -/
def Fate.waitsAfter (steps : Nat) : Fate → Bool
  | .waiting => true
  | .handedOut step | .removed step => steps ≤ step

/-- What becomes of the entries that an operation takes out of the queue. -/
def QueueOp.ending (step : Nat) : QueueOp → Fate
  | .take _ => .handedOut step
  | .push .. | .remove _ | .pause | .unpause | .close => .removed step

namespace Queue

variable {fate : Nat → Fate} {ops earlier : List QueueOp} {op : QueueOp} {now : Instant}
  {x y : Nat × QueueEntry}

/-- The entries that wait after some steps, the earliest first. -/
def waitingAfter (fate : Nat → Fate) (ops : List QueueOp) : List (Nat × QueueEntry) :=
  (pushes ops).filter fun x => (fate x.1).waitsAfter ops.length

/-- Do the fates of the entries fit what was done with the queue? -/
structure Fits (fate : Nat → Fate) (ops : List QueueOp) : Prop where
  /-- At every time the queue holds the entries that wait, in the order in which they were added. -/
  entries : ∀ earlier, earlier <+: ops →
    (after earlier).entries = (waitingAfter fate earlier).map (·.2)
  /-- A step hands out the earliest added of the entries that are due. -/
  handedOut : ∀ earlier op, earlier ++ [op] <+: ops → ∀ x ∈ pushes ops,
    (fate x.1 = .handedOut earlier.length ↔ ∃ now rest, op = .take now ∧
      (after earlier).take? now = some (x.2.jobId, rest) ∧ x ∈ waitingAfter fate earlier ∧
        x.2.isDue now = true ∧
          ∀ y ∈ waitingAfter fate earlier, y.2.isDue now = true → x.1 ≤ y.1)
  removed : ∀ earlier op, earlier ++ [op] <+: ops → ∀ x ∈ pushes ops,
    (fate x.1 = .removed earlier.length ↔
      op = .remove x.2.jobId ∧ x ∈ waitingAfter fate earlier)
  /-- An entry ends after it was added, by a step that was taken. -/
  ended : ∀ k step, fate k = .handedOut step ∨ fate k = .removed step →
    k < step ∧ step < ops.length

theorem mem_waitingAfter : x ∈ waitingAfter fate ops ↔
    x ∈ pushes ops ∧ (fate x.1).waitsAfter ops.length = true :=
  List.mem_filter

theorem pairwise_waitingAfter (fate : Nat → Fate) (ops : List QueueOp) :
    (waitingAfter fate ops).Pairwise (·.1 < ·.1) :=
  (pairwise_pushes ops).filter _

theorem Fits.waits_iff (hFits : Fits fate ops) (k : Nat) :
    (fate k).waitsAfter ops.length = true ↔ fate k = .waiting := by
  cases hFate : fate k with
  | waiting => simp [Fate.waitsAfter]
  | handedOut step | removed step =>
    have hEnded := (hFits.ended k step (by simp [hFate])).2
    simp [Fate.waitsAfter, hEnded]

-- ---------------------------------------------------------------------------
-- One more operation
-- ---------------------------------------------------------------------------

/-- The waiting entries that an operation takes out of the queue. -/
def endedBy (fate : Nat → Fate) (ops : List QueueOp) : QueueOp → List (Nat × QueueEntry)
  | .take now =>
    if (after ops).closed || (after ops).paused then []
    else ((waitingAfter fate ops).find? (·.2.isDue now)).toList
  | .remove id => (waitingAfter fate ops).filter (·.2.jobId == id)
  | .push .. | .pause | .unpause | .close => []

/-- The fates of the entries when one more operation has been carried out. -/
def continued (fate : Nat → Fate) (ops : List QueueOp) (op : QueueOp) (k : Nat) : Fate :=
  if k ∈ (endedBy fate ops op).map (·.1) then op.ending ops.length else fate k

theorem mem_waiting_of_endedBy (h : x ∈ endedBy fate ops op) : x ∈ waitingAfter fate ops := by
  cases op with
  | take now =>
    simp only [endedBy] at h
    split at h
    · cases h
    · exact List.mem_of_find?_eq_some (Option.mem_toList.mp h)
  | remove id => exact (List.mem_filter.mp h).1
  | push | pause | unpause | close => cases h

theorem lt_of_mem_endedBy {k : Nat} (h : k ∈ (endedBy fate ops op).map (·.1)) : k < ops.length := by
  obtain ⟨x, hx, rfl⟩ := List.mem_map.mp h
  exact lt_of_mem_pushes (mem_waitingAfter.mp (mem_waiting_of_endedBy hx)).1

theorem mem_endedBy_iff (hx : x ∈ pushes ops) :
    x.1 ∈ (endedBy fate ops op).map (·.1) ↔ x ∈ endedBy fate ops op := by
  refine ⟨fun h => ?_, fun h => List.mem_map_of_mem h⟩
  obtain ⟨y, hy, hEq⟩ := List.mem_map.mp h
  have hy' := (mem_waitingAfter.mp (mem_waiting_of_endedBy hy)).1
  rwa [← eq_of_mem_pushes hy' hx hEq]

theorem waitsAfter_ending (op : QueueOp) (step steps : Nat) :
    (op.ending step).waitsAfter steps = decide (steps ≤ step) := by
  cases op <;> rfl

/-- Up to the last operation, nothing changes. -/
theorem Fits.waitsAfter_continued (hFits : Fits fate ops) (op : QueueOp) {steps : Nat}
    (hSteps : steps ≤ ops.length) (k : Nat) :
    (continued fate ops op k).waitsAfter steps = (fate k).waitsAfter steps := by
  unfold continued
  split
  · next hGone =>
    obtain ⟨x, hx, rfl⟩ := List.mem_map.mp hGone
    have hWaits := (hFits.waits_iff x.1).mp (mem_waitingAfter.mp (mem_waiting_of_endedBy hx)).2
    rw [waitsAfter_ending, hWaits]
    simpa [Fate.waitsAfter] using hSteps
  · rfl

theorem Fits.waitingAfter_continued (hFits : Fits fate ops) (op : QueueOp)
    (hEarlier : earlier <+: ops) :
    waitingAfter (continued fate ops op) earlier = waitingAfter fate earlier := by
  refine List.filter_congr fun x _ => ?_
  exact hFits.waitsAfter_continued op hEarlier.length_le x.1

/-- What waits after one more operation: what has waited and was not taken out, and what was
added. -/
theorem Fits.waitingAfter_concat (hFits : Fits fate ops) (op : QueueOp) :
    waitingAfter (continued fate ops op) (ops ++ [op]) =
      (waitingAfter fate ops).filter (· ∉ endedBy fate ops op) ++
        if .close ∈ ops then [] else op.pushed ops.length := by
  rw [waitingAfter, pushes_concat, List.filter_append, waitingAfter, List.filter_filter,
    List.length_append, List.length_singleton]
  congr 1
  · refine List.filter_congr fun x hx => ?_
    by_cases hGone : x ∈ endedBy fate ops op
    · have hKey := (mem_endedBy_iff hx).mpr hGone
      rw [continued, if_pos hKey, waitsAfter_ending]
      simp [hGone]
    · have hKey := mt (mem_endedBy_iff hx).mp hGone
      rw [continued, if_neg hKey, Bool.eq_iff_iff]
      simp only [hGone, not_false_eq_true, decide_true, Bool.true_and, hFits.waits_iff]
      cases hFate : fate x.1 with
      | waiting => simp [Fate.waitsAfter]
      | handedOut step | removed step =>
        have hEnded := (hFits.ended x.1 step (by simp [hFate])).2
        simp [Fate.waitsAfter]
        omega
  · refine List.filter_eq_self.mpr fun x hx => ?_
    have hStep : x.1 = ops.length := by
      split at hx
      · cases hx
      · cases op with
        | push => rw [List.mem_singleton.mp hx]
        | remove | pause | unpause | close | take => cases hx
    have hKey : x.1 ∉ (endedBy fate ops op).map (·.1) := fun h => by
      have hLt := lt_of_mem_endedBy h
      omega
    rw [continued, if_neg hKey]
    cases hFate : fate x.1 with
    | waiting => rfl
    | handedOut step | removed step =>
      have hEnded := hFits.ended x.1 step (by simp [hFate])
      omega

/-- What a take does, in terms of the entries that wait. -/
theorem take_cases (hEntries : (after ops).entries = (waitingAfter fate ops).map (·.2))
    (now : Instant) :
    ((after ops).take? now = none ∧ endedBy fate ops (.take now) = []) ∨
      ∃ before x rest, waitingAfter fate ops = before ++ x :: rest ∧ x.2.isDue now = true ∧
        (∀ y ∈ before, y.2.isDue now = false) ∧ endedBy fate ops (.take now) = [x] ∧
          (after ops).take? now =
            some (x.2.jobId, { after ops with entries := (before ++ rest).map (·.2) }) := by
  by_cases hShut : ((after ops).closed || (after ops).paused) = true
  · refine .inl ⟨take?_eq_none_iff.mpr ?_, by rw [endedBy, if_pos hShut]⟩
    rw [Bool.or_eq_true] at hShut
    tauto
  · have hEnded : endedBy fate ops (.take now) =
        ((waitingAfter fate ops).find? (·.2.isDue now)).toList := by rw [endedBy, if_neg hShut]
    simp only [Bool.or_eq_true, not_or, Bool.not_eq_true] at hShut
    cases hFind : (waitingAfter fate ops).find? (·.2.isDue now) with
    | none =>
      refine .inl ⟨take?_eq_none_iff.mpr (.inr (.inr fun e he => ?_)), by rw [hEnded, hFind]; rfl⟩
      rw [hEntries] at he
      obtain ⟨x, hx, rfl⟩ := List.mem_map.mp he
      simpa using List.find?_eq_none.mp hFind x hx
    | some x =>
      obtain ⟨hDue, before, rest, hSplit, hEarlier⟩ := List.find?_eq_some_iff_append.mp hFind
      have hEarlier' : ∀ y ∈ before, y.2.isDue now = false := by simpa using hEarlier
      refine .inr ⟨before, x, rest, hSplit, hDue, hEarlier', by rw [hEnded, hFind]; rfl, ?_⟩
      refine take?_eq_some_iff.mpr ⟨hShut.1, hShut.2, before.map (·.2), x.2, rest.map (·.2), ?_,
        hDue, ?_, rfl, by rw [List.map_append]⟩
      · rw [hEntries, hSplit, List.map_append, List.map_cons]
      · intro e he
        obtain ⟨y, hy, rfl⟩ := List.mem_map.mp he
        exact hEarlier' y hy

/-- The entry that a take hands out is the earliest added of those that are due. -/
theorem mem_endedBy_take (hEntries : (after ops).entries = (waitingAfter fate ops).map (·.2))
    (now : Instant) :
    x ∈ endedBy fate ops (.take now) ↔ ∃ rest, (after ops).take? now = some (x.2.jobId, rest) ∧
      x ∈ waitingAfter fate ops ∧ x.2.isDue now = true ∧
        ∀ y ∈ waitingAfter fate ops, y.2.isDue now = true → x.1 ≤ y.1 := by
  rcases take_cases hEntries now with ⟨hTake, hEnded⟩ | ⟨before, z, rest, hSplit, hDue, hEarlier,
    hEnded, hTake⟩
  · simp [hTake, hEnded]
  · have hOrder := pairwise_waitingAfter fate ops
    rw [hSplit, List.pairwise_append, List.pairwise_cons] at hOrder
    obtain ⟨-, ⟨hLater, -⟩, -⟩ := hOrder
    rw [hEnded, List.mem_singleton, hSplit]
    constructor
    · rintro rfl
      refine ⟨_, hTake, by simp, hDue, fun y hy hDueY => ?_⟩
      rcases List.mem_append.mp hy with hBefore | hFrom
      · rw [hEarlier y hBefore] at hDueY
        cases hDueY
      · rcases List.mem_cons.mp hFrom with rfl | hAfter
        · exact Nat.le_refl _
        · exact Nat.le_of_lt (hLater y hAfter)
    · rintro ⟨_, -, hx, hDueX, hFirst⟩
      rcases List.mem_append.mp hx with hBefore | hFrom
      · rw [hEarlier x hBefore] at hDueX
        cases hDueX
      · rcases List.mem_cons.mp hFrom with rfl | hAfter
        · rfl
        · have hLe := hFirst z (by simp) hDue
          have hLt := hLater x hAfter
          omega

/-- Taking one of several entries out leaves those before and after it. -/
theorem filter_of_pairwise {before rest : List (Nat × QueueEntry)}
    (hOrder : (before ++ x :: rest).Pairwise (·.1 < ·.1)) :
    (before ++ x :: rest).filter (· ∉ [x]) = before ++ rest := by
  obtain ⟨-, hFrom, hAcross⟩ := List.pairwise_append.mp hOrder
  have hBefore : before.filter (· ∉ [x]) = before := by
    refine List.filter_eq_self.mpr fun y hy => ?_
    have hLt := hAcross y hy x List.mem_cons_self
    have hNe : y ≠ x := fun hEq => by
      rw [hEq] at hLt
      exact Nat.lt_irrefl _ hLt
    simpa using hNe
  have hRest : rest.filter (· ∉ [x]) = rest := by
    refine List.filter_eq_self.mpr fun y hy => ?_
    have hLt := (List.pairwise_cons.mp hFrom).1 y hy
    have hNe : y ≠ x := fun hEq => by
      rw [hEq] at hLt
      exact Nat.lt_irrefl _ hLt
    simpa using hNe
  rw [List.filter_append, List.filter_cons_of_neg (by simp), hBefore, hRest]

theorem Fits.entries_concat (hFits : Fits fate ops) (op : QueueOp) :
    (after (ops ++ [op])).entries =
      (waitingAfter (continued fate ops op) (ops ++ [op])).map (·.2) := by
  have hEntries := hFits.entries ops (List.prefix_refl ops)
  rw [after_concat, hFits.waitingAfter_concat, List.map_append]
  cases op with
  | push id notBefore =>
    simp only [apply, push, closed_after, endedBy, QueueOp.pushed]
    split <;> simp [hEntries]
  | pause | unpause | close =>
    simp [apply, pause, unpause, close, endedBy, QueueOp.pushed, hEntries]
  | remove id =>
    have hKept : (waitingAfter fate ops).filter (· ∉ endedBy fate ops (.remove id)) =
        (waitingAfter fate ops).filter (·.2.jobId != id) := by
      refine List.filter_congr fun x hx => ?_
      by_cases hId : x.2.jobId = id <;> simp [endedBy, hx, hId]
    rw [hKept]
    simp [apply, remove, QueueOp.pushed, hEntries, List.filter_map, Function.comp_def]
  | take now =>
    rcases take_cases hEntries now with ⟨hTake, hEnded⟩ | ⟨before, x, rest, hSplit, -, -, hEnded,
      hTake⟩
    · simp [apply, hTake, hEnded, QueueOp.pushed, hEntries]
    · have hOrder := pairwise_waitingAfter fate ops
      rw [hSplit] at hOrder
      rw [hEnded, hSplit, filter_of_pairwise hOrder]
      simp [apply, hTake, QueueOp.pushed]

theorem Fits.ended_concat (hFits : Fits fate ops) (op : QueueOp) {k step : Nat}
    (h : continued fate ops op k = .handedOut step ∨ continued fate ops op k = .removed step) :
    k < step ∧ step < (ops ++ [op]).length := by
  rw [List.length_append, List.length_singleton]
  unfold continued at h
  split at h
  · next hGone =>
    have hLt := lt_of_mem_endedBy hGone
    have hStep : step = ops.length := by
      cases op <;> simp_all [QueueOp.ending]
    omega
  · have hEnded := hFits.ended k step h
    omega

theorem mem_pushes_of_concat (hx : x ∈ pushes (ops ++ [op])) (hOld : x.1 < ops.length) :
    x ∈ pushes ops := by
  rw [pushes_concat, List.mem_append] at hx
  refine hx.resolve_right fun hNew => ?_
  split at hNew
  · cases hNew
  · cases op with
    | push =>
      rw [List.mem_singleton.mp hNew] at hOld
      exact Nat.lt_irrefl _ hOld
    | remove | pause | unpause | close | take => cases hNew

/-- An entry ends by the last operation exactly if that takes it out. -/
theorem Fits.continued_eq_iff (hFits : Fits fate ops) (hx : x ∈ pushes ops) {f : Fate}
    (hEnds : f = .handedOut ops.length ∨ f = .removed ops.length) :
    continued fate ops op x.1 = f ↔ x ∈ endedBy fate ops op ∧ op.ending ops.length = f := by
  have hNotYet : fate x.1 ≠ f := by
    rintro rfl
    have hEnded := (hFits.ended x.1 ops.length hEnds).2
    exact Nat.lt_irrefl _ hEnded
  rw [continued, ← mem_endedBy_iff hx]
  split <;> simp_all

/-- The last operation does not change what has ended before. -/
theorem Fits.continued_eq_iff_of_lt (hFits : Fits fate ops) {f : Fate} {step k : Nat}
    (hEnds : f = .handedOut step ∨ f = .removed step) (hBefore : step < ops.length) :
    continued fate ops op k = f ↔ fate k = f := by
  unfold continued
  split
  · next hGone =>
    obtain ⟨x, hx, rfl⟩ := List.mem_map.mp hGone
    have hWaits := (hFits.waits_iff x.1).mp (mem_waitingAfter.mp (mem_waiting_of_endedBy hx)).2
    have hLate : op.ending ops.length ≠ f := by
      rintro rfl
      have hSame : step = ops.length := by
        cases op <;> simp_all [QueueOp.ending]
      omega
    rw [hWaits]
    rcases hEnds with rfl | rfl <;> simp [hLate]
  · rfl

/-- One more operation continues the fates of the entries. -/
theorem Fits.concat (hFits : Fits fate ops) (op : QueueOp) :
    Fits (continued fate ops op) (ops ++ [op]) where
  entries earlier hEarlier := by
    rcases List.prefix_concat_iff.mp hEarlier with rfl | hOld
    · exact hFits.entries_concat op
    · rw [hFits.waitingAfter_continued op hOld]
      exact hFits.entries earlier hOld
  handedOut earlier last hLast x hx := by
    by_cases hLate : x.1 < earlier.length
    · rcases List.prefix_concat_iff.mp hLast with hEq | hOld
      · obtain ⟨rfl, hOp⟩ := List.append_inj' hEq rfl
        obtain rfl := List.singleton_inj.mp hOp
        have hx' := mem_pushes_of_concat hx hLate
        rw [hFits.continued_eq_iff hx' (.inl rfl),
          hFits.waitingAfter_continued last (List.prefix_refl earlier)]
        cases last with
        | take now =>
          have hEntries := hFits.entries earlier (List.prefix_refl earlier)
          simp [mem_endedBy_take hEntries, QueueOp.ending]
        | push | remove | pause | unpause | close => simp [QueueOp.ending]
      · have hPrefix : earlier <+: ops := (List.prefix_append earlier [last]).trans hOld
        have hLength := hOld.length_le
        rw [List.length_append, List.length_singleton] at hLength
        have hx' := mem_pushes_of_concat hx (Nat.lt_of_lt_of_le hLate hPrefix.length_le)
        rw [hFits.continued_eq_iff_of_lt (.inl rfl) hLength,
          hFits.waitingAfter_continued op hPrefix]
        exact hFits.handedOut earlier last hOld x hx'
    · refine ⟨fun h => absurd (hFits.ended_concat op (.inl h)).1 hLate, ?_⟩
      rintro ⟨-, -, -, -, hWaits, -⟩
      exact absurd (lt_of_mem_pushes (mem_waitingAfter.mp hWaits).1) hLate
  removed earlier last hLast x hx := by
    by_cases hLate : x.1 < earlier.length
    · rcases List.prefix_concat_iff.mp hLast with hEq | hOld
      · obtain ⟨rfl, hOp⟩ := List.append_inj' hEq rfl
        obtain rfl := List.singleton_inj.mp hOp
        have hx' := mem_pushes_of_concat hx hLate
        rw [hFits.continued_eq_iff hx' (.inr rfl),
          hFits.waitingAfter_continued last (List.prefix_refl earlier)]
        cases last with
        | remove id =>
          constructor
          · rintro ⟨hEnded, -⟩
            obtain ⟨hWaits, hId⟩ := List.mem_filter.mp hEnded
            exact ⟨by rw [beq_iff_eq.mp hId], hWaits⟩
          · rintro ⟨hId, hWaits⟩
            cases hId
            exact ⟨List.mem_filter.mpr ⟨hWaits, by simp⟩, rfl⟩
        | push | pause | unpause | close | take => simp [QueueOp.ending, endedBy]
      · have hPrefix : earlier <+: ops := (List.prefix_append earlier [last]).trans hOld
        have hLength := hOld.length_le
        rw [List.length_append, List.length_singleton] at hLength
        have hx' := mem_pushes_of_concat hx (Nat.lt_of_lt_of_le hLate hPrefix.length_le)
        rw [hFits.continued_eq_iff_of_lt (.inr rfl) hLength,
          hFits.waitingAfter_continued op hPrefix]
        exact hFits.removed earlier last hOld x hx'
    · refine ⟨fun h => absurd (hFits.ended_concat op (.inr h)).1 hLate, ?_⟩
      rintro ⟨-, hWaits⟩
      exact absurd (lt_of_mem_pushes (mem_waitingAfter.mp hWaits).1) hLate
  ended k step h := hFits.ended_concat op h

/-- The entries of every history have their fates. -/
theorem exists_fits (ops : List QueueOp) : ∃ fate, Fits fate ops := by
  induction ops using List.reverseRecOn with
  | nil =>
    refine ⟨fun _ => .waiting, fun earlier hEarlier => ?_, fun earlier op hLast => ?_,
      fun earlier op hLast => ?_, fun k step h => ?_⟩
    · rw [List.prefix_nil.mp hEarlier]
      rfl
    · simp at hLast
    · simp at hLast
    · simp at h
  | append_singleton before op ih =>
    obtain ⟨fate, hFits⟩ := ih
    exact ⟨continued fate before op, hFits.concat op⟩

-- ---------------------------------------------------------------------------
-- First come, first served
-- ---------------------------------------------------------------------------

theorem mem_pushes_of_prefix (hEarlier : earlier <+: ops) (hx : x ∈ pushes ops)
    (hOld : x.1 < earlier.length) : x ∈ pushes earlier := by
  induction ops using List.reverseRecOn with
  | nil =>
    rw [List.prefix_nil.mp hEarlier] at hOld
    exact absurd hOld (Nat.not_lt_zero _)
  | append_singleton before op ih =>
    rcases List.prefix_concat_iff.mp hEarlier with rfl | hBefore
    · exact hx
    · exact ih hBefore (mem_pushes_of_concat hx (Nat.lt_of_lt_of_le hOld hBefore.length_le))

/-- An entry without a time of its own is handed out before all that are added later, unless it is
removed before. -/
theorem Fits.first_come (hFits : Fits fate ops) (hx : x ∈ pushes ops) (hy : y ∈ pushes ops)
    (hBefore : x.1 < y.1) (hPlain : x.2.notBefore = none) {step : Nat}
    (hHanded : fate y.1 = .handedOut step) :
    ∃ sooner < step, fate x.1 = .handedOut sooner ∨ fate x.1 = .removed sooner := by
  obtain ⟨hLate, hTaken⟩ := hFits.ended y.1 step (.inl hHanded)
  have hLength : (ops.take step).length = step := List.length_take_of_le (Nat.le_of_lt hTaken)
  have hPrefix : ops.take step ++ [ops[step]] <+: ops := by
    rw [← List.take_succ_eq_append_getElem hTaken]
    exact List.take_prefix _ _
  rw [← hLength] at hHanded
  obtain ⟨now, rest, -, -, -, -, hFirst⟩ := (hFits.handedOut _ _ hPrefix y hy).mp hHanded
  have hGone : ¬(fate x.1).waitsAfter step = true := by
    intro hWaits
    have hOld : x.1 < (ops.take step).length := by omega
    have hPushed := mem_pushes_of_prefix (List.take_prefix step ops) hx hOld
    have hDue : x.2.isDue now = true := by rw [QueueEntry.isDue, hPlain]
    have hLe := hFirst x (mem_waitingAfter.mpr ⟨hPushed, by rwa [hLength]⟩) hDue
    omega
  cases hFate : fate x.1 with
  | waiting => simp [hFate, Fate.waitsAfter] at hGone
  | handedOut sooner =>
    have hSooner : sooner < step := by simpa [hFate, Fate.waitsAfter] using hGone
    exact ⟨sooner, hSooner, .inl rfl⟩
  | removed sooner =>
    have hSooner : sooner < step := by simpa [hFate, Fate.waitsAfter] using hGone
    exact ⟨sooner, hSooner, .inr rfl⟩

/-- What was added stays on record. -/
theorem pushes_subset (hEarlier : earlier <+: ops) (hx : x ∈ pushes earlier) : x ∈ pushes ops := by
  obtain ⟨later, rfl⟩ := hEarlier
  induction later using List.reverseRecOn with
  | nil => rwa [List.append_nil]
  | append_singleton before op ih =>
    rw [← List.append_assoc, pushes_concat]
    exact List.mem_append_left _ ih

-- ---------------------------------------------------------------------------
-- Whole histories
-- ---------------------------------------------------------------------------

/-- What is handed out is the earliest of the waiting entries that are due, and it ends by that. -/
theorem Fits.answered (hFits : Fits fate ops) {id : JobId} {rest : Queue}
    (hLast : earlier ++ [.take now] <+: ops)
    (hTake : (after earlier).take? now = some (id, rest)) :
    ∃ x ∈ waitingAfter fate earlier, x.2.jobId = id ∧ x.2.isDue now = true ∧
      (∀ y ∈ waitingAfter fate earlier, y.2.isDue now = true → x.1 ≤ y.1) ∧
        fate x.1 = .handedOut earlier.length := by
  have hPrefix : earlier <+: ops := (List.prefix_append earlier _).trans hLast
  have hEntries := hFits.entries earlier hPrefix
  rcases take_cases hEntries now with ⟨hNone, -⟩ | ⟨before, x, behind, -, -, -, hEnded, hSome⟩
  · rw [hNone] at hTake
    cases hTake
  · rw [hSome] at hTake
    cases hTake
    have hLeaves : x ∈ endedBy fate earlier (.take now) := by rw [hEnded, List.mem_singleton]
    obtain ⟨_, hTaken, hx, hDue, hFirst⟩ := (mem_endedBy_take hEntries now).mp hLeaves
    have hPushed : x ∈ pushes ops := pushes_subset hPrefix (mem_waitingAfter.mp hx).1
    refine ⟨x, hx, rfl, hDue, hFirst, (hFits.handedOut earlier _ hLast x hPushed).mpr ?_⟩
    exact ⟨now, _, rfl, hTaken, hx, hDue, hFirst⟩

/-- Do the fates of the entries account for all that was done with the queue? -/
structure Orderly (fate : Nat → Fate) (ops : List QueueOp) : Prop extends Fits fate ops where
  /-- What is handed out is a waiting entry whose time has come, from a queue that was neither
  closed nor paused. -/
  granted : ∀ earlier now id rest, earlier ++ [.take now] <+: ops →
    (after earlier).take? now = some (id, rest) →
      .close ∉ earlier ∧ isPausedBy earlier = false ∧
        ∃ x ∈ waitingAfter fate earlier, x.2.jobId = id ∧ x.2.isDue now = true ∧
          (∀ y ∈ waitingAfter fate earlier, y.2.isDue now = true → x.1 ≤ y.1) ∧
            fate x.1 = .handedOut earlier.length
  /-- An attempt fails on a closed or a paused queue, or if no waiting entry is due. -/
  withheld : ∀ earlier now, earlier ++ [.take now] <+: ops → (after earlier).take? now = none →
    .close ∈ earlier ∨ isPausedBy earlier = true ∨
      ∀ y ∈ waitingAfter fate earlier, y.2.isDue now = false
  /-- An entry without a time of its own does not wait behind later ones. -/
  firstCome : ∀ x ∈ pushes ops, ∀ y ∈ pushes ops, x.1 < y.1 → x.2.notBefore = none →
    ∀ step, fate y.1 = .handedOut step →
      ∃ sooner < step, fate x.1 = .handedOut sooner ∨ fate x.1 = .removed sooner

/-- Every entry that was added is handed out once, is removed or waits, and a take hands out the
earliest added of the waiting entries that are due. -/
theorem orderly_of_run (ops : List QueueOp) : ∃ fate, Orderly fate ops := by
  obtain ⟨fate, hFits⟩ := exists_fits ops
  refine ⟨fate, { toFits := hFits, granted := ?_, withheld := ?_, firstCome := ?_ }⟩
  · intro earlier now id rest hLast hTake
    obtain ⟨hOpen, hGoing, -⟩ := take?_eq_some_iff.mp hTake
    have hNotClosed : .close ∉ earlier := fun h => by
      rw [closed_after.mpr h] at hOpen
      cases hOpen
    rw [paused_after] at hGoing
    exact ⟨hNotClosed, hGoing, hFits.answered hLast hTake⟩
  · intro earlier now hLast hTake
    have hPrefix : earlier <+: ops := (List.prefix_append earlier _).trans hLast
    rw [← paused_after, ← closed_after]
    refine (take?_eq_none_iff.mp hTake).imp_right (Or.imp_right fun hLate y hy => ?_)
    rw [hFits.entries earlier hPrefix] at hLate
    exact hLate y.2 (List.mem_map_of_mem hy)
  · intro x hx y hy hBefore hPlain step hHanded
    exact hFits.first_come hx hy hBefore hPlain hHanded

end Queue

end BackgroundJobs
