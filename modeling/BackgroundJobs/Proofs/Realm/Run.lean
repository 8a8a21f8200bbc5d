import BackgroundJobs.Realm.System
import Mathlib.Data.List.Induction
import Mathlib.Data.List.Perm.Basic

/-!
# Proofs — runs of a system

A property of all runs is proved from what one step does to it. A step is a new
call, a step of one thread, or a sweep; a thread that takes a step replaces
itself and may bring others, and every other thread stays where it is.

Main results:

* `run_induction`           — what holds at the start and is kept by every step
  holds after every run.
* `threads_of_advance`      — where the threads after a step come from.
* `forall_threads_of_run`   — what every thread keeps as long as no other one
  takes it away holds of all threads, after every run.
* `trail`                   — what an observer notes in the course of a run.
* `gather`                  — what the threads have in hand, all taken together.
-/

namespace BackgroundJobs

/-- The store is in no trouble when the event happens. -/
def Event.Untroubled : Event → Prop
  | .advance _ cue => cue.fault = none
  | _ => True

namespace System

variable {δ : Type} {s t u : System δ} {e : Event} {events more : List Event}

/-- A system at its beginning: a realm on a store that may hold records already. -/
abbrev initial (settings : RealmSettings) (registry : Registry δ) (store : Store) : System δ :=
  ofRealm (.make settings registry store)

-- ---------------------------------------------------------------------------
-- Runs
-- ---------------------------------------------------------------------------

theorem run_append : s.run (events ++ more) = (s.run events).bind (·.run more) := by
  induction events generalizing s with
  | nil => rfl
  | cons e rest ih =>
    simp only [List.cons_append, run, Option.bind_assoc]
    congr 1
    funext t
    exact ih

theorem run_concat : s.run (events ++ [e]) = (s.run events).bind (·.step e) := by
  rw [run_append]
  congr 1
  funext t
  exact Option.bind_fun_some (t.step e)

theorem run_concat_of_run (h : s.run events = some t) (hStep : t.step e = some u) :
    s.run (events ++ [e]) = some u := by
  rw [run_concat, h, Option.bind_some, hStep]

theorem run_append_of_run (h : s.run events = some t) : s.run (events ++ more) = t.run more := by
  rw [run_append, h, Option.bind_some]

/-- What holds at the start and is kept by every step holds after every run. -/
theorem run_induction {motive : List Event → System δ → Prop} (hRun : s.run events = some u)
    (hStart : motive [] s)
    (hStep : ∀ before t e v, s.run before = some t → t.step e = some v → motive before t →
      motive (before ++ [e]) v) : motive events u := by
  induction events using List.reverseRecOn generalizing u with
  | nil =>
    cases hRun
    exact hStart
  | append_singleton before e ih =>
    rw [run_concat] at hRun
    obtain ⟨t, hBefore, hLast⟩ := Option.bind_eq_some_iff.mp hRun
    exact hStep before t e u hBefore hLast (ih hBefore)

-- ---------------------------------------------------------------------------
-- Steps
-- ---------------------------------------------------------------------------

/-- What a step of a thread makes of a system. -/
theorem step_advance {i : Nat} {cue : Cue} (h : s.step (.advance i cue) = some u) :
    ∃ th r' th' crew, s.threads[i]? = some th ∧ th.step cue s.realm = some (r', th', crew) ∧
      u = ⟨r', s.threads.set i th' ++ crew⟩ := by
  simp only [step, bind, Option.bind_eq_some_iff] at h
  obtain ⟨th, hAt, ⟨r', th', crew⟩, hStep, hu⟩ := h
  cases hu
  exact ⟨th, r', th', crew, hAt, hStep, rfl⟩

/-- What a step makes of a system, where the thread that takes it is known. -/
theorem step_advance_at {i : Nat} {cue : Cue} {th : Thread δ} (hAt : s.threads[i]? = some th)
    (h : s.step (.advance i cue) = some u) :
    ∃ r' th' crew, th.step cue s.realm = some (r', th', crew) ∧
      u = ⟨r', s.threads.set i th' ++ crew⟩ := by
  obtain ⟨th₁, r', th', crew, hAt₁, hStep, hu⟩ := step_advance h
  rw [hAt] at hAt₁
  cases hAt₁
  exact ⟨r', th', crew, hStep, hu⟩

/-- A thread after a step of thread `i` is that thread, another one that stayed where it was, or
one of those that the step brought. -/
theorem threads_of_advance {threads crew : List (Thread δ)} {th' x : Thread δ} {i j : Nat}
    (h : (threads.set i th' ++ crew)[j]? = some x) :
    (j = i ∧ x = th') ∨ (j ≠ i ∧ threads[j]? = some x) ∨ (threads.length ≤ j ∧ x ∈ crew) := by
  rcases Nat.lt_or_ge j threads.length with hj | hj
  · rw [List.getElem?_append_left (by rwa [List.length_set])] at h
    by_cases hij : j = i
    · subst hij
      rw [List.getElem?_set_self hj] at h
      exact .inl ⟨rfl, (Option.some.inj h).symm⟩
    · rw [List.getElem?_set_ne (Ne.symm hij)] at h
      exact .inr (.inl ⟨hij, h⟩)
  · rw [List.getElem?_append_right (by rwa [List.length_set])] at h
    exact .inr (.inr ⟨hj, List.mem_of_getElem? h⟩)

theorem thread_of_advance_self {threads crew : List (Thread δ)} {th th' : Thread δ} {i : Nat}
    (h : threads[i]? = some th) : (threads.set i th' ++ crew)[i]? = some th' := by
  obtain ⟨hi, -⟩ := List.getElem?_eq_some_iff.mp h
  rw [List.getElem?_append_left (by rwa [List.length_set]), List.getElem?_set_self hi]

theorem threads_of_call {threads : List (Thread δ)} {x y : Thread δ} {j : Nat}
    (h : (threads ++ [x])[j]? = some y) :
    threads[j]? = some y ∨ (j = threads.length ∧ y = x) := by
  rcases Nat.lt_or_ge j threads.length with hj | hj
  · rw [List.getElem?_append_left hj] at h
    exact .inl h
  · rw [List.getElem?_append_right hj, List.getElem?_singleton] at h
    split at h
    · next hZero => exact .inr ⟨by omega, (Option.some.inj h).symm⟩
    · cases h

/-- A step leaves every thread alone that does not take it. -/
theorem thread_of_step_of_ne {j : Nat} {th : Thread δ} (h : s.step e = some u)
    (hAt : s.threads[j]? = some th) (hOther : ∀ cue, e ≠ .advance j cue) :
    u.threads[j]? = some th := by
  obtain ⟨hj, -⟩ := List.getElem?_eq_some_iff.mp hAt
  cases e with
  | call call =>
    cases h
    show (s.threads ++ _)[j]? = some th
    rw [List.getElem?_append_left hj]
    exact hAt
  | advance i cue =>
    obtain ⟨-, r', th', crew, -, -, rfl⟩ := step_advance h
    have hij : i ≠ j := fun hEq => hOther cue (by rw [hEq])
    show (s.threads.set i th' ++ crew)[j]? = some th
    rw [List.getElem?_append_left (by rwa [List.length_set]), List.getElem?_set_ne hij]
    exact hAt
  | sweep cutoff =>
    cases h
    exact hAt

/-- What holds of every thread when it comes, survives its own steps and is not taken away by the
steps of others holds of all threads, after every run. -/
theorem forall_threads_of_run {P : Realm δ → Thread δ → Prop}
    (hCall : ∀ r call, P r (.caller (.made call)))
    (hOwn : ∀ cue r (th : Thread δ) r' th' crew, th.step cue r = some (r', th', crew) → P r th →
      P r' th' ∧ ∀ x ∈ crew, P r' x)
    (hOther : ∀ cue r (th : Thread δ) r' th' crew, th.step cue r = some (r', th', crew) →
      ∀ other, P r other → P r' other)
    (hSweep : ∀ r cutoff other, P r other →
      P { r with store := (r.store.deleteFinishedBefore cutoff).2 } other)
    (hStart : ∀ i : Nat, ∀ th, s.threads[i]? = some th → P s.realm th)
    (hRun : s.run events = some u) :
    ∀ i : Nat, ∀ th, u.threads[i]? = some th → P u.realm th := by
  refine run_induction (motive := fun _ u => ∀ i : Nat, ∀ th, u.threads[i]? = some th →
    P u.realm th) hRun hStart ?_
  intro before t e v _ hStep ih j x hx
  cases e with
  | call call =>
    cases hStep
    rcases threads_of_call hx with hOld | ⟨-, rfl⟩
    · exact ih j x hOld
    · exact hCall _ call
  | advance i cue =>
    obtain ⟨th, r', th', crew, hAt, hThread, rfl⟩ := step_advance hStep
    obtain ⟨hNew, hCrew⟩ := hOwn cue t.realm th r' th' crew hThread (ih i th hAt)
    rcases threads_of_advance hx with ⟨-, rfl⟩ | ⟨-, hOld⟩ | ⟨-, hMem⟩
    · exact hNew
    · exact hOther cue t.realm th r' th' crew hThread x (ih j x hOld)
    · exact hCrew x hMem
  | sweep cutoff =>
    cases hStep
    exact hSweep t.realm cutoff x (ih j x hx)

-- ---------------------------------------------------------------------------
-- Observers
-- ---------------------------------------------------------------------------

/-- What an observer notes in the course of a run, who sees every event together with the system
that it happens to. -/
def trail {α : Type} (note : System δ → Event → List α) (s : System δ) : List Event → List α
  | [] => []
  | e :: rest => note s e ++ ((s.step e).elim [] fun t => t.trail note rest)

variable {α : Type} {note : System δ → Event → List α}

theorem trail_append (h : s.run events = some t) :
    s.trail note (events ++ more) = s.trail note events ++ t.trail note more := by
  induction events generalizing s with
  | nil =>
    cases h
    rfl
  | cons e rest ih =>
    obtain ⟨v, hStep, hRest⟩ := Option.bind_eq_some_iff.mp h
    simp only [List.cons_append, trail, hStep, Option.elim_some, List.append_assoc]
    rw [ih hRest]

theorem trail_concat (h : s.run events = some t) :
    s.trail note (events ++ [e]) = s.trail note events ++ note t e := by
  rw [trail_append h]
  simp only [trail]
  cases t.step e <;> simp

/-- Who notes less of every event notes less of the run. -/
theorem trail_sublist {β : Type} {more : System δ → Event → List β} {f : α → β}
    (h : ∀ s e, ((note s e).map f).Sublist (more s e)) (s : System δ) (events : List Event) :
    ((s.trail note events).map f).Sublist (s.trail more events) := by
  induction events generalizing s with
  | nil => exact .slnil
  | cons e rest ih =>
    rw [trail, trail, List.map_append]
    refine (h s e).append ?_
    cases s.step e with
    | none => exact .slnil
    | some t => exact ih t

/-- What is noted was noted of some event of the run. -/
theorem exists_of_mem_trail {x : α} (hx : x ∈ s.trail note events) :
    ∃ before e t, before ++ [e] <+: events ∧ s.run before = some t ∧ x ∈ note t e := by
  induction events generalizing s with
  | nil => cases hx
  | cons e rest ih =>
    rcases List.mem_append.mp hx with hFirst | hLater
    · exact ⟨[], e, s, ⟨rest, rfl⟩, rfl, hFirst⟩
    · cases hStep : s.step e with
      | none =>
        rw [hStep] at hLater
        cases hLater
      | some t =>
        rw [hStep] at hLater
        obtain ⟨before, last, v, hBefore, hRun, hNoted⟩ := ih hLater
        refine ⟨e :: before, last, v, ?_, ?_, hNoted⟩
        · exact List.cons_prefix_cons.mpr ⟨rfl, hBefore⟩
        · rw [run, hStep, Option.bind_some, hRun]

-- ---------------------------------------------------------------------------
-- What the threads have in hand
-- ---------------------------------------------------------------------------

/-- What the threads have in hand, all taken together. -/
def gather (f : Thread δ → List α) (s : System δ) : List α :=
  s.threads.flatMap f

variable {f : Thread δ → List α} {i : Nat} {th : Thread δ}

theorem gather_of_call {call : Call} (hStep : s.step (.call call) = some u)
    (hCall : f (.caller (.made call)) = []) : u.gather f = s.gather f := by
  cases hStep
  simp [gather, hCall]

/-- A step of thread `i` leaves alone what the other threads have in hand. -/
theorem gather_of_advance {crew : List (Thread δ)} (hAt : s.threads[i]? = some th)
    (hCrew : ∀ x ∈ crew, f x = []) (r' : Realm δ) (th' : Thread δ) :
    ∃ rest, (s.gather f).Perm (f th ++ rest) ∧
      (gather f ⟨r', s.threads.set i th' ++ crew⟩).Perm (f th' ++ rest) := by
  obtain ⟨hi, rfl⟩ := List.getElem?_eq_some_iff.mp hAt
  refine ⟨(s.threads.eraseIdx i).flatMap f, ?_, ?_⟩
  · rw [← List.flatMap_cons]
    exact (List.getElem_cons_eraseIdx_perm hi).symm.flatMap_right f
  · rw [gather, List.flatMap_append, List.flatMap_eq_nil_iff.mpr hCrew, List.append_nil,
      ← List.flatMap_cons]
    exact (List.set_perm_cons_eraseIdx hi th').flatMap_right f

/-- Where only thread `i` has anything in hand, that is all there is. -/
theorem gather_of_alone (hAt : s.threads[i]? = some th)
    (hOthers : ∀ j : Nat, ∀ x, s.threads[j]? = some x → j ≠ i → f x = []) :
    s.gather f = f th := by
  obtain ⟨hi, hEq⟩ := List.getElem?_eq_some_iff.mp hAt
  have hSplit : s.threads = s.threads.take i ++ th :: s.threads.drop (i + 1) := by
    rw [← hEq, ← List.drop_eq_getElem_cons hi, List.take_append_drop]
  have hBefore : (s.threads.take i).flatMap f = [] := by
    refine List.flatMap_eq_nil_iff.mpr fun x hx => ?_
    obtain ⟨j, hj, rfl⟩ := List.getElem_of_mem hx
    rw [List.length_take] at hj
    exact hOthers j _ (by rw [List.getElem_take, List.getElem?_eq_getElem]) (by omega)
  have hAfter : (s.threads.drop (i + 1)).flatMap f = [] := by
    refine List.flatMap_eq_nil_iff.mpr fun x hx => ?_
    obtain ⟨j, hj, rfl⟩ := List.getElem_of_mem hx
    exact hOthers (i + 1 + j) _ (by rw [List.getElem_drop, List.getElem?_eq_getElem]) (by omega)
  rw [gather, hSplit, List.flatMap_append, List.flatMap_cons, hBefore, hAfter, List.nil_append,
    List.append_nil]

end System

end BackgroundJobs
