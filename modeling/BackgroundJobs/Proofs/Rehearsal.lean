import BackgroundJobs.Console.Session
import BackgroundJobs.Proofs.Realm.Run
import BackgroundJobs.Rehearsal.Scenario

/-!
# Proofs — what is played is a run

A rehearsal picks the thread that goes on, the times and the identifiers that it
finds, and how a definition ends. Whatever it picks, its system goes on by a run,
as long as nobody else works on the store: so what holds after every run holds of
all that is played. In particular the pace of the steps decides which run that is,
and never whether it is one.

Main results:

* `Rehearsal.plays_advance` — a step that is played is a step of the system.
* `Rehearsal.plays_settle`, `Rehearsal.plays_goOn` — and so is all that is played until
  everyone waits, and all that is due by a time.
* `Scenario.run_of_steps`   — a scenario is a run, if no other party steps in.
* `Session.run_of_take`     — what an operator's commands do is a run.
-/

namespace BackgroundJobs

namespace Rehearsal

variable {δ σ : Type} {p q : Rehearsal δ σ}

/-- Does a rehearsal come to another one by a run of its system? Nothing is said where other parties
are to step in. -/
def Plays (p q : Rehearsal δ σ) : Prop :=
  p.intrusions = [] → q.intrusions = [] ∧ ∃ events, p.system.run events = some q.system

namespace Plays

variable {s : Rehearsal δ σ}

theorem of_same (hSystem : q.system = p.system) (hIntrusions : q.intrusions = p.intrusions) :
    p.Plays q := fun hAlone =>
  ⟨hIntrusions.trans hAlone, [], congrArg some hSystem.symm⟩

theorem refl (p : Rehearsal δ σ) : p.Plays p :=
  of_same rfl rfl

theorem trans (h : p.Plays q) (h' : q.Plays s) : p.Plays s := by
  intro hAlone
  obtain ⟨hStill, events, hRun⟩ := h hAlone
  obtain ⟨hEnd, more, hMore⟩ := h' hStill
  exact ⟨hEnd, events ++ more, by rw [System.run_append_of_run hRun, hMore]⟩

theorem ite (c : Prop) [Decidable c] (h : p.Plays q) : p.Plays (if c then q else p) := by
  split
  · exact h
  · exact refl p

theorem ite_else (c : Prop) [Decidable c] (h : p.Plays q) : p.Plays (if c then p else q) := by
  split
  · exact refl p
  · exact h

/-- What is played in a fold is what is played at every turn. -/
theorem foldl {α β : Type} {next : α → β → α} (view : α → Rehearsal δ σ)
    (h : ∀ a b, (view a).Plays (view (next a b))) (a : α) (turns : List β) :
    (view a).Plays (view (turns.foldl next a)) := by
  induction turns generalizing a with
  | nil => exact refl _
  | cons turn rest ih => exact (h a turn).trans (ih (next a turn))

end Plays

-- ---------------------------------------------------------------------------
-- Steps
-- ---------------------------------------------------------------------------

theorem plays_at (p : Rehearsal δ σ) (now : Instant) : p.Plays { p with now } :=
  .of_same rfl rfl

theorem plays_tick (p : Rehearsal δ σ) : p.Plays p.tick :=
  .of_same rfl rfl

theorem plays_perform (p : Rehearsal δ σ) (i : Nat) (th : Thread δ) :
    p.Plays (p.perform i th).1 := by
  unfold perform
  split <;> exact .of_same rfl rfl

theorem plays_intrude (p : Rehearsal δ σ) (use : Option StoreUse) : p.Plays (p.intrude use) := by
  intro hAlone
  have hNobody : (use.bind fun u => Intrusion.first? u p.intrusions) = none := by
    rw [hAlone]
    cases use <;> rfl
  rw [intrude, hNobody]
  exact Plays.refl p hAlone

theorem exists_run_of_sweep (s : System δ) (sweep : Option Instant) :
    ∃ events, s.run events = some ((sweep.bind fun cutoff => s.step (.sweep cutoff)).getD s) := by
  cases sweep with
  | none => exact ⟨[], rfl⟩
  | some cutoff => exact ⟨[.sweep cutoff], rfl⟩

/-- A step that is played is a step of the system, after what the definition deleted. -/
theorem plays_advance (p : Rehearsal δ σ) (i : Nat) : p.Plays (p.advance i).2 := by
  simp only [advance]
  split
  · exact .refl p
  · next th hAt =>
    have hPerformed := plays_perform p i th
    split
    · exact hPerformed
    · next ending hEnding =>
      have hReady := hPerformed.trans (.ite_else
        (((p.perform i th).1.fault? (StoreUse.ofThread? th)).isSome = true)
        (plays_intrude _ (StoreUse.ofThread? th)))
      split
      · exact hReady
      · next system hStep =>
        refine hReady.trans fun hNobody => ⟨hNobody, ?_⟩
        obtain ⟨events, hSwept⟩ := exists_run_of_sweep _ ending.sweep
        exact ⟨_, System.run_concat_of_run hSwept hStep⟩

theorem plays_of_advance {i : Nat} {moved : Bool} (h : p.advance i = (moved, q)) : p.Plays q := by
  have hStep := plays_advance p i
  rwa [h] at hStep

theorem plays_advanceWorker (p : Rehearsal δ σ) : p.Plays p.advanceWorker.2 := by
  refine Plays.foldl Prod.snd ?_ (false, p) _
  rintro ⟨moved, p⟩ i
  dsimp only
  split
  · exact plays_advance p i
  · exact .refl p

theorem plays_of_advanceWorker {moved : Bool} (h : p.advanceWorker = (moved, q)) : p.Plays q := by
  have hStep := plays_advanceWorker p
  rwa [h] at hStep

-- ---------------------------------------------------------------------------
-- The timer
-- ---------------------------------------------------------------------------

theorem plays_setClock (p : Rehearsal δ σ) (t : Instant) : p.Plays (p.setClock t) :=
  plays_at p _

/-- However long the steps of a pass take, they are steps of the system. -/
theorem plays_finishPass (i fuel : Nat) (p : Rehearsal δ σ) : p.Plays (finishPass i fuel p) := by
  induction fuel generalizing p with
  | zero => exact .refl p
  | succ fuel ih =>
    simp only [finishPass]
    split
    · exact .refl p
    · split
      · next hMoved => exact (plays_of_advance hMoved).trans (.of_same rfl rfl)
      · next hMoved => exact (plays_of_advance hMoved).trans (ih _)
      · next hMoved => exact plays_of_advance hMoved

theorem plays_timerPass (p : Rehearsal δ σ) : p.Plays p.timerPass := by
  unfold timerPass
  split
  · next i _ => exact (plays_advance p i).trans (plays_finishPass i patience _)
  · exact .refl p

theorem plays_resumePass (p : Rehearsal δ σ) : p.Plays p.resumePass := by
  unfold resumePass
  split
  · next i ready _ =>
    refine Plays.trans ?_ (plays_finishPass i patience _)
    exact (plays_setClock p ready).trans (.of_same rfl rfl)
  · exact .refl p

theorem plays_passTime (p : Rehearsal δ σ) (t : Instant) : p.Plays (p.passTime t) := by
  unfold passTime
  split
  · next due _ =>
    split
    · exact plays_resumePass p
    · exact (plays_setClock p due).trans (plays_timerPass _)
  · exact plays_setClock p t

theorem plays_awaitPass (p : Rehearsal δ σ) (t : Instant) (fuel : Nat) :
    p.Plays (p.awaitPass t fuel) := by
  induction fuel generalizing p with
  | zero => exact .refl p
  | succ fuel ih =>
    unfold awaitPass
    split
    · exact (plays_passTime p t).trans (ih _)
    · exact .refl p

-- ---------------------------------------------------------------------------
-- Workers and callers
-- ---------------------------------------------------------------------------

theorem plays_settleFor (fuel : Nat) (p : Rehearsal δ σ) : p.Plays (settleFor fuel p) := by
  induction fuel generalizing p with
  | zero => exact .refl p
  | succ fuel ih =>
    unfold settleFor
    split
    · next hMoved => exact (plays_of_advanceWorker hMoved).trans (ih _)
    · next waiting hMoved =>
      refine (plays_of_advanceWorker hMoved).trans ?_
      split
      · next t _ => exact (plays_passTime waiting t).trans (ih _)
      · exact .refl waiting

/-- What is played until everyone waits is a run. -/
theorem plays_settle (p : Rehearsal δ σ) : p.Plays p.settle :=
  plays_settleFor patience p

theorem plays_workFor (fuel : Nat) (p : Rehearsal δ σ) : p.Plays (workFor fuel p) := by
  induction fuel generalizing p with
  | zero => exact .refl p
  | succ fuel ih =>
    unfold workFor
    split
    · next hMoved => exact (plays_of_advanceWorker hMoved).trans (ih _)
    · next hMoved => exact plays_of_advanceWorker hMoved

theorem plays_pursueFor (i fuel : Nat) (p : Rehearsal δ σ) : p.Plays (pursueFor i fuel p) := by
  induction fuel generalizing p with
  | zero => exact .refl p
  | succ fuel ih =>
    unfold pursueFor
    split
    · next hMoved => exact (plays_of_advance hMoved).trans (ih _)
    · next waiting hMoved =>
      refine (plays_of_advance hMoved).trans ?_
      split
      · exact (plays_resumePass waiting).trans (ih _)
      · exact .refl waiting

theorem plays_place (p : Rehearsal δ σ) (call : Call) : p.Plays (p.place call).2 := by
  have hCalled : p.Plays { p with system := (p.system.step (.call call)).getD p.system } :=
    fun hAlone => ⟨hAlone, [.call call], rfl⟩
  exact hCalled.trans (plays_pursueFor _ patience _)

theorem plays_ask (p : Rehearsal δ σ) (call : Call) : p.Plays (p.ask call).2 :=
  plays_place p call

theorem plays_goOn (p : Rehearsal δ σ) (t : Instant) : p.Plays (p.goOn t) := by
  refine Plays.trans ?_ (plays_workFor patience _)
  split
  · exact plays_passTime p t
  · exact (plays_setClock p t).trans (plays_timerPass _)

theorem plays_waitFor (p : Rehearsal δ σ) (done : Realm δ → Bool) (fuel : Nat) :
    p.Plays (p.waitFor done fuel) := by
  induction fuel generalizing p with
  | zero => exact .refl p
  | succ fuel ih =>
    unfold waitFor
    split
    · exact .refl p
    · split
      · exact .refl p
      · next t _ => exact (plays_passTime p t).trans ((plays_settle _).trans (ih _))

-- ---------------------------------------------------------------------------
-- Scripted definitions
-- ---------------------------------------------------------------------------

theorem plays_heed (p : ScriptedRehearsal) : p.Plays p.heed :=
  .of_same rfl rfl

theorem plays_rest (p : ScriptedRehearsal) : p.Plays p.rest :=
  ((plays_settle p).trans (plays_heed _)).trans (plays_settle _)

theorem plays_race (p : ScriptedRehearsal) (request : JobRequest) (callers : Nat) :
    p.Plays (p.race request callers).2 := by
  induction callers generalizing p with
  | zero => exact .refl p
  | succ callers ih => exact (plays_ask p (.submit request)).trans (ih _)

theorem plays_release (p : ScriptedRehearsal) (id : JobId) : p.Plays (p.release id) :=
  .of_same rfl rfl

/-- Runs are released a little later, and everyone goes on until they wait. -/
theorem plays_releases (p : ScriptedRehearsal) (now : Instant) (released : List JobId) :
    p.Plays (released.foldl release { p with now }).settle :=
  (plays_at p now).trans ((Plays.foldl id plays_release _ released).trans (plays_settle _))

theorem plays_pursue_at (p : ScriptedRehearsal) (now : Instant) (i : Nat) :
    p.Plays (Rehearsal.pursue { p with now } i) :=
  (plays_at p now).trans (plays_pursueFor i patience _)

theorem plays_shutdown (p : ScriptedRehearsal) (released : List JobId) :
    p.Plays (p.shutdown released).2 := by
  simp only [shutdown]
  refine (plays_place p .shutdown).trans (.trans ?_ (.ite _ (plays_awaitPass _ _ patience)))
  split
  · exact .ite_else _ (plays_releases _ _ released)
  · next deadline _ =>
    refine .trans ?_ (.ite_else _ (plays_releases _ _ released))
    refine .trans ?_ (.ite _ (plays_pursue_at _ deadline _))
    exact .ite _ ((plays_releases _ _ released).trans (plays_pursueFor _ patience _))

end Rehearsal

-- ---------------------------------------------------------------------------
-- Scenarios
-- ---------------------------------------------------------------------------

/-- Does another party act on the store in that step, or announce that it will? -/
def ScenarioStep.isForeign : ScenarioStep → Bool
  | .change .. | .plant _ | .intrude _ => true
  | _ => false

namespace Scenario

theorem plays_wait (s : Scenario) (id : TriggerId) (spawned skipped : Nat) :
    s.rehearsal.Plays (s.wait id spawned skipped).rehearsal :=
  Rehearsal.plays_waitFor _ _ _

theorem plays_play {e : ScenarioStep} (hOwn : e.isForeign = false) (s : Scenario) :
    s.rehearsal.Plays (s.play e).2.rehearsal := by
  cases e with
  | call c => exact Rehearsal.plays_ask _ c
  | race request callers => exact Rehearsal.plays_race _ request callers
  | scheduleAndWait request spawned skipped =>
    have hAsked := Rehearsal.plays_ask s.rehearsal (.schedule request)
    simp only [play]
    split
    · exact hAsked.trans (Rehearsal.plays_waitFor _ _ 1000)
    · exact hAsked
  | wait id spawned skipped => exact plays_wait s id spawned skipped
  | release id => exact Rehearsal.plays_release _ id
  | shutdown released => exact Rehearsal.plays_shutdown _ released
  | disturb methods => exact .of_same rfl rfl
  | change | plant | intrude => cases hOwn

theorem plays_step {e : ScenarioStep} (hOwn : e.isForeign = false) (s : Scenario) :
    s.rehearsal.Plays (s.step e).2.rehearsal :=
  (plays_play hOwn s).trans (Rehearsal.plays_rest _)

/-- A scenario after some more steps. -/
def after (s : Scenario) (steps : List ScenarioStep) : Scenario :=
  steps.foldl (fun s e => (s.step e).2) s

theorem plays_steps {steps : List ScenarioStep} (hOwn : ∀ e ∈ steps, e.isForeign = false)
    (s : Scenario) : s.rehearsal.Plays (s.after steps).rehearsal := by
  induction steps generalizing s with
  | nil => exact .refl _
  | cons e rest ih =>
    obtain ⟨hFirst, hRest⟩ := List.forall_mem_cons.mp hOwn
    exact (plays_step hFirst s).trans (ih hRest _)

/-- A scenario is a run of its realm, if no other party steps in. -/
theorem run_of_steps (settings : RealmSettings) (registry : Registry (List Act)) (store : Store)
    (now : Instant) (refusals : Nat) {steps : List ScenarioStep}
    (hOwn : ∀ e ∈ steps, e.isForeign = false) :
    ∃ events, (System.initial settings registry store).run events =
      some (after { rehearsal := .ofScripts settings registry store now refusals }
        steps).rehearsal.system :=
  (plays_steps hOwn { rehearsal := .ofScripts settings registry store now refusals } rfl).2

end Scenario

-- ---------------------------------------------------------------------------
-- Sessions
-- ---------------------------------------------------------------------------

namespace Session

theorem plays_submit (p : Session) (what : String) (draft : Draft) :
    p.Plays (p.submit what draft).2 := by
  unfold submit
  split
  · exact .refl p
  · next request _ =>
    exact (Rehearsal.plays_tick p).trans (Rehearsal.plays_ask _ (.submit request))

theorem plays_execute (p : Session) (command : Command) : p.Plays (p.execute command).2 := by
  cases command with
  | pause => exact Rehearsal.plays_ask p .pause
  | unpause => exact Rehearsal.plays_ask p .unpause
  | status id => exact Rehearsal.plays_ask p (.status id)
  | cancel id => exact Rehearsal.plays_ask p (.cancel id)
  | triggers => exact Rehearsal.plays_ask p .triggers
  | stats => exact Rehearsal.plays_ask p .stats
  | exportFor consumer owner => exact (Rehearsal.plays_tick p).trans (plays_submit _ _ _)
  | refresh owner => exact plays_submit p _ _
  | help | quit => exact .refl p

theorem plays_take (p : Session) (lines : List String) : p.Plays (p.take lines).2.2 := by
  induction lines generalizing p with
  | nil => exact .refl p
  | cons line rest ih =>
    unfold take
    split
    · exact ih p
    · exact ih p
    · exact plays_execute p .quit
    · next command _ _ => exact (plays_execute p command).trans (ih _)

/-- What an operator's commands do in a session is a run of its realm. -/
theorem run_of_take {settings : RealmSettings} {workshop : Workshop} {now : Instant} {p : Session}
    (hMade : make settings workshop now = .ok p) (lines : List String) :
    ∃ registry events, Task.registry = .ok registry ∧
      (System.initial settings registry Store.empty).run events =
        some (p.take lines).2.2.system := by
  unfold make at hMade
  cases hRegistry : Task.registry with
  | error e =>
    rw [hRegistry] at hMade
    cases hMade
  | ok registry =>
    rw [hRegistry] at hMade
    have hPlays := plays_take p lines
    cases hMade
    obtain ⟨-, events, hRun⟩ := hPlays rfl
    exact ⟨registry, events, rfl, hRun⟩

end Session

end BackgroundJobs
