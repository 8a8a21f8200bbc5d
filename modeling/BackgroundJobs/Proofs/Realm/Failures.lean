import BackgroundJobs.Proofs.Realm.Lock

/-!
# Proofs — calls that fail

A call works on several parts of the realm, one after the other, and the store
may be in trouble at each step. A call that fails has changed nothing all the
same: whatever may go wrong does so before anything is done that stays. An
admission that has created its record goes on to queue it, and a cancellation
that has marked its run goes on to signal it.

This is so for a call that nobody interferes with, and for all calls but two: a
start and a declaration work through a list, and leave behind what they have
done of it.

Main results:

* `CallPoint.clean_step`  — a step of a call leaves nothing behind if the call
  may still fail after it.
* `unchanged_of_failure`  — a call that fails has changed nothing.
-/

namespace BackgroundJobs

/-- A call that is done as a whole or not at all. A start takes up the stored runs one after the
other, and a declaration so registers its triggers. -/
def Call.isWhole : Call → Bool
  | .start | .declare _ => false
  | _ => true

variable {δ : Type} {cue : Cue} {r₀ r r' : Realm δ}

namespace Realm

/-- The realm after a call that failed: a rejected request is counted, and that is all. -/
def afterFailure (r : Realm δ) : JobError → Realm δ
  | .rejected _ => { r with counters := { r.counters with rejected := r.counters.rejected + 1 } }
  | _ => r

/-- The realm while an admission has the lock. -/
def locked (r : Realm δ) : Realm δ :=
  { r with admissionHeld := true }

variable {id : JobId} {request : JobRequest} {triggerId : Option TriggerId} {e : JobError}

theorem afterFailure_of_resolveGroup {wanted : Option String}
    (h : r.resolveGroup wanted = .error e) : r₀.afterFailure e = r₀ := by
  cases wanted with
  | none => cases h
  | some group =>
    simp only [resolveGroup] at h
    split at h <;> cases h
    rfl

theorem afterFailure_of_lookup {key : String} (h : r.registry.lookup key = .error e) :
    r₀.afterFailure e = r₀ := by
  unfold Registry.lookup at h
  split at h <;> cases h
  rfl

theorem afterFailure_of_find (h : r.find cue id = .error e) : r₀.afterFailure e = r₀ := by
  unfold find at h
  split at h <;> cases h <;> rfl

theorem afterFailure_of_make (h : Admission.make r request triggerId = .error e) :
    r₀.afterFailure e = r₀ := by
  simp only [Admission.make, bind, Except.bind] at h
  split at h
  · next hLookup =>
    cases h
    exact afterFailure_of_lookup hLookup
  · split at h
    · next hGroup =>
      cases h
      exact afterFailure_of_resolveGroup hGroup
    · cases h

theorem afterFailure_of_entry {now : Instant} (h : Registration.entry r request now = .error e) :
    r₀.afterFailure e = r₀ := by
  simp only [Registration.entry] at h
  split at h
  · cases h
    rfl
  · split at h
    · cases h
      rfl
    · simp only [bind, Except.bind] at h
      split at h
      · next hLookup =>
        cases h
        exact afterFailure_of_lookup hLookup
      · split at h
        · next hGroup =>
          cases h
          exact afterFailure_of_resolveGroup hGroup
        · cases h

end Realm

-- ---------------------------------------------------------------------------
-- What a failure would leave behind
-- ---------------------------------------------------------------------------

/-- Has an admission, which began in the first realm and has led to the second one, done nothing
that a failure would leave behind? Once the record is created nothing can go wrong. -/
def AdmissionPoint.Clean (r₀ r : Realm δ) : AdmissionPoint → Prop
  | .waiting => r = r₀
  | .checking | .creating _ => r₀.admissionHeld = false ∧ r = r₀.locked
  | .queueing _ | .counting _ => True

/-- The same of a cancellation. It marks a run only if it found it running, so that it does not
look at it again after that. -/
def Cancellation.Clean (r₀ r : Realm δ) : Cancellation → Prop
  | .looking _ | .revoking _ => r = r₀
  | .marking id => r = r₀ ∧ ∃ x ∈ r.store.records, x.id = id ∧ x.state = .running
  | .unqueueing _ | .finishing _ | .signalling _ => True

/-- The same of a call. -/
def CallPoint.Clean (r₀ r : Realm δ) : CallPoint → Prop
  | .made call => call.isWhole = true ∧ r = r₀
  | .admitting _ point => point.Clean r₀ r
  | .canceling point => point.Clean r₀ r
  | .scheduling _ => r = r₀
  | .stopping _ => True
  | .starting _ | .declaring _ => False

/-- Is a procedure that has led to the given realm either over, without having left anything behind
if it failed, or at a point that `clean` holds of? -/
def Progress.Clean {σ ρ : Type} (r₀ r : Realm δ) (clean : σ → Prop) :
    Progress σ (Except JobError ρ) → Prop
  | .at point => clean point
  | .done (.ok _) => True
  | .done (.error e) => r = r₀.afterFailure e

-- ---------------------------------------------------------------------------
-- One step
-- ---------------------------------------------------------------------------

theorem Admission.clean_step {a : Admission} {point : AdmissionPoint}
    {p : Progress AdmissionPoint (Except JobError JobRecord)}
    (h : a.step cue r point = some (r', p)) (hClean : point.Clean r₀ r) :
    p.Clean r₀ r' (AdmissionPoint.Clean r₀ r') := by
  -- the lock was free, so giving it back leaves the realm as it was
  have hReleased : r₀.admissionHeld = false → { r₀.locked with admissionHeld := false } = r₀ := by
    intro hFree
    rw [Realm.locked, ← hFree]
  cases point with
  | waiting =>
    obtain ⟨hFree, rfl, rfl⟩ := step_waiting h
    cases hClean
    exact ⟨hFree, rfl⟩
  | checking =>
    obtain ⟨hFree, rfl⟩ := hClean
    simp only [step] at h
    split at h
    · cases h
      exact hReleased hFree
    · split at h
      · next violation _ =>
        cases h
        exact congrArg (·.afterFailure (.rejected violation)) (hReleased hFree)
      · cases h
        exact ⟨hFree, rfl⟩
  | creating record =>
    obtain ⟨hFree, rfl⟩ := hClean
    simp only [step] at h
    split at h
    · cases h
      trivial
    · next hTold =>
      cases h
      rw [Realm.tell_eq_error _ _ hTold]
      exact hReleased hFree
  | queueing record | counting record =>
    cases h
    trivial

theorem Cancellation.clean_step {point : Cancellation}
    {p : Progress Cancellation (Except JobError JobRecord)} (h : point.step cue r = (r', p))
    (hClean : point.Clean r₀ r) : p.Clean r₀ r' (Cancellation.Clean r₀ r') := by
  cases point with
  | looking id =>
    cases hClean
    simp only [step] at h
    split at h
    · next hFind =>
      cases h
      exact (Realm.afterFailure_of_find hFind).symm
    · next record hFind =>
      obtain ⟨hRecord, hId⟩ := Realm.find_eq_ok _ _ hFind
      split at h <;> cases h
      · rfl
      · next hRunning => exact ⟨rfl, record, hRecord, hId, hRunning⟩
      · trivial
  | revoking id =>
    cases hClean
    simp only [step] at h
    split at h <;> next hTold =>
      cases h
      first | trivial | exact Realm.tell_eq_error _ _ hTold
  | marking id =>
    obtain ⟨rfl, x, hx, hId, hRunning⟩ := hClean
    simp only [step] at h
    split at h
    · next record _ hTold =>
      cases h
      obtain ⟨-, store, hStore, -⟩ := (Realm.tell_eq_ok _ _).mp hTold
      obtain ⟨y, hy, hSame, rfl, -⟩ := Store.requestCancel_ok hStore
      obtain rfl := Store.eq_of_mem_of_id_eq hx hy (hId.trans hSame.symm)
      rw [if_neg (by rw [Store.marked_eq]; simp [hRunning])]
      trivial
    · next hTold =>
      cases h
      exact Realm.tell_eq_error _ _ hTold
  | unqueueing record | finishing record | signalling record =>
    cases h
    trivial

theorem Registration.clean_step {point : Registration}
    {p : Progress Registration (Except JobError TriggerId)}
    (h : point.step cue r = some (r', p)) : p.Clean r r' (fun _ => r' = r) := by
  cases point with
  | opening request =>
    simp only [step] at h
    split at h
    · next hEntry =>
      cases h
      exact (Realm.afterFailure_of_entry hEntry).symm
    · cases h
      rfl
  | inserting id entry =>
    simp only [step] at h
    split at h <;> cases h
    trivial

/-- What a call that follows a procedure makes of its progress. -/
theorem Progress.clean_lift {σ ρ : Type} {clean : σ → Prop} {toPoint : σ → CallPoint}
    {reply : ρ → Reply} {x : Realm δ × Progress σ (Except JobError ρ)}
    {p : Progress CallPoint Answer} (h : CallPoint.lift toPoint (·.map reply) x = (r', p))
    (hClean : x.2.Clean r₀ x.1 clean) (hPoint : ∀ q, clean q → (toPoint q).Clean r₀ x.1) :
    p.Clean r₀ r' (CallPoint.Clean r₀ r') := by
  obtain ⟨r₁, progress⟩ := x
  cases progress with
  | «at» q =>
    cases h
    exact hPoint q hClean
  | done result =>
    cases result <;> cases h
    · exact hClean
    · trivial

theorem Call.clean_begin {call : Call} {p : Progress CallPoint Answer}
    (hWhole : call.isWhole = true) (h : call.begin cue r = some (r', p)) :
    p.Clean r r' (CallPoint.Clean r r') := by
  -- what the store did not do has changed nothing
  have hAsked : ∀ {α : Type} {reply : α → Reply} {result : Except StoreError α},
      Progress.Clean r r (CallPoint.Clean r r) (.done (storeAnswer reply result)) := by
    intro α reply result
    cases result <;> trivial
  have hTold : ∀ {α : Type} (reply : α → Reply) (action : Store → Except StoreError (α × Store)),
      Progress.Clean r (r.tell cue action).2 (CallPoint.Clean r (r.tell cue action).2)
        (.done (storeAnswer reply (r.tell cue action).1)) := by
    intro α reply action
    cases hTell : r.tell cue action with
    | mk result r₁ =>
      cases result with
      | ok a => trivial
      | error e => exact Realm.tell_eq_error _ _ hTell
  cases call with
  | start => cases hWhole
  | declare entries => cases hWhole
  | submit request =>
    simp only [begin] at h
    split at h
    · cases h
      rfl
    · split at h
      · cases h
        rfl
      · split at h <;> cases h
        · next hMake => exact (Realm.afterFailure_of_make hMake).symm
        · rfl
  | status id =>
    cases h
    cases hFind : r.find cue id with
    | error e => exact (Realm.afterFailure_of_find hFind).symm
    | ok record => trivial
  | list filter =>
    cases h
    exact hAsked
  | listGroup group =>
    cases h
    cases hGroup : r.resolveGroup (some group) with
    | error e => exact (Realm.afterFailure_of_resolveGroup hGroup).symm
    | ok name => exact hAsked
  | reschedule id times | unschedule id =>
    simp only [begin, onTrigger] at h
    split at h
    · cases h
    · split at h <;> cases h
      · rfl
      · trivial
  | triggers =>
    simp only [begin] at h
    split at h <;> cases h
    trivial
  | delete ids =>
    cases h
    exact hTold .count fun s => .ok (s.deleteTerminal ids)
  | purge =>
    simp only [begin] at h
    split at h
    · cases h
      trivial
    · next cutoff _ =>
      cases h
      exact hTold .count fun s => .ok (s.deleteFinishedBefore cutoff)
  | shutdown | pause | unpause | cancel _ | schedule _ | stats =>
    cases h
    trivial

/-- Whatever step a call takes, it leaves nothing behind if it may still fail after it. -/
theorem CallPoint.clean_step {point : CallPoint} {p : Progress CallPoint Answer}
    (h : point.step cue r = some (r', p)) (hClean : point.Clean r₀ r) :
    p.Clean r₀ r' (CallPoint.Clean r₀ r') := by
  cases point with
  | made call =>
    obtain ⟨hWhole, rfl⟩ := hClean
    exact Call.clean_begin hWhole h
  | admitting a point =>
    obtain ⟨x, hStep, hLift⟩ := Option.map_eq_some_iff.mp h
    exact Progress.clean_lift hLift (Admission.clean_step hStep hClean) fun _ hq => hq
  | canceling point =>
    exact Progress.clean_lift (Option.some.inj h) (Cancellation.clean_step rfl hClean)
      fun _ hq => hq
  | scheduling point =>
    cases hClean
    obtain ⟨x, hStep, hLift⟩ := Option.map_eq_some_iff.mp h
    exact Progress.clean_lift hLift (Registration.clean_step hStep) fun _ hq => hq
  | stopping point =>
    obtain ⟨⟨r₁, progress⟩, -, hLift⟩ := Option.map_eq_some_iff.mp h
    cases progress <;> cases hLift <;> trivial
  | starting point => exact hClean.elim
  | declaring point => exact hClean.elim

-- ---------------------------------------------------------------------------
-- A call on its own
-- ---------------------------------------------------------------------------

namespace System

variable {s u : System δ} {i : Nat} {cues : List Cue} {e : JobError}

/-- A call that nobody interferes with and that fails has left nothing behind. -/
theorem unchanged_of_clean {point : CallPoint} (hAt : s.threads[i]? = some (.caller point))
    (hClean : point.Clean r₀ s.realm) (hRun : s.run (cues.map (.advance i)) = some u)
    (hFailed : u.threads[i]? = some (.answered (.error e))) :
    u = ⟨r₀.afterFailure e, s.threads.set i (.answered (.error e))⟩ := by
  induction cues generalizing s point with
  | nil =>
    cases hRun
    rw [hAt] at hFailed
    cases hFailed
  | cons cue rest ih =>
    obtain ⟨v, hStep, hRest⟩ := Option.bind_eq_some_iff.mp hRun
    obtain ⟨r', th', crew, hThread, rfl⟩ := step_advance_at hAt hStep
    rcases Thread.step_caller hThread with
      ⟨next, hPoint, rfl, rfl⟩ | ⟨answer, hPoint, rfl, hCrew, -⟩
    · have hNext : next.Clean r₀ r' := CallPoint.clean_step hPoint hClean
      have hAfter := ih (thread_of_advance_self hAt) hNext hRest
      rwa [List.append_nil, List.set_set] at hAfter
    · have hOver := CallPoint.clean_step hPoint hClean
      obtain rfl : crew = [] := hCrew.resolve_right (by rintro rfl; exact hClean)
      have hAnswered : (s.threads.set i (.answered answer) ++ [])[i]? = some (.answered answer) :=
        thread_of_advance_self hAt
      -- nobody takes a step after the answer
      cases rest with
      | nil =>
        cases hRest
        cases hAnswered.symm.trans hFailed
        rw [List.append_nil, ← hOver]
      | cons cue' rest =>
        obtain ⟨w, hMore, -⟩ := Option.bind_eq_some_iff.mp hRest
        obtain ⟨_, _, _, hNone, -⟩ := step_advance_at hAnswered hMore
        cases hNone

/-- Whatever the state of a realm and of the threads on it, and whenever the store is in trouble: a
call that nobody interferes with and that fails has changed nothing, but that a rejected request is
counted. -/
theorem unchanged_of_failure {call : Call} (hWhole : call.isWhole = true)
    (hAt : s.threads[i]? = some (.caller (.made call)))
    (hRun : s.run (cues.map (.advance i)) = some u)
    (hFailed : u.threads[i]? = some (.answered (.error e))) :
    u = ⟨s.realm.afterFailure e, s.threads.set i (.answered (.error e))⟩ :=
  unchanged_of_clean hAt ⟨hWhole, rfl⟩ hRun hFailed

/-- A request for the job under the given constraints. -/
def requestUnder (constraints : List Constraint) : JobRequest :=
  { jobKey := "job", name := "job", group := none, arguments := Dict.empty,
    metadata := Dict.empty, constraints, retryPolicy := none, trigger := .immediate }

/-- A realm with one running record, and three callers: one who submits a request, one who cancels
the run, and one who submits a request that is turned away. -/
def threeCallers : System Unit :=
  let record := (requestUnder []).toRecord ⟨⟨1⟩⟩ "default" .standard none ⟨0, 0⟩
  let store : Store :=
    ⟨[{ record with state := .running, attempts := 1, startedAt := some ⟨0, 0⟩ }], by decide⟩
  ⟨.make default ⟨Dict.empty.insert "job" ()⟩ store,
    [.caller (.made (.submit (requestUnder []))), .caller (.made (.cancel ⟨⟨1⟩⟩)),
      .caller (.made (.submit (requestUnder [.closed "closed" "maintenance"])))]⟩

/-- So many steps with the store in order, and one with the store in trouble. -/
def troubleAfter (steps : Nat) : List Cue :=
  List.replicate steps { now := ⟨1, 0⟩, fresh := ⟨2⟩ } ++
    [{ now := ⟨1, 0⟩, fresh := ⟨2⟩, fault := some "disk full" }]

/-- The first caller fails as its record is to be created, the second one as the run is to be
marked, and the third one is rejected. -/
theorem unchanged_of_failure_inTrouble :
    (∃ u, threeCallers.run ((troubleAfter 3).map (.advance 0)) = some u ∧
      u = ⟨threeCallers.realm,
        threeCallers.threads.set 0 (.answered (.error (.store (.storage "disk full"))))⟩) ∧
    (∃ u, threeCallers.run ((troubleAfter 2).map (.advance 1)) = some u ∧
      u = ⟨threeCallers.realm,
        threeCallers.threads.set 1 (.answered (.error (.store (.storage "disk full"))))⟩) ∧
    ∃ u, threeCallers.run (((troubleAfter 3).take 3).map (.advance 2)) = some u ∧
      u = ⟨{ threeCallers.realm with counters := { rejected := 1 } },
        threeCallers.threads.set 2 (.answered (.error (.rejected ⟨"closed", "maintenance"⟩)))⟩ := by
  obtain ⟨u₀, hRun₀, hFailed₀⟩ : ∃ u,
      threeCallers.run ((troubleAfter 3).map (.advance 0)) = some u ∧
        u.threads[0]? = some (.answered (.error (.store (.storage "disk full")))) := ⟨_, rfl, rfl⟩
  obtain ⟨u₁, hRun₁, hFailed₁⟩ : ∃ u,
      threeCallers.run ((troubleAfter 2).map (.advance 1)) = some u ∧
        u.threads[1]? = some (.answered (.error (.store (.storage "disk full")))) := ⟨_, rfl, rfl⟩
  obtain ⟨u₂, hRun₂, hFailed₂⟩ : ∃ u,
      threeCallers.run (((troubleAfter 3).take 3).map (.advance 2)) = some u ∧
        u.threads[2]? = some (.answered (.error (.rejected ⟨"closed", "maintenance"⟩))) :=
    ⟨_, rfl, rfl⟩
  exact ⟨⟨u₀, hRun₀, unchanged_of_failure rfl rfl hRun₀ hFailed₀⟩,
    ⟨u₁, hRun₁, unchanged_of_failure rfl rfl hRun₁ hFailed₁⟩,
    u₂, hRun₂, unchanged_of_failure rfl rfl hRun₂ hFailed₂⟩

end System

end BackgroundJobs
