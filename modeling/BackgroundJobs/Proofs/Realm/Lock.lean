import BackgroundJobs.Proofs.Realm.Effect
import BackgroundJobs.Proofs.Realm.Run
import BackgroundJobs.Proofs.Realm.Threads

/-!
# Proofs — the locks of a realm

Admissions exclude each other, and so do starts and shutdowns. A lock is a mark
on the realm together with the points at which a thread has it; if the mark is
set by taking the lock and lifted by giving it back, and by nothing else, then
no two threads are at such points at one time.

Main results:

* `Lock.kept_of_run` — a lawful lock has at most one owner after every run.
* `admissionLock_lawful` — the lock of the admissions is lawful.
-/

namespace BackgroundJobs

variable {δ : Type}

-- ---------------------------------------------------------------------------
-- Locks
-- ---------------------------------------------------------------------------

/-- A lock: the mark that it is taken, and the points at which a thread has it. -/
structure Lock (δ : Type) where
  held : Realm δ → Bool
  owns : Thread δ → Bool

namespace Lock

variable {l : Lock δ} {s u : System δ} {events : List Event}

/-- The owner of a lock sets and lifts the mark as it keeps the lock or gives it back; others leave
the mark alone, or take the lock while the mark is not set. -/
structure Lawful (l : Lock δ) : Prop where
  call : ∀ call, l.owns (.caller (.made call)) = false
  crew : ∀ {cue r th r' th' crew}, Thread.step cue r th = some (r', th', crew) →
    ∀ x ∈ crew, l.owns x = false
  owner : ∀ {cue r th r' th' crew}, Thread.step cue r th = some (r', th', crew) →
    l.owns th = true → l.held r = true → l.held r' = l.owns th'
  other : ∀ {cue r th r' th' crew}, Thread.step cue r th = some (r', th', crew) →
    l.owns th = false →
      (l.owns th' = false ∧ l.held r' = l.held r) ∨
        (l.owns th' = true ∧ l.held r = false ∧ l.held r' = true)
  sweep : ∀ (r : Realm δ) store, l.held { r with store } = l.held r

/-- At most one thread has the lock, and only while it is marked as taken. -/
structure Kept (l : Lock δ) (s : System δ) : Prop where
  held : ∀ {i : Nat} {th}, s.threads[i]? = some th → l.owns th = true → l.held s.realm = true
  alone : ∀ {i j : Nat} {x y}, s.threads[i]? = some x → s.threads[j]? = some y →
    l.owns x = true → l.owns y = true → i = j

theorem kept_ofRealm (r : Realm δ) : l.Kept (.ofRealm r) := by
  constructor
  · intro i th h
    cases h
  · intro i j x y h
    cases h

theorem kept_step (hLaw : l.Lawful) (h : l.Kept s) {e : Event} (hStep : s.step e = some u) :
    l.Kept u := by
  cases e with
  | call call =>
    cases hStep
    have hOld : ∀ {j : Nat} {y}, (s.threads ++ [.caller (.made call)])[j]? = some y →
        l.owns y = true → s.threads[j]? = some y := by
      intro j y hy hOwns
      rcases System.threads_of_call hy with hOld | ⟨-, rfl⟩
      · exact hOld
      · rw [hLaw.call call] at hOwns
        cases hOwns
    exact ⟨fun hi hOwns => h.held (hOld hi hOwns) hOwns,
      fun hi hj hx hy => h.alone (hOld hi hx) (hOld hj hy) hx hy⟩
  | sweep cutoff =>
    cases hStep
    exact ⟨fun hi hOwns => (hLaw.sweep _ _).trans (h.held hi hOwns), h.alone⟩
  | advance i cue =>
    obtain ⟨th, r', th', crew, hAt, hThread, rfl⟩ := System.step_advance hStep
    have hFrom : ∀ {j : Nat} {y}, (s.threads.set i th' ++ crew)[j]? = some y →
        l.owns y = true → (j = i ∧ y = th') ∨ (j ≠ i ∧ s.threads[j]? = some y) := by
      intro j y hy hOwns
      rcases System.threads_of_advance hy with hNew | hOld | ⟨-, hMem⟩
      · exact .inl hNew
      · exact .inr hOld
      · rw [hLaw.crew hThread y hMem] at hOwns
        cases hOwns
    by_cases hOwner : l.owns th = true
    · -- no other thread had the lock, so none has it now
      have hOnly : ∀ {j : Nat} {y}, (s.threads.set i th' ++ crew)[j]? = some y →
          l.owns y = true → j = i ∧ y = th' := by
        intro j y hy hOwns
        rcases hFrom hy hOwns with hNew | ⟨hji, hOld⟩
        · exact hNew
        · exact absurd (h.alone hOld hAt hOwns hOwner) hji
      constructor
      · intro j y hy hOwns
        obtain ⟨-, rfl⟩ := hOnly hy hOwns
        rw [← hOwns]
        exact hLaw.owner hThread hOwner (h.held hAt hOwner)
      · intro j k x y hx hy hOwnsX hOwnsY
        exact (hOnly hx hOwnsX).1.trans (hOnly hy hOwnsY).1.symm
    · rw [Bool.not_eq_true] at hOwner
      rcases hLaw.other hThread hOwner with ⟨hNot, hSame⟩ | ⟨hTakes, hFree, hHeld⟩
      · have hOld : ∀ {j : Nat} {y}, (s.threads.set i th' ++ crew)[j]? = some y →
            l.owns y = true → s.threads[j]? = some y := by
          intro j y hy hOwns
          rcases hFrom hy hOwns with ⟨-, rfl⟩ | ⟨-, hOld⟩
          · rw [hNot] at hOwns
            cases hOwns
          · exact hOld
        exact ⟨fun hi hOwns => hSame.trans (h.held (hOld hi hOwns) hOwns),
          fun hi hj hx hy => h.alone (hOld hi hx) (hOld hj hy) hx hy⟩
      · -- the lock was free, so nobody else has it
        have hOnly : ∀ {j : Nat} {y}, (s.threads.set i th' ++ crew)[j]? = some y →
            l.owns y = true → j = i := by
          intro j y hy hOwns
          rcases hFrom hy hOwns with ⟨hji, -⟩ | ⟨-, hOld⟩
          · exact hji
          · have hTaken := h.held hOld hOwns
            rw [hFree] at hTaken
            cases hTaken
        exact ⟨fun _ _ => hHeld, fun hi hj hx hy => (hOnly hi hx).trans (hOnly hj hy).symm⟩

/-- A lawful lock has at most one owner after every run. -/
theorem kept_of_run (hLaw : l.Lawful) {r : Realm δ}
    (hRun : (System.ofRealm r).run events = some u) : l.Kept u :=
  System.run_induction (motive := fun _ u => l.Kept u) hRun (kept_ofRealm r)
    fun _ _ _ _ _ hStep ih => kept_step hLaw ih hStep

end Lock

-- ---------------------------------------------------------------------------
-- The admission lock
-- ---------------------------------------------------------------------------

variable {cue : Cue} {r r' : Realm δ} {th th' : Thread δ} {crew : List (Thread δ)}

/-- Does an admission have its lock at this point? -/
def AdmissionPoint.locked : AdmissionPoint → Bool
  | .waiting => false
  | _ => true

/-- Is the thread checking and creating a run? -/
def Thread.admits (th : Thread δ) : Bool :=
  th.admission?.any (·.2.locked)

def admissionLock : Lock δ := ⟨(·.admissionHeld), Thread.admits⟩

namespace Admission

variable {a : Admission} {p : Progress AdmissionPoint (Except JobError JobRecord)}

theorem step_waiting (h : a.step cue r .waiting = some (r', p)) :
    r.admissionHeld = false ∧ r' = { r with admissionHeld := true } ∧ p = .at .checking := by
  simp only [step] at h
  split at h
  · cases h
  · next hFree =>
    cases h
    exact ⟨by simpa using hFree, rfl, rfl⟩

/-- An admission that goes on keeps its lock, and one that ends gives it back. -/
theorem step_locked {point : AdmissionPoint} (hLocked : point.locked = true)
    (h : a.step cue r point = some (r', p)) :
    (∃ next, p = .at next ∧ next.locked = true ∧ r'.admissionHeld = r.admissionHeld) ∨
      ∃ result, p = .done result ∧ r'.admissionHeld = false := by
  cases point with
  | waiting => cases hLocked
  | checking =>
    simp only [step] at h
    split at h
    · cases h
      exact .inr ⟨_, rfl, rfl⟩
    · split at h
      · cases h
        exact .inr ⟨_, rfl, rfl⟩
      · cases h
        exact .inl ⟨_, rfl, rfl, rfl⟩
  | creating record =>
    simp only [step] at h
    split at h
    · next hTold =>
      cases h
      have hEffect : Effect cue _ [] r r' := .of_create hTold
      exact .inl ⟨_, rfl, rfl, hEffect.admission (by decide)⟩
    · cases h
      exact .inr ⟨_, rfl, rfl⟩
  | queueing record =>
    cases h
    exact .inl ⟨_, rfl, rfl, rfl⟩
  | counting record =>
    cases h
    exact .inr ⟨_, rfl, rfl⟩

end Admission

theorem Thread.admits_eq_true (h : th.admits = true) :
    ∃ a point, th.admission? = some (a, point) ∧ point.locked = true := by
  unfold admits at h
  cases hAt : th.admission? with
  | none =>
    rw [hAt] at h
    cases h
  | some x =>
    rw [hAt] at h
    exact ⟨x.1, x.2, rfl, h⟩

/-- Only admissions touch their lock. -/
theorem Thread.not_touched_of_admission?_eq_none (h : th.admission? = none) :
    Part.admission ∉ th.touched := by
  intro hMem
  cases th with
  | caller point =>
    rcases CallPoint.mem_touched hMem with hPart | ⟨-, a, at', rfl⟩ | ⟨hPart, -⟩ | ⟨hPart, -⟩
    · cases hPart
    · cases h
    · cases hPart
    · cases hPart
  | timer t =>
    obtain ⟨-, now, id, rest, a, point, rfl⟩ := Timer.mem_touched hMem
    cases h
  | worker w =>
    rcases Worker.mem_touched hMem with
      ⟨hPart, -⟩ | ⟨hPart, -⟩ | ⟨hPart | hPart, -⟩ | ⟨hPart, -⟩ <;> cases hPart
  | answered answer => cases hMem

theorem admissionLock_lawful : (admissionLock : Lock δ).Lawful where
  call _ := rfl
  crew hStep x hx := by
    rcases Thread.crew_of_step hStep x hx with rfl | rfl <;> rfl
  owner {cue r th r' th' crew} hStep hOwns hHeld := by
    obtain ⟨a, point, hAt, hLocked⟩ := Thread.admits_eq_true hOwns
    obtain ⟨-, ⟨next, hGoes, hNext⟩ | ⟨result, hEnds, hNone⟩⟩ := Thread.admission_step hAt hStep
    · rcases Admission.step_locked hLocked hGoes with ⟨q, hq, hLocked', hSame⟩ | ⟨_, hq, -⟩
      · cases hq
        have hAdmits : th'.admits = true := by simp [Thread.admits, hNext, hLocked']
        exact hSame.trans (hHeld.trans hAdmits.symm)
      · cases hq
    · rcases Admission.step_locked hLocked hEnds with ⟨_, hq, -⟩ | ⟨_, -, hFree⟩
      · cases hq
      · have hAdmits : th'.admits = false := by simp [Thread.admits, hNone]
        exact hFree.trans hAdmits.symm
  other {cue r th r' th' crew} hStep hNot := by
    cases hAt : th.admission? with
    | none =>
      have hSame := (Thread.effect hStep).admission (Thread.not_touched_of_admission?_eq_none hAt)
      refine .inl ⟨?_, hSame⟩
      rcases Thread.admission_begins hAt hStep with hNone | ⟨a, hWaiting⟩
      · simp [admissionLock, Thread.admits, hNone]
      · simp [admissionLock, Thread.admits, hWaiting, AdmissionPoint.locked]
    | some x =>
      obtain ⟨a, point⟩ := x
      have hPoint : point.locked = false := by
        simpa [admissionLock, Thread.admits, hAt] using hNot
      cases point with
      | waiting =>
        obtain ⟨-, ⟨next, hGoes, hNext⟩ | ⟨result, hEnds, -⟩⟩ := Thread.admission_step hAt hStep
        · obtain ⟨hFree, rfl, hq⟩ := Admission.step_waiting hGoes
          cases hq
          exact .inr ⟨by simp [admissionLock, Thread.admits, hNext, AdmissionPoint.locked],
            hFree, rfl⟩
        · obtain ⟨-, -, hq⟩ := Admission.step_waiting hEnds
          cases hq
      | checking | creating | queueing | counting => cases hPoint
  sweep _ _ := rfl

end BackgroundJobs
