import BackgroundJobs.Proofs.Time.Calendar
import BackgroundJobs.Time.Instant
import Mathlib.Data.List.Chain
import Mathlib.Tactic.Ring
import Mathlib.Tactic.SplitIfs

/-!
# Proofs — steps between instants

Outside of leap seconds the instants are numbers of nanoseconds, and a step is
an addition. Into and out of leap seconds only the order of the instants is of
use.

Main results:

* `lt_shift`      — a step forward leads to a later instant.
* `shift_mono`    — the longer the step, the later the instant.
* `shift_seconds` — a step of whole seconds.
* `length_le_div` — how many instants that are so far apart fit into a time.
-/

namespace BackgroundJobs.Instant

variable {a b c t : Instant} {d : Duration}

-- ---------------------------------------------------------------------------
-- Steps forward
-- ---------------------------------------------------------------------------

theorem lt_shift (t : Instant) {step : Int} (h : 0 < step) : t < t.shift step := by
  unfold shift
  split
  · simp only [lt_iff, ofNanos, nanosPerSecond] at *
    omega
  · split
    · exact Or.inr ⟨rfl, by simp only; omega⟩
    · simp only [lt_iff, ofNanos, nanosPerSecond] at *
      omega

theorem lt_of_lt_of_le (hab : a < b) (hbc : b ≤ c) : a < c := by
  simp only [lt_iff, le_iff] at *
  omega

/-- The instant a duration later is that many nanoseconds later. -/
theorem eq_shift_of_after? (h : t.after? d = some c) : c = t.shift d.nanos := by
  obtain ⟨step, hStep, hShift⟩ := Option.bind_eq_some_iff.mp h
  unfold Duration.step? at hStep
  unfold shift? inRange? at hShift
  split at hStep <;> cases hStep
  split at hShift <;> cases hShift
  rfl

theorem lt_after? (h : t.after? d = some c) (hSome : d.nanos ≠ 0) : t < c := by
  have hForward : (0 : Int) < d.nanos := by omega
  rw [eq_shift_of_after? h]
  exact lt_shift t hForward

/-- The longer the step, the later the instant that it leads to. -/
theorem shift_mono (t : Instant) {step step' : Int} (h : step ≤ step') :
    t.shift step ≤ t.shift step' := by
  unfold shift
  split_ifs <;> simp only [le_iff, ofNanos, nanosPerSecond, true_and] at * <;> omega

/-- A step back leads to no later instant. -/
theorem shift_le (h : t.nanos < 2 * nanosPerSecond) {step : Int} (hBack : step ≤ 0) :
    t.shift step ≤ t := by
  unfold shift
  split_ifs <;> simp only [le_iff, ofNanos, nanosPerSecond, true_and] at * <;> omega

theorem seconds_le (h : a ≤ b) : a.seconds ≤ b.seconds := by
  simp only [le_iff] at h
  omega

/-- A step of one second leads into another second, and not into a leap second. -/
theorem shift_second (t : Instant) : (t.shift nanosPerSecond).isLeap = false ∧
    t.seconds < (t.shift nanosPerSecond).seconds := by
  rw [isLeap, decide_eq_false_iff_not]
  unfold shift
  split_ifs <;> simp only [ofNanos, nanosPerSecond] at * <;> omega

-- ---------------------------------------------------------------------------
-- Outside of leap seconds
-- ---------------------------------------------------------------------------

theorem nanos_lt (h : t.isLeap = false) : t.nanos < nanosPerSecond := by
  simpa [isLeap] using h

theorem nanosSince_eq (ha : a.isLeap = false) (hb : b.isLeap = false) :
    b.nanosSince a = (b.seconds - a.seconds) * nanosPerSecond + (b.nanos - a.nanos) := by
  simp [nanosSince, ha, hb]

theorem nanosSince_add (ha : a.isLeap = false) (hb : b.isLeap = false) (hc : c.isLeap = false) :
    c.nanosSince b + b.nanosSince a = c.nanosSince a := by
  rw [nanosSince_eq hb hc, nanosSince_eq ha hb, nanosSince_eq ha hc]
  ring

theorem nanosSince_nonneg (ha : a.isLeap = false) (hb : b.isLeap = false) (h : a ≤ b) :
    0 ≤ b.nanosSince a := by
  have ha' := nanos_lt ha
  rw [nanosSince_eq ha hb]
  simp only [le_iff, nanosPerSecond] at *
  omega

theorem shift_eq (h : t.isLeap = false) (step : Int) :
    t.shift step = ofNanos (t.seconds * nanosPerSecond + t.nanos + step) :=
  if_pos (.inl (nanos_lt h))

/-- A step of whole seconds leaves the nanoseconds as they are. -/
theorem shift_seconds (h : t.isLeap = false) (seconds : Int) :
    t.shift (seconds * nanosPerSecond) = ⟨t.seconds + seconds, t.nanos⟩ := by
  have hNanos := nanos_lt h
  rw [shift_eq h]
  simp only [ofNanos, nanosPerSecond, Instant.mk.injEq] at *
  omega

/-- An instant has the seconds of its date and time of day. -/
theorem seconds_toDateTime (h : t.isLeap = false) : t.toDateTime.toInstant.seconds = t.seconds := by
  have hNanos := nanos_lt h
  simp only [toDateTime, DateTime.toInstant, Date.toDays_ofDays, days, secondOfDay, secondsPerDay,
    nanosPerSecond] at *
  omega

-- ---------------------------------------------------------------------------
-- Instants that are apart
-- ---------------------------------------------------------------------------

/-- Does the second instant come at least a duration after the first? -/
def Apart (d : Duration) (a b : Instant) : Prop :=
  ∃ c, a.after? d = some c ∧ c ≤ b

theorem Apart.le (h : Apart d a b) : a ≤ b := by
  obtain ⟨c, hAfter, hLe⟩ := h
  have hForward : a ≤ c := by
    rw [eq_shift_of_after? hAfter]
    exact le_shift a (Int.natCast_nonneg _)
  exact le_trans hForward hLe

theorem Apart.le_nanosSince (h : Apart d a b) (ha : a.isLeap = false) (hb : b.isLeap = false) :
    (d.nanos : Int) ≤ b.nanosSince a := by
  obtain ⟨c, hAfter, hLe⟩ := h
  rw [eq_shift_of_after? hAfter, shift_eq ha] at hLe
  rw [nanosSince_eq ha hb]
  simp only [le_iff, ofNanos, nanosPerSecond] at *
  omega

/-- How many instants that are so far apart fit into a time. -/
theorem length_mul_le {times : List Instant} (hApart : (a :: times).IsChain (Apart d))
    (hRegular : ∀ x ∈ a :: times, x.isLeap = false) (ht : t.isLeap = false) (hFirst : a ≤ t)
    (hLast : ∀ x ∈ times, x ≤ t) : (times.length * d.nanos : Int) ≤ t.nanosSince a := by
  induction times generalizing a with
  | nil =>
    have hForward := nanosSince_nonneg (hRegular a List.mem_cons_self) ht hFirst
    simpa using hForward
  | cons b rest ih =>
    obtain ⟨hab, hRest⟩ := List.isChain_cons_cons.mp hApart
    have ha := hRegular a List.mem_cons_self
    have hb := hRegular b (List.mem_cons_of_mem a List.mem_cons_self)
    have hOne := hab.le_nanosSince ha hb
    have hMore := ih hRest (fun x hx => hRegular x (List.mem_cons_of_mem a hx))
      (hLast b List.mem_cons_self) fun x hx => hLast x (List.mem_cons_of_mem b hx)
    calc (((b :: rest).length : Int) * d.nanos)
        = rest.length * d.nanos + d.nanos := by rw [List.length_cons]; push_cast; ring
      _ ≤ t.nanosSince b + b.nanosSince a := Int.add_le_add hMore hOne
      _ = t.nanosSince a := nanosSince_add ha hb ht

/-- No more instants that are so far apart fit into a time than the duration does. -/
theorem length_le_div {times : List Instant} (hApart : (a :: times).IsChain (Apart d))
    (hRegular : ∀ x ∈ a :: times, x.isLeap = false) (ht : t.isLeap = false)
    (hLast : ∀ x ∈ times, x ≤ t) (hSome : d.nanos ≠ 0) :
    times.length ≤ (t.nanosSince a).toNat / d.nanos := by
  cases times with
  | nil => exact Nat.zero_le _
  | cons b rest =>
    have hFirst : a ≤ t :=
      le_trans (List.isChain_cons_cons.mp hApart).1.le (hLast b List.mem_cons_self)
    have hMul := length_mul_le hApart hRegular ht hFirst hLast
    rw [Nat.le_div_iff_mul_le (Nat.pos_of_ne_zero hSome)]
    omega

end BackgroundJobs.Instant
