import BackgroundJobs.Job.Retry
import Mathlib.Algebra.Order.Floor.Semiring
import Mathlib.Data.Rat.Floor
import Mathlib.Tactic.FieldSimp
import Mathlib.Tactic.Linarith
import Mathlib.Tactic.Ring

/-!
# Proofs — waiting times

The formula of the waiting times is the same in every arithmetic. Here it is read
on exact numbers, and the jitter of a policy is an exact number beside it.

Without jitter a waiting time is what its strategy says, and none is shorter than
one before it. Jitter takes a share of it up or down, which depends on the number
of the attempt alone. The longest delay of a policy bounds the growing waiting
times before their jitter, but neither a fixed one nor what jitter adds.

Main results:

* `RetryPolicy.exactWait_eq`    — a waiting time is that without jitter, with the
  swing of its attempt.
* `RetryPolicy.keepsCap`        — when a waiting time keeps to the longest delay,
  and how far it may go beyond.
* `RetryPolicy.followsFormula`  — waiting times without jitter, and how far jitter
  takes them from there.
-/

namespace BackgroundJobs

namespace Backoff

-- ---------------------------------------------------------------------------
-- Before the jitter
-- ---------------------------------------------------------------------------

theorem lesser_eq_min {α : Type} [LinearOrder α] [DecidableLT α] (a b : α) :
    lesser a b = min a b := by
  unfold lesser
  split
  · next hLess => exact (min_eq_left hLess.le).symm
  · next hNot => exact (min_eq_right (not_lt.mp hNot)).symm

/-- The waiting time before any jitter, in whole milliseconds. -/
def formula (strategy : Backoff) (base cap attempt : ℕ) : ℕ :=
  match strategy with
  | fixed => base
  | exponential => min (base * 2 ^ min (attempt - 1) 62) cap
  | linear => min (base * attempt) cap

/-- Whole numbers stay whole before the jitter. -/
theorem plainDelay_eq (strategy : Backoff) (base cap attempt : ℕ) :
    strategy.plainDelay (base : ℚ) cap attempt = strategy.formula base cap attempt := by
  cases strategy with
  | fixed => rfl
  | exponential =>
    have hPower : (Nat.pow 2 (min (attempt - 1) 62) : ℕ) = 2 ^ min (attempt - 1) 62 := rfl
    rw [plainDelay, lesser_eq_min, hPower, formula, Nat.cast_min, Nat.cast_mul]
  | linear => rw [plainDelay, lesser_eq_min, formula, Nat.cast_min, Nat.cast_mul]

theorem formula_mono (strategy : Backoff) (base cap : ℕ) {a b : ℕ} (h : a ≤ b) :
    strategy.formula base cap a ≤ strategy.formula base cap b := by
  cases strategy with
  | fixed => exact le_rfl
  | exponential =>
    have hExponent : min (a - 1) 62 ≤ min (b - 1) 62 := by omega
    exact min_le_min_right cap
      (Nat.mul_le_mul_left base (Nat.pow_le_pow_right Nat.two_pos hExponent))
  | linear => exact min_le_min_right cap (Nat.mul_le_mul_left base h)

/-- Growing waiting times are cut at the longest delay, and a fixed one is not. -/
theorem formula_le_cap_iff (strategy : Backoff) (base cap attempt : ℕ) :
    strategy.formula base cap attempt ≤ cap ↔ strategy ≠ .fixed ∨ base ≤ cap := by
  cases strategy <;> simp [formula]

theorem formula_le (strategy : Backoff) {base cap bound : ℕ} (hBase : base ≤ bound)
    (hCap : cap ≤ bound) (attempt : ℕ) : strategy.formula base cap attempt ≤ bound := by
  cases strategy with
  | fixed => exact hBase
  | exponential | linear => exact (min_le_right _ _).trans hCap

-- ---------------------------------------------------------------------------
-- The jitter
-- ---------------------------------------------------------------------------

/-- Where in the range of its jitter an attempt lies, `-1` being the lower end of it and `1` the
upper one. -/
def swing (attempt : ℕ) : ℚ := ((attempt * 17 % 100 : ℕ) - 50) / 50

theorem neg_one_le_swing (attempt : ℕ) : -1 ≤ swing attempt := by
  have hNonneg : (0 : ℚ) ≤ (attempt * 17 % 100 : ℕ) := Nat.cast_nonneg _
  unfold swing
  linarith

theorem swing_le (attempt : ℕ) : swing attempt ≤ 49 / 50 := by
  have hLess : attempt * 17 % 100 ≤ 99 := by omega
  have hCast : ((attempt * 17 % 100 : ℕ) : ℚ) ≤ (99 : ℕ) := Nat.cast_le.mpr hLess
  unfold swing
  push_cast at hCast
  linarith

/-- The jitter of half of the attempts shortens the waiting time. -/
theorem swing_nonpos_iff {attempt : ℕ} : swing attempt ≤ 0 ↔ attempt * 17 % 100 ≤ 50 := by
  have hCast : ((attempt * 17 % 100 : ℕ) : ℚ) ≤ (50 : ℕ) ↔ attempt * 17 % 100 ≤ 50 := Nat.cast_le
  rw [← hCast]
  unfold swing
  constructor
  · intro h
    push_cast
    linarith
  · intro h
    push_cast at h
    linarith

section Jitter

variable {strategy : Backoff} {base cap jitter plain : ℚ} {attempt : ℕ}

theorem unitClamp_of_mem (hJitter : 0 ≤ jitter ∧ jitter ≤ 1) : unitClamp jitter = jitter := by
  have hLow : ¬jitter < ((0 : ℕ) : ℚ) := by simpa using hJitter.1
  have hHigh : ¬((1 : ℕ) : ℚ) < jitter := by simpa using hJitter.2
  rw [unitClamp, if_neg hLow, if_neg hHigh]

theorem jitterShift_eq (hJitter : 0 ≤ jitter ∧ jitter ≤ 1) (hPlain : 0 ≤ plain) (attempt : ℕ) :
    jitterShift jitter plain attempt = plain * (jitter * swing attempt) := by
  rw [jitterShift, unitClamp_of_mem hJitter]
  split
  · rw [swing]
    push_cast
    ring
  · next hNot =>
    -- there is no range to shift in
    have hRange : plain * jitter = 0 :=
      le_antisymm (by simpa using hNot) (mul_nonneg hPlain hJitter.1)
    rw [← mul_assoc, hRange, Nat.cast_zero, zero_mul]

theorem factor_nonneg (hJitter : 0 ≤ jitter ∧ jitter ≤ 1) (attempt : ℕ) :
    0 ≤ 1 + jitter * swing attempt := by
  have hSwing : jitter * -1 ≤ jitter * swing attempt :=
    mul_le_mul_of_nonneg_left (neg_one_le_swing attempt) hJitter.1
  linarith [hJitter.2]

theorem mul_swing_nonpos (hJitter : 0 ≤ jitter ∧ jitter ≤ 1)
    (hShorter : jitter = 0 ∨ attempt * 17 % 100 ≤ 50) : jitter * swing attempt ≤ 0 := by
  rcases hShorter with rfl | hDown
  · rw [zero_mul]
  · exact mul_nonpos_of_nonneg_of_nonpos hJitter.1 (swing_nonpos_iff.mpr hDown)

/-- Jitter takes its share of the waiting time up or down, and never more than all of it away. -/
theorem delay_eq (hJitter : 0 ≤ jitter ∧ jitter ≤ 1)
    (hPlain : 0 ≤ strategy.plainDelay base cap attempt) :
    strategy.delay base cap jitter attempt =
      strategy.plainDelay base cap attempt * (1 + jitter * swing attempt) := by
  have hShifted : strategy.plainDelay base cap attempt +
      jitterShift jitter (strategy.plainDelay base cap attempt) attempt =
      strategy.plainDelay base cap attempt * (1 + jitter * swing attempt) := by
    rw [jitterShift_eq hJitter hPlain]
    ring
  have hNonneg : 0 ≤ strategy.plainDelay base cap attempt * (1 + jitter * swing attempt) :=
    mul_nonneg hPlain (factor_nonneg hJitter attempt)
  have hNot : ¬strategy.plainDelay base cap attempt * (1 + jitter * swing attempt) <
      ((0 : ℕ) : ℚ) := by simpa using hNonneg
  simp only [delay, hShifted, if_neg hNot]

end Jitter

end Backoff

namespace RetryPolicy

variable {p : RetryPolicy} {jitter : ℚ} {attempt : ℕ}

-- ---------------------------------------------------------------------------
-- On exact numbers
-- ---------------------------------------------------------------------------

/-- The waiting time after the given attempt in the arithmetic of `α`, made a whole number of
milliseconds by `round`. -/
def millisIn {α : Type} [NatCast α] [Add α] [Sub α] [Mul α] [Div α] [LT α] [DecidableLT α]
    (round : α → ℕ) (p : RetryPolicy) (jitter : α) (attempt : ℕ) : ℕ :=
  if attempt = 0 then 0
  else round (p.strategy.delay (p.baseDelay.millis : α) p.maxDelay.millis jitter attempt)

/-- On binary fractions it is the time that is waited. -/
theorem delayMillis_eq_millisIn (p : RetryPolicy) (attempt : ℕ) :
    p.delayMillis attempt = millisIn (fun x : Float => x.toUInt64.toNat) p p.jitter attempt :=
  rfl

/-- The most that 64 bits can count. -/
def longestMillis : ℕ := 0xffffffffffffffff

/-- A number of milliseconds, rounded down and cut at what 64 bits can count. -/
def wholeMillis (x : ℚ) : ℕ := min ⌊x⌋₊ longestMillis

/-- The waiting time after the given attempt on exact numbers, with such a jitter in the place of
the policy's own. -/
def exactMillis (p : RetryPolicy) (jitter : ℚ) (attempt : ℕ) : ℕ :=
  millisIn wholeMillis p jitter attempt

def exactDelay (p : RetryPolicy) (jitter : ℚ) (attempt : ℕ) : Duration :=
  .ofMillis (p.exactMillis jitter attempt)

/-- The waiting time in milliseconds, before it is made a whole number of them. -/
def exactWait (p : RetryPolicy) (jitter : ℚ) (attempt : ℕ) : ℚ :=
  p.strategy.delay (p.baseDelay.millis : ℚ) p.maxDelay.millis jitter attempt

/-- The waiting time in milliseconds, before any jitter. -/
def plainMillis (p : RetryPolicy) (attempt : ℕ) : ℕ :=
  p.strategy.formula p.baseDelay.millis p.maxDelay.millis attempt

theorem exactMillis_eq (p : RetryPolicy) (jitter : ℚ) (hAttempt : 1 ≤ attempt) :
    p.exactMillis jitter attempt = min ⌊p.exactWait jitter attempt⌋₊ longestMillis :=
  if_neg (Nat.one_le_iff_ne_zero.mp hAttempt)

/-- A waiting time is that without jitter, with the swing of its attempt. -/
theorem exactWait_eq (p : RetryPolicy) (hJitter : 0 ≤ jitter ∧ jitter ≤ 1) (attempt : ℕ) :
    p.exactWait jitter attempt = p.plainMillis attempt * (1 + jitter * Backoff.swing attempt) := by
  have hPlain := Backoff.plainDelay_eq p.strategy p.baseDelay.millis p.maxDelay.millis attempt
  have hNonneg : 0 ≤ p.strategy.plainDelay (p.baseDelay.millis : ℚ) p.maxDelay.millis attempt := by
    rw [hPlain]
    exact Nat.cast_nonneg _
  rw [exactWait, Backoff.delay_eq hJitter hNonneg, hPlain, plainMillis]

theorem exactWait_nonneg (p : RetryPolicy) (hJitter : 0 ≤ jitter ∧ jitter ≤ 1) (attempt : ℕ) :
    0 ≤ p.exactWait jitter attempt := by
  rw [exactWait_eq p hJitter]
  exact mul_nonneg (Nat.cast_nonneg _) (Backoff.factor_nonneg hJitter attempt)

theorem exactWait_zero (p : RetryPolicy) (attempt : ℕ) :
    p.exactWait 0 attempt = p.plainMillis attempt := by
  rw [exactWait_eq p ⟨le_rfl, zero_le_one⟩, zero_mul, add_zero, mul_one]

/-- A delay of whole milliseconds is within another if they are within its milliseconds. -/
theorem exactDelay_le_iff {d : Duration} :
    (p.exactDelay jitter attempt).nanos ≤ d.nanos ↔ p.exactMillis jitter attempt ≤ d.millis := by
  rw [exactDelay, Duration.ofMillis, Duration.millis, Nat.le_div_iff_mul_le (by decide), mul_comm]

-- ---------------------------------------------------------------------------
-- The longest delay
-- ---------------------------------------------------------------------------

/-- How the waiting time after an attempt keeps to the longest delay of its policy. -/
structure KeepsCap (p : RetryPolicy) (jitter : ℚ) (attempt : ℕ) : Prop where
  /-- Exactly these are within the longest delay. -/
  within : (p.exactDelay jitter attempt).nanos ≤ p.maxDelay.nanos ↔
    longestMillis ≤ p.maxDelay.millis ∨
      p.plainMillis attempt * (1 + jitter * Backoff.swing attempt) < p.maxDelay.millis + 1
  /-- Before the jitter only a fixed delay can be beyond it. -/
  plain : p.plainMillis attempt ≤ p.maxDelay.millis ↔
    p.strategy ≠ .fixed ∨ p.baseDelay.millis ≤ p.maxDelay.millis
  /-- What is within it before the jitter stays so without jitter, and whenever the jitter of the
  attempt does not lengthen it. -/
  kept : p.plainMillis attempt ≤ p.maxDelay.millis → jitter = 0 ∨ attempt * 17 % 100 ≤ 50 →
    (p.exactDelay jitter attempt).nanos ≤ p.maxDelay.nanos
  /-- Jitter lengthens it by less than its share. -/
  beyond : (p.exactMillis jitter attempt : ℚ) ≤ p.plainMillis attempt * (1 + jitter * (49 / 50))

/-- When the waiting time after an attempt is within the longest delay, and how far it may be beyond
it. -/
theorem keepsCap (p : RetryPolicy) (hJitter : 0 ≤ jitter ∧ jitter ≤ 1) (hAttempt : 1 ≤ attempt) :
    p.KeepsCap jitter attempt := by
  have hNonneg := p.exactWait_nonneg hJitter attempt
  have hWithin : (p.exactDelay jitter attempt).nanos ≤ p.maxDelay.nanos ↔
      longestMillis ≤ p.maxDelay.millis ∨
        p.plainMillis attempt * (1 + jitter * Backoff.swing attempt) < p.maxDelay.millis + 1 := by
    have hFloor : ⌊p.exactWait jitter attempt⌋₊ ≤ p.maxDelay.millis ↔
        p.exactWait jitter attempt < p.maxDelay.millis + 1 := by
      rw [← Nat.lt_succ_iff, Nat.floor_lt hNonneg, Nat.succ_eq_add_one, Nat.cast_add, Nat.cast_one]
    rw [exactDelay_le_iff, p.exactMillis_eq jitter hAttempt, min_le_iff, hFloor, or_comm,
      p.exactWait_eq hJitter]
  have hPlainNonneg : (0 : ℚ) ≤ p.plainMillis attempt := Nat.cast_nonneg _
  constructor
  case within => exact hWithin
  case plain => exact Backoff.formula_le_cap_iff ..
  case kept =>
    intro hPlain hShorter
    refine hWithin.mpr (.inr ?_)
    have hFactor : 1 + jitter * Backoff.swing attempt ≤ 1 := by
      linarith [Backoff.mul_swing_nonpos hJitter hShorter]
    calc (p.plainMillis attempt : ℚ) * (1 + jitter * Backoff.swing attempt)
        ≤ p.plainMillis attempt := mul_le_of_le_one_right hPlainNonneg hFactor
      _ ≤ p.maxDelay.millis := Nat.cast_le.mpr hPlain
      _ < p.maxDelay.millis + 1 := lt_add_one _
  case beyond =>
    have hRounded : (p.exactMillis jitter attempt : ℚ) ≤ ⌊p.exactWait jitter attempt⌋₊ := by
      rw [p.exactMillis_eq jitter hAttempt]
      exact Nat.cast_le.mpr (min_le_left _ _)
    have hSwing : jitter * Backoff.swing attempt ≤ jitter * (49 / 50) :=
      mul_le_mul_of_nonneg_left (Backoff.swing_le attempt) hJitter.1
    calc (p.exactMillis jitter attempt : ℚ)
        ≤ p.exactWait jitter attempt := hRounded.trans (Nat.floor_le hNonneg)
      _ = p.plainMillis attempt * (1 + jitter * Backoff.swing attempt) := p.exactWait_eq hJitter _
      _ ≤ p.plainMillis attempt * (1 + jitter * (49 / 50)) :=
        mul_le_mul_of_nonneg_left (by linarith) hPlainNonneg

/-- A policy whose waiting times have reached the longest delay. -/
def grown : RetryPolicy := ⟨100, .ofMillis 100, .ofMillis 100, .exponential, 1.0⟩

/-- A policy with a fixed delay beyond its longest one. -/
def steady : RetryPolicy := ⟨3, .ofMillis 200, .ofMillis 100, .fixed, 0.0⟩

/-- The second attempt of a grown policy swings down, so that its jitter stays within the longest
delay. -/
theorem keepsCap_swingsDown : (0 ≤ (1 : ℚ) ∧ (1 : ℚ) ≤ 1) ∧ 1 ≤ 2 ∧
    (grown.exactDelay 1 2).nanos ≤ grown.maxDelay.nanos :=
  ⟨⟨zero_le_one, le_rfl⟩, by decide,
    (keepsCap grown ⟨zero_le_one, le_rfl⟩ (by decide)).kept (by decide) (.inr (by decide))⟩

/-- After its 75th attempt a grown policy waits half as long again as its longest delay, and a fixed
delay is waited whatever the longest one is. -/
theorem waits_beyond_cap :
    (grown.exactDelay 1 75 = .ofMillis 150 ∧
        ¬(grown.exactDelay 1 75).nanos ≤ grown.maxDelay.nanos) ∧
      steady.exactDelay 0 1 = .ofMillis 200 ∧
        ¬(steady.exactDelay 0 1).nanos ≤ steady.maxDelay.nanos := by
  have hGrown : grown.exactDelay 1 75 = .ofMillis 150 := by
    have hPlain : grown.plainMillis 75 = 100 := by decide
    have hWait : grown.exactWait 1 75 = (150 : ℕ) := by
      rw [exactWait_eq _ ⟨zero_le_one, le_rfl⟩, hPlain, Backoff.swing]
      norm_num
    rw [exactDelay, exactMillis_eq _ _ (by decide), hWait, Nat.floor_natCast]
    rfl
  have hSteady : steady.exactDelay 0 1 = .ofMillis 200 := by
    rw [exactDelay, exactMillis_eq _ _ (by decide), exactWait_zero, Nat.floor_natCast]
    rfl
  exact ⟨⟨hGrown, by rw [hGrown]; decide⟩, hSteady, by rw [hSteady]; decide⟩

-- ---------------------------------------------------------------------------
-- Without jitter, and around it
-- ---------------------------------------------------------------------------

/-- How the waiting times of a policy follow from its delays in whole milliseconds. -/
structure FollowsFormula (p : RetryPolicy) (base cap : ℕ) : Prop where
  /-- Without jitter they are what the strategy says. -/
  plain : ∀ attempt, 1 ≤ attempt →
    p.exactDelay 0 attempt = .ofMillis (p.strategy.formula base cap attempt)
  /-- Without jitter none is shorter than one before it. -/
  mono : ∀ a b, 1 ≤ a → a ≤ b → (p.exactDelay 0 a).nanos ≤ (p.exactDelay 0 b).nanos
  /-- Jitter takes them away from there by its share at most. -/
  near : ∀ jitter : ℚ, 0 ≤ jitter → jitter ≤ 1 → ∀ attempt,
    |p.exactWait jitter attempt - p.strategy.formula base cap attempt| ≤
      jitter * p.strategy.formula base cap attempt
  nonneg : ∀ jitter : ℚ, 0 ≤ jitter → jitter ≤ 1 → ∀ attempt, 0 ≤ p.exactWait jitter attempt

/-- Waiting times without jitter, and how far jitter takes them from there. -/
theorem followsFormula (p : RetryPolicy) {base cap : ℕ} (hBase : p.baseDelay = .ofMillis base)
    (hCap : p.maxDelay = .ofMillis cap) (hBaseFits : base ≤ longestMillis)
    (hCapFits : cap ≤ longestMillis) : p.FollowsFormula base cap := by
  have hFormula : ∀ attempt, p.plainMillis attempt = p.strategy.formula base cap attempt := by
    intro attempt
    rw [plainMillis, hBase, hCap, Duration.millis_ofMillis, Duration.millis_ofMillis]
  have hPlain : ∀ attempt, 1 ≤ attempt →
      p.exactMillis 0 attempt = p.strategy.formula base cap attempt := by
    intro attempt hAttempt
    rw [p.exactMillis_eq 0 hAttempt, p.exactWait_zero, Nat.floor_natCast, hFormula]
    exact min_eq_left (p.strategy.formula_le hBaseFits hCapFits attempt)
  constructor
  case plain =>
    intro attempt hAttempt
    rw [exactDelay, hPlain attempt hAttempt]
  case mono =>
    intro a b hA hLe
    rw [exactDelay, exactDelay, hPlain a hA, hPlain b (hA.trans hLe)]
    exact Nat.mul_le_mul_left _ (p.strategy.formula_mono base cap hLe)
  case near =>
    intro jitter hLow hHigh attempt
    obtain ⟨x, hx⟩ : ∃ x : ℚ, x = p.strategy.formula base cap attempt := ⟨_, rfl⟩
    have hNonneg : 0 ≤ x := by
      rw [hx]
      exact Nat.cast_nonneg _
    have hApart : p.exactWait jitter attempt - x = jitter * x * Backoff.swing attempt := by
      rw [p.exactWait_eq ⟨hLow, hHigh⟩, hFormula, hx]
      ring
    have hSwing : |Backoff.swing attempt| ≤ 1 :=
      abs_le.mpr ⟨Backoff.neg_one_le_swing attempt,
        (Backoff.swing_le attempt).trans (by norm_num)⟩
    rw [← hx, hApart, abs_mul, abs_of_nonneg (mul_nonneg hLow hNonneg)]
    exact mul_le_of_le_one_right (mul_nonneg hLow hNonneg) hSwing
  case nonneg =>
    intro jitter hLow hHigh attempt
    exact p.exactWait_nonneg ⟨hLow, hHigh⟩ attempt

/-- Delays of the length of 64 bits double once, and stay at the longest one after that. -/
theorem followsFormula_longest :
    (⟨5, .ofMillis 0x8000000000000000, .ofMillis 0xffffffffffffffff, .exponential, 0.0⟩ :
        RetryPolicy).FollowsFormula 0x8000000000000000 0xffffffffffffffff ∧
      (⟨5, .ofMillis 0x8000000000000000, .ofMillis 0xffffffffffffffff, .exponential, 0.0⟩ :
        RetryPolicy).exactDelay 0 4000000000 = .ofMillis 0xffffffffffffffff :=
  have hFollows := followsFormula
    ⟨5, .ofMillis 0x8000000000000000, .ofMillis 0xffffffffffffffff, .exponential, 0.0⟩ rfl rfl
    (by decide) (by decide)
  ⟨hFollows, hFollows.plain 4000000000 (by decide)⟩

end RetryPolicy

end BackgroundJobs
