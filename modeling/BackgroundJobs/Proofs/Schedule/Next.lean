import BackgroundJobs.Proofs.Schedule.Cron
import BackgroundJobs.Schedule.Basic

/-!
# Proofs — the next time of a schedule

A sound schedule fires at times to come only. Those that went through a check,
when they were read or built, are sound: an interval must not be empty, and the
next time of an expression comes later than the one that it is asked for.

Main results:

* `Sound.lt`      — the next time of a sound schedule is later.
* `Checked.sound` — a schedule that was read or built is sound.
-/

namespace BackgroundJobs.Schedule

variable {s : Schedule} {t u : Instant} {text : String}

/-- Does an expression name only times after the one that it is asked for, and is an interval not
empty? -/
def Sound : Schedule → Prop
  | .cron _ times => ∀ t u, times.nextAfter? t = some u → t < u
  | .every interval => interval.nanos ≠ 0

theorem Sound.lt (h : s.Sound) (hNext : s.next? t = some u) : t < u := by
  cases s with
  | cron expression times => exact h t u hNext
  | every interval => exact Instant.lt_after? hNext h

theorem sound_of_ofInterval {interval : Duration} (h : ofInterval interval = .ok s) : s.Sound := by
  unfold ofInterval at h
  split at h
  · cases h
  · next hSome =>
    cases h
    exact hSome

theorem sound_of_ofCron (h : ofCron text = .ok s) : s.Sound := by
  unfold ofCron at h
  split at h
  · next times hParse =>
    cases h
    intro t u hNext
    exact Cron.lt_of_nextAfter? (Cron.isRegular_of_parse? hParse) hNext
  · cases h

/-- A schedule that is read is sound. -/
theorem sound_of_parse (h : parse text = .ok s) : s.Sound := by
  simp only [parse] at h
  split at h
  · next rest hPrefix =>
    cases hInterval : parseInterval (Text.trim rest) with
    | error e =>
      rw [hInterval] at h
      cases h
    | ok interval =>
      rw [hInterval] at h
      exact sound_of_ofInterval h
  · exact sound_of_ofCron h

/-- Was the schedule read from a text or from an expression, or built from an interval? An interval
that is taken as a schedule as it stands was not checked. -/
def Checked (s : Schedule) : Prop :=
  (∃ text, parse text = .ok s) ∨ (∃ expression, ofCron expression = .ok s) ∨
    ∃ interval, ofInterval interval = .ok s

theorem Checked.sound (h : s.Checked) : s.Sound := by
  rcases h with ⟨text, hRead⟩ | ⟨expression, hRead⟩ | ⟨interval, hBuilt⟩
  · exact sound_of_parse hRead
  · exact sound_of_ofCron hRead
  · exact sound_of_ofInterval hBuilt

end BackgroundJobs.Schedule
