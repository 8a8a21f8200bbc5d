import BackgroundJobs.Number.Decimal
import BackgroundJobs.Text.Blank

/-!
# Proofs — trimming

Trimming takes off blanks, and takes off all that there are at the two ends of a
text. So the trimmed text is the one part of the text that has no blank at either
end and nothing but blanks around it.

Main results:

* `bare_trim`       — what trimming leaves has no blank at either end.
* `trim_surrounded` — of a text with blanks around it, trimming leaves the text.
* `trim_trim`       — trimming again changes nothing.
-/

namespace BackgroundJobs.Text

variable {c : Char} {s t lead trail : List Char}

/-- A digit is no blank. -/
theorem isBlank_of_isDigit (h : Number.isDigit c = true) : isBlank c = false := by
  have hBounds : 48 ≤ c.toNat ∧ c.toNat ≤ 57 := by
    simpa [Number.isDigit, Char.le_def, UInt32.le_iff_toNat_le] using h
  simp only [isBlank, Bool.or_eq_false_iff, Bool.and_eq_false_iff, decide_eq_false_iff_not,
    beq_eq_false_iff_ne]
  omega

/-- Is every character of the text a blank? -/
def Blanks (s : List Char) : Prop :=
  ∀ c ∈ s, isBlank c = true

/-- Has the text no blank at either end? -/
structure Bare (s : List Char) : Prop where
  front : ∀ c ∈ s.head?, isBlank c = false
  back : ∀ c ∈ s.getLast?, isBlank c = false

-- ---------------------------------------------------------------------------
-- The two ends
-- ---------------------------------------------------------------------------

theorem trimStart_cons (h : isBlank c = false) : trimStart (c :: s) = c :: s := by
  rw [trimStart, List.dropWhile_cons_of_neg (by simp [h])]

theorem trimStart_of_front (h : ∀ c ∈ s.head?, isBlank c = false) : trimStart s = s := by
  cases s with
  | nil => rfl
  | cons c rest => exact trimStart_cons (h c rfl)

theorem trimStart_append (h : Blanks lead) (s : List Char) :
    trimStart (lead ++ s) = trimStart s :=
  List.dropWhile_append_of_pos h

theorem front_trimStart (s : List Char) : ∀ c ∈ (trimStart s).head?, isBlank c = false := by
  intro c hc
  have hNot := List.head?_dropWhile_not isBlank s
  rw [trimStart] at hc
  rw [Option.mem_def.mp hc] at hNot
  simpa using hNot

/-- Trimming the end of a text is trimming the front of what it is backwards. -/
theorem reverse_trimEnd (s : List Char) : (trimEnd s).reverse = trimStart s.reverse :=
  List.reverse_reverse _

theorem trimEnd_of_back (h : ∀ c ∈ s.getLast?, isBlank c = false) : trimEnd s = s := by
  refine List.reverse_inj.mp ?_
  rw [reverse_trimEnd, trimStart_of_front]
  rwa [List.head?_reverse]

theorem trimEnd_append (h : Blanks trail) (s : List Char) : trimEnd (s ++ trail) = trimEnd s := by
  refine List.reverse_inj.mp ?_
  rw [reverse_trimEnd, reverse_trimEnd, List.reverse_append]
  exact trimStart_append (fun c hc => h c (List.mem_reverse.mp hc)) _

theorem back_trimEnd (s : List Char) : ∀ c ∈ (trimEnd s).getLast?, isBlank c = false := by
  intro c hc
  rw [← List.head?_reverse, reverse_trimEnd] at hc
  exact front_trimStart s.reverse c hc

theorem exists_blanks_trimStart (s : List Char) :
    ∃ lead, Blanks lead ∧ s = lead ++ trimStart s :=
  ⟨s.takeWhile isBlank, List.all_eq_true.mp List.all_takeWhile,
    List.takeWhile_append_dropWhile.symm⟩

theorem exists_blanks_trimEnd (s : List Char) :
    ∃ trail, Blanks trail ∧ s = trimEnd s ++ trail := by
  obtain ⟨lead, hLead, hReverse⟩ := exists_blanks_trimStart s.reverse
  refine ⟨lead.reverse, fun c hc => hLead c (List.mem_reverse.mp hc), ?_⟩
  refine List.reverse_inj.mp ?_
  rw [List.reverse_append, List.reverse_reverse, reverse_trimEnd]
  exact hReverse

-- ---------------------------------------------------------------------------
-- Both ends
-- ---------------------------------------------------------------------------

theorem trim_of_bare (h : Bare s) : trim s = s := by
  rw [trim, trimStart_of_front h.front, trimEnd_of_back h.back]

theorem bare_trim (s : List Char) : Bare (trim s) := by
  refine ⟨fun c hc => ?_, back_trimEnd _⟩
  -- what the end is taken off begins as before
  obtain ⟨trail, -, hWhole⟩ := exists_blanks_trimEnd (trimStart s)
  refine front_trimStart s c ?_
  rw [hWhole, List.head?_append, ← trim, Option.mem_def.mp hc]
  rfl

/-- Trimming again changes nothing. -/
theorem trim_trim (s : List Char) : trim (trim s) = trim s :=
  trim_of_bare (bare_trim s)

/-- Blanks around a text that has none at its ends are taken off. -/
theorem trim_surrounded (hLead : Blanks lead) (hTrail : Blanks trail) (hBare : Bare t) :
    trim (lead ++ t ++ trail) = t := by
  rw [trim, List.append_assoc, trimStart_append hLead]
  cases t with
  | nil =>
    have hNothing : trimStart trail = [] := by
      rw [← List.append_nil trail, trimStart_append hTrail]
      rfl
    rw [List.nil_append, hNothing]
    rfl
  | cons c rest =>
    rw [trimStart_of_front (s := c :: rest ++ trail) hBare.front, trimEnd_append hTrail,
      trimEnd_of_back hBare.back]

theorem mem_getLast?_of_suffix (h : t <:+ s) (hc : c ∈ t.getLast?) : c ∈ s.getLast? := by
  obtain ⟨front, rfl⟩ := h
  rw [List.getLast?_append, Option.mem_def.mp hc]
  rfl

/-- A text without a blank at its end loses nothing there. -/
theorem exists_blanks_of_back (h : ∀ c ∈ s.getLast?, isBlank c = false) :
    ∃ lead, Blanks lead ∧ s = lead ++ trim s := by
  have hEnd : trim s = trimStart s :=
    trimEnd_of_back fun c hc => h c (mem_getLast?_of_suffix (List.dropWhile_suffix _) hc)
  rw [hEnd]
  exact exists_blanks_trimStart s

-- ---------------------------------------------------------------------------
-- Prefixes
-- ---------------------------------------------------------------------------

theorem afterPrefix?_append (lead s : List Char) : afterPrefix? lead (lead ++ s) = some s := by
  rw [afterPrefix?, if_pos (List.isPrefixOf_iff_prefix.mpr (List.prefix_append lead s)),
    List.drop_left]

theorem afterPrefix?_eq_none (h : ¬ lead <+: s) : afterPrefix? lead s = none :=
  if_neg fun hPrefix => h (List.isPrefixOf_iff_prefix.mp hPrefix)

end BackgroundJobs.Text
