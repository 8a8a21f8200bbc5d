import Mathlib.Algebra.GroupWithZero.Nat
import BackgroundJobs.Uuid

/-!
# Proofs — the text of identifiers

The text of an identifier is read back. It is 32 hexadecimal digits, which stand
for its number, in groups that the reader joins again.

Main results:

* `mapM_hexDigits`            — the value of each digit is read.
* `ungroup?_group`            — groups are joined again.
* `hexValue?_of_mem_toChars`  — what the text of an identifier is made of.
* `parse?_text`               — the text of an identifier is read back.
-/

namespace BackgroundJobs.Uuid

variable {n width : Nat} {s : List Char}

-- ---------------------------------------------------------------------------
-- Digits
-- ---------------------------------------------------------------------------

theorem hexValue?_digitChar : ∀ d < 16, hexValue? (Nat.digitChar d) = some d := by
  decide

/-- The values of the low hexadecimal digits of a number, most significant first. -/
def hexValues : Nat → Nat → List Nat
  | 0, _ => []
  | width + 1, n => hexValues width (n / 16) ++ [n % 16]

theorem length_hexValues (width n : Nat) : (hexValues width n).length = width := by
  induction width generalizing n with
  | zero => rfl
  | succ width ih => simp [hexValues, ih]

theorem length_hexDigits (width n : Nat) : (hexDigits width n).length = width := by
  induction width generalizing n with
  | zero => rfl
  | succ width ih => simp [hexDigits, ih]

theorem mapM_hexDigits (width n : Nat) :
    (hexDigits width n).mapM hexValue? = some (hexValues width n) := by
  induction width generalizing n with
  | zero => rfl
  | succ width ih =>
    have hLast : [Nat.digitChar (n % 16)].mapM hexValue? = some [n % 16] := by
      simp [hexValue?_digitChar (n % 16) (Nat.mod_lt n (by decide))]
    rw [hexDigits, List.mapM_append, ih, hLast]
    rfl

theorem hexValue?_of_mem_hexDigits {c : Char} (h : c ∈ hexDigits width n) :
    (hexValue? c).isSome = true := by
  induction width generalizing n with
  | zero => cases h
  | succ width ih =>
    rcases List.mem_append.mp h with hBefore | hLast
    · exact ih hBefore
    · rw [List.mem_singleton.mp hLast, hexValue?_digitChar _ (Nat.mod_lt n (by decide))]
      rfl

/-- The digits stand for what they keep of the number. -/
theorem foldl_hexValues (width n : Nat) :
    (hexValues width n).foldl (fun n d => 16 * n + d) 0 = n % 16 ^ width := by
  induction width generalizing n with
  | zero => simp [hexValues, Nat.mod_one]
  | succ width ih =>
    rw [hexValues, List.foldl_append, ih, Nat.pow_succ', Nat.mod_mul]
    simp only [List.foldl_cons, List.foldl_nil]
    omega

theorem ofDigits?_hexDigits (u : Uuid) : ofDigits? (hexDigits 32 u.bits.toNat) = some u := by
  have hSmall : u.bits.toNat % 16 ^ 32 = u.bits.toNat := Nat.mod_eq_of_lt u.bits.isLt
  simp only [ofDigits?, mapM_hexDigits, Option.bind_eq_bind, Option.bind_some, length_hexValues,
    if_true, foldl_hexValues, hSmall, BitVec.ofNat_toNat, BitVec.setWidth_eq]

-- ---------------------------------------------------------------------------
-- Groups
-- ---------------------------------------------------------------------------

/-- Groups are joined again. -/
theorem ungroup?_group {lengths : List Nat} (hSome : lengths ≠ []) (h : s.length = lengths.sum) :
    ungroup? lengths (group lengths s) = some s := by
  induction lengths generalizing s with
  | nil => exact (hSome rfl).elim
  | cons k rest ih =>
    cases rest with
    | nil => exact if_pos (by simpa [group] using h)
    | cons m rest =>
      rw [List.sum_cons] at h
      have hFirst : (s.take k).length = k := by
        rw [List.length_take]
        omega
      have hRest : ungroup? (m :: rest) (group (m :: rest) (s.drop k)) = some (s.drop k) := by
        refine ih (List.cons_ne_nil _ _) ?_
        rw [List.length_drop]
        omega
      have hTake : (s.take k ++ '-' :: group (m :: rest) (s.drop k)).take k = s.take k :=
        List.take_left' hFirst
      have hDrop : (s.take k ++ '-' :: group (m :: rest) (s.drop k)).drop k =
          '-' :: group (m :: rest) (s.drop k) :=
        List.drop_left' hFirst
      have hLong : k ≤ (s.take k ++ '-' :: group (m :: rest) (s.drop k)).length := by
        rw [List.length_append, hFirst]
        omega
      rw [group, ungroup?, if_pos hLong, hDrop, hTake]
      simp only [hRest, Option.map_some, List.take_append_drop]
      all_goals exact List.cons_ne_nil _ _

theorem length_group {lengths : List Nat} (h : s.length = lengths.sum) :
    (group lengths s).length = s.length + (lengths.length - 1) := by
  induction lengths generalizing s with
  | nil => simp [group, List.length_eq_zero_iff.mp h]
  | cons k rest ih =>
    cases rest with
    | nil => simp [group]
    | cons m rest =>
      rw [List.sum_cons] at h
      have hRest := ih (s := s.drop k) (by rw [List.length_drop]; omega)
      rw [group, List.length_append, List.length_cons, hRest]
      · simp only [List.length_take, List.length_drop, List.length_cons]
        omega
      · exact List.cons_ne_nil _ _

theorem mem_of_mem_group {lengths : List Nat} {c : Char} (h : c ∈ group lengths s) :
    c ∈ s ∨ c = '-' := by
  induction lengths generalizing s with
  | nil => cases h
  | cons k rest ih =>
    cases rest with
    | nil => exact .inl h
    | cons m rest =>
      rcases List.mem_append.mp h with hFirst | hLater
      · exact .inl (List.mem_of_mem_take hFirst)
      · rcases List.mem_cons.mp hLater with hHyphen | hRest
        · exact .inr hHyphen
        · exact (ih hRest).imp List.mem_of_mem_drop id

-- ---------------------------------------------------------------------------
-- Texts
-- ---------------------------------------------------------------------------

theorem length_toChars (u : Uuid) : u.toChars.length = 36 := by
  have hSum : (hexDigits 32 u.bits.toNat).length = groups.sum := length_hexDigits 32 _
  rw [toChars, length_group hSum, length_hexDigits]
  rfl

/-- The text of an identifier holds hexadecimal digits and hyphens only. -/
theorem hexValue?_of_mem_toChars {u : Uuid} {c : Char} (h : c ∈ u.toChars) :
    (hexValue? c).isSome = true ∨ c = '-' :=
  (mem_of_mem_group h).imp hexValue?_of_mem_hexDigits id

/-- The text of an identifier is read back. -/
theorem parse?_text (u : Uuid) : parse? u.text = some u := by
  have hSum : (hexDigits 32 u.bits.toNat).length = groups.sum := length_hexDigits 32 _
  rw [parse?, text, String.toList_ofList, ofChars?]
  simp only [length_toChars]
  rw [ofGrouped?, toChars, ungroup?_group (by decide) hSum, Option.bind_some, ofDigits?_hexDigits]

end BackgroundJobs.Uuid
