import BackgroundJobs.Argument

/-!
# Proofs — equality of arguments as data

Equality as data is not reflexive, since a number that is none differs from
itself. It is symmetric, so that it does not matter which of two runs came
first when their arguments are compared.

Main results:

* `Json.same_comm`, `Argument.same_comm`.
-/

namespace BackgroundJobs

-- ---------------------------------------------------------------------------
-- Binary fractions
-- ---------------------------------------------------------------------------

/-- Of two unpacked binary fractions one compares as equal to the other exactly if the other does
to it. -/
theorem unpacked_compare_eq_comm (a b : Float.Model.UnpackedFloat) :
    a.compare b = some .eq ↔ b.compare a = some .eq := by
  have hFinite : ∀ (e₁ e₂ : Int) (m₁ m₂ : Nat),
      (compare e₁ e₂).then (compare m₁ m₂) = .eq ↔ (compare e₂ e₁).then (compare m₂ m₁) = .eq := by
    intro e₁ e₂ m₁ m₂
    simp only [Ordering.then_eq_eq, Std.LawfulEqCmp.compare_eq_iff_eq]
    exact ⟨fun h => ⟨h.1.symm, h.2.symm⟩, fun h => ⟨h.1.symm, h.2.symm⟩⟩
  have hSwapped : ∀ {o o' : Ordering}, (o = .eq ↔ o' = .eq) →
      (some o.swap = some .eq ↔ some o'.swap = some .eq) := by
    intro o o' h
    rw [Option.some.injEq, Option.some.injEq, Ordering.swap_eq_eq, Ordering.swap_eq_eq, h]
  cases a with
  | notANumber => cases b with
    | infinity s | zero s | finite s => cases s <;> exact iff_of_false nofun nofun
    | notANumber => exact Iff.rfl
  | infinity s =>
    cases b with
    | infinity s' => cases s <;> cases s' <;> first | exact Iff.rfl | exact iff_of_false nofun nofun
    | zero s' | finite s' => cases s <;> cases s' <;> exact iff_of_false nofun nofun
    | notANumber => cases s <;> exact iff_of_false nofun nofun
  | zero s =>
    cases b with
    | infinity s' | finite s' => cases s <;> cases s' <;> exact iff_of_false nofun nofun
    | zero s' => exact Iff.rfl
    | notANumber => exact iff_of_false nofun nofun
  | finite s m e =>
    cases b with
    | infinity s' | zero s' => cases s <;> cases s' <;> exact iff_of_false nofun nofun
    | notANumber => cases s <;> exact iff_of_false nofun nofun
    | finite s' m' e' =>
      cases s with
      | negative => cases s' with
        | negative => exact hSwapped (hFinite e e' m m')
        | positive => exact iff_of_false nofun nofun
      | positive => cases s' with
        | negative => exact iff_of_false nofun nofun
        | positive =>
          show some _ = some _ ↔ some _ = some _
          rw [Option.some.injEq, Option.some.injEq, hFinite]

theorem float_beq_comm (a b : Float) : (a == b) = (b == a) := by
  rw [Bool.eq_iff_iff]
  show (a.toModel.unpack.compare b.toModel.unpack == some .eq) = true ↔
    (b.toModel.unpack.compare a.toModel.unpack == some .eq) = true
  rw [beq_iff_eq, beq_iff_eq]
  exact unpacked_compare_eq_comm _ _

-- ---------------------------------------------------------------------------
-- Structured values
-- ---------------------------------------------------------------------------

namespace Json

mutual

theorem same_comm (a b : Json) : a.same b = b.same a := by
  cases a with
  | arr items =>
    cases b with
    | arr items' =>
      simp only [same]
      exact sameItems_comm items items'
    | _ => rfl
  | obj fields =>
    cases b with
    | obj fields' =>
      simp only [same]
      exact sameFields_comm fields fields'
    | _ => rfl
  | float x =>
    cases b with
    | float y => exact float_beq_comm x y
    | _ => rfl
  | bool _ | int _ | str _ => cases b <;> first | rfl | exact BEq.comm
  | null => cases b <;> rfl

theorem sameItems_comm (as bs : List Json) : sameItems as bs = sameItems bs as := by
  cases as with
  | nil => cases bs <;> rfl
  | cons a as =>
    cases bs with
    | nil => rfl
    | cons b bs => simp only [sameItems, same_comm a b, sameItems_comm as bs]

theorem sameFields_comm (as bs : List (String × Json)) : sameFields as bs = sameFields bs as := by
  cases as with
  | nil => cases bs <;> rfl
  | cons a as =>
    cases bs with
    | nil => rfl
    | cons b bs =>
      obtain ⟨k, a⟩ := a
      obtain ⟨l, b⟩ := b
      have hKeys : (k == l) = (l == k) := BEq.comm
      simp only [sameFields, hKeys, same_comm a b, sameFields_comm as bs]

end

end Json

theorem Argument.same_comm (a b : Argument) : a.same b = b.same a := by
  cases a with
  | float x =>
    cases b with
    | float y => exact float_beq_comm x y
    | _ => rfl
  | json x =>
    cases b with
    | json y => exact Json.same_comm x y
    | _ => rfl
  | bool _ | int _ | str _ => cases b <;> first | rfl | exact BEq.comm
  | null => cases b <;> rfl

end BackgroundJobs
