import Mathlib.Algebra.GroupWithZero.Nat
import BackgroundJobs.Json.Decode
import BackgroundJobs.Proofs.Dict

/-!
# Proofs — reading what was written

How values are read back that were written as lists, as dictionaries or as the
fields of a record: a whole is read if each of its parts is. `null` stands for
what is absent, so it is not to be written for anything else.

Main results:

* `toDictOf?_ofDict`       — a dictionary is read back.
* `toOptionOf?_ofOption`   — what may be absent is read back.
* `toRecord?_record`       — a record is read back, field by field.
-/

namespace BackgroundJobs

namespace Json

variable {α β : Type} {j : Json}

-- ---------------------------------------------------------------------------
-- Plain values
-- ---------------------------------------------------------------------------

theorem toNatBits?_int {bits n : Nat} (h : n < 2 ^ bits) :
    (Json.int n).toNatBits? bits = some n := by
  have hWithin : (0 : Int) ≤ n ∧ (n : Int) ≤ (Nat.pow 2 bits - 1 : Nat) := by
    have hPow : Nat.pow 2 bits = 2 ^ bits := rfl
    omega
  rw [toNatBits?, toIntWithin?, if_pos hWithin]
  rfl

theorem ofFloat_of_isFinite {x : Float} (h : x.isFinite = true) : ofFloat x = .float x :=
  if_pos h

/-- What may be absent is read back, unless `null` was written for it. -/
theorem toOptionOf?_ofOption {encode : α → Json} {decode : Json → Option α} {o : Option α}
    (h : ∀ a ∈ o, encode a ≠ .null ∧ decode (encode a) = some a) :
    (ofOption encode o).toOptionOf? decode = some o := by
  cases o with
  | none => rfl
  | some a =>
    obtain ⟨hSome, hRead⟩ := h a rfl
    have hPlain : (encode a).toOptionOf? decode = (decode (encode a)).map some := by
      cases hEncoded : encode a <;> first | exact (hSome hEncoded).elim | rfl
    rw [ofOption, hPlain, hRead]
    rfl

-- ---------------------------------------------------------------------------
-- Lists and dictionaries
-- ---------------------------------------------------------------------------

theorem mapM_map {f : α → β} {g : β → Option α} {l : List α} (h : ∀ a ∈ l, g (f a) = some a) :
    (l.map f).mapM g = some l := by
  induction l with
  | nil => rfl
  | cons a rest ih =>
    obtain ⟨hFirst, hRest⟩ := List.forall_mem_cons.mp h
    simp [List.mapM_cons, hFirst, ih hRest]

theorem toListOf?_ofList {encode : α → Json} {decode : Json → Option α} {l : List α}
    (h : ∀ a ∈ l, decode (encode a) = some a) : (ofList encode l).toListOf? decode = some l :=
  mapM_map h

/-- A dictionary of values that are read back is read back. -/
theorem toDictOf?_ofDict {encode : β → Json} {decode : Json → Option β} {d : Dict β}
    (h : ∀ e ∈ d.entries, decode (encode e.2) = some e.2) :
    (ofDict encode d).toDictOf? decode = some d := by
  have hEntries : (d.entries.map fun e => (e.1, encode e.2)).mapM
      (fun e => (decode e.2).map (Prod.mk e.1)) = some d.entries :=
    mapM_map fun e he => by rw [h e he]; rfl
  simp only [ofDict, toDictOf?, Dict.mapValues, hEntries]
  exact congrArg some (Dict.ofList_entries d)

-- ---------------------------------------------------------------------------
-- Records
-- ---------------------------------------------------------------------------

namespace FieldReader

variable {fields : List (String × Json)} {name : String} {decode : Json → Option α} {a : α} {b : β}

/-- Does the reader find the value among the named fields? -/
def Reads (reader : FieldReader α) (fields : List (String × Json)) (a : α) : Prop :=
  reader (.named fields) = some (a, .named fields)

theorem Reads.pure (fields : List (String × Json)) (a : α) :
    (Pure.pure a : FieldReader α).Reads fields a :=
  rfl

theorem Reads.bind {reader : FieldReader α} {next : α → FieldReader β}
    (h : reader.Reads fields a) (hNext : (next a).Reads fields b) :
    (reader >>= next).Reads fields b := by
  show (reader (.named fields)).bind _ = _
  rw [h]
  exact hNext

theorem reads_required (hField : fields.lookup name = some j) (h : decode j = some a) :
    (required name decode).Reads fields a := by
  refine Reads.bind (a := some j) ?_ ?_
  · rw [Reads, next?, hField]
  · show (liftM (decode j) : FieldReader α) (.named fields) = _
    rw [h]
    rfl

theorem reads_optional {o : Option α} (hField : fields.lookup name = some j)
    (h : j.toOptionOf? decode = some o) : (optional name decode).Reads fields o := by
  rw [Reads, optional, hField]
  simp only [h, Option.map_some]

end FieldReader

/-- A record is read back if its reader finds the value among its fields. -/
theorem toRecord?_record {reader : FieldReader α} {fields : List (String × Json)} {a : α}
    (h : reader.Reads fields a) : (record fields).toRecord? reader = some a := by
  rw [toRecord?, record, Dialect.record?, h]
  rfl

end Json

end BackgroundJobs
