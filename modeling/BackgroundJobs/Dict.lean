/-!
# Dict — maps from text to values, in key order

A `Dict` lists each key once, in increasing order of its characters, so two
dictionaries with the same bindings are equal.

Main statement: `get?_insert` — an insertion binds its own key and no other.
-/

namespace BackgroundJobs

/-- A finite map from strings, kept as its entries in strictly increasing key order. -/
structure Dict (β : Type) where
  entries : List (String × β)
  sorted : entries.Pairwise (fun a b => a.1 < b.1)
  deriving DecidableEq

namespace Dict

variable {β : Type}

def empty : Dict β := ⟨[], .nil⟩

instance : EmptyCollection (Dict β) := ⟨empty⟩

instance : Inhabited (Dict β) := ⟨empty⟩

/-- Puts a binding in its place, in front of the first larger key; an equal key is rebound. -/
def insertEntry (key : String) (value : β) : List (String × β) → List (String × β)
  | [] => [(key, value)]
  | (k, v) :: rest =>
    if key < k then (key, value) :: (k, v) :: rest
    else if key = k then (key, value) :: rest
    else (k, v) :: insertEntry key value rest

theorem key_of_mem_insertEntry {key : String} {value : β} {l : List (String × β)}
    {e : String × β} (h : e ∈ insertEntry key value l) : e.1 = key ∨ e ∈ l := by
  induction l with
  | nil => simp [insertEntry] at h; exact .inl (by rw [h])
  | cons x rest ih =>
    simp only [insertEntry] at h
    split at h
    · rcases List.mem_cons.mp h with h | h
      · exact .inl (by rw [h])
      · exact .inr h
    · split at h
      · rcases List.mem_cons.mp h with h | h
        · exact .inl (by rw [h])
        · exact .inr (List.mem_cons_of_mem _ h)
      · rcases List.mem_cons.mp h with h | h
        · exact .inr (by rw [h]; exact List.mem_cons_self)
        · exact (ih h).imp id (List.mem_cons_of_mem _)

theorem sorted_insertEntry {key : String} {value : β} {l : List (String × β)}
    (h : l.Pairwise (fun a b => a.1 < b.1)) :
    (insertEntry key value l).Pairwise (fun a b => a.1 < b.1) := by
  induction l with
  | nil => simp [insertEntry]
  | cons x rest ih =>
    obtain ⟨hx, hrest⟩ := List.pairwise_cons.mp h
    simp only [insertEntry]
    split
    · next hlt =>
      refine List.pairwise_cons.mpr ⟨fun e he => ?_, h⟩
      rcases List.mem_cons.mp he with rfl | he
      · exact hlt
      · exact String.lt_trans hlt (hx e he)
    · split
      · next heq =>
        exact List.pairwise_cons.mpr ⟨fun e he => by simpa [heq] using hx e he, hrest⟩
      · next hge hne =>
        refine List.pairwise_cons.mpr ⟨fun e he => ?_, ih hrest⟩
        rcases key_of_mem_insertEntry he with he | he
        · rw [he]
          rcases Std.lt_trichotomy key x.1 with h' | h' | h'
          · exact absurd h' hge
          · exact absurd h' hne
          · exact h'
        · exact hx e he

/-- Binds `key` to `value`, whatever it was bound to before. -/
def insert (d : Dict β) (key : String) (value : β) : Dict β :=
  ⟨insertEntry key value d.entries, sorted_insertEntry d.sorted⟩

/-- The dictionary of a list of bindings; of two for one key the later one counts. -/
def ofList (l : List (String × β)) : Dict β :=
  l.foldl (fun d e => d.insert e.1 e.2) empty

/-- The value bound to `key`. -/
def get? (d : Dict β) (key : String) : Option β :=
  d.entries.lookup key

/-- Is `key` bound? -/
def contains (d : Dict β) (key : String) : Bool :=
  (d.get? key).isSome

def size (d : Dict β) : Nat :=
  d.entries.length

/-- The keys, in order. -/
def keys (d : Dict β) : List String :=
  d.entries.map (·.1)

/-- The same keys with their values passed through `f`. -/
def mapValues {γ : Type} (f : β → γ) (d : Dict β) : Dict γ :=
  ⟨d.entries.map (fun e => (e.1, f e.2)), by
    have := d.sorted
    rw [List.pairwise_map]
    exact this⟩

/-- Do two dictionaries have the same keys, with values that `eq` holds of? -/
def sameBy (eq : β → β → Bool) (a b : Dict β) : Bool :=
  a.size == b.size &&
    (a.entries.zip b.entries).all fun (x, y) => x.1 == y.1 && eq x.2 y.2

theorem lookup_insertEntry (key : String) (value : β) (l : List (String × β)) (k : String) :
    (insertEntry key value l).lookup k = if k = key then some value else l.lookup k := by
  induction l with
  | nil =>
    by_cases h : k = key
    · simp [insertEntry, h]
    · have : (k == key) = false := by simpa using h
      simp [insertEntry, List.lookup_cons, this, h]
  | cons x rest ih =>
    obtain ⟨xk, xv⟩ := x
    simp only [insertEntry]
    by_cases hk : k = key
    · subst hk
      split
      · simp
      · split
        · simp
        · next hne =>
          have : (k == xk) = false := by simpa using hne
          simp [List.lookup_cons, this, ih]
    · have hk' : (k == key) = false := by simpa using hk
      split
      · simp [List.lookup_cons, hk']
      · split
        · next heq =>
          subst heq
          simp [List.lookup_cons, hk']
        · by_cases hx : k = xk
          · subst hx; simp
          · have hx' : (k == xk) = false := by simpa using hx
            simp [List.lookup_cons, hx', ih, hk]

/-- An insertion binds its own key and leaves every other key as it was. -/
theorem get?_insert (d : Dict β) (key : String) (value : β) (k : String) :
    (d.insert key value).get? k = if k = key then some value else d.get? k :=
  lookup_insertEntry key value d.entries k

@[simp] theorem get?_empty (k : String) : (empty : Dict β).get? k = none := rfl

end Dict

end BackgroundJobs
