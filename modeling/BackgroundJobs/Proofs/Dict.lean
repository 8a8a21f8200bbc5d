import BackgroundJobs.Dict

/-!
# Proofs — dictionaries

A dictionary has one form only: it is made again of its entries, and what it
binds decides what it is.

Main results:

* `ofList_entries`   — a dictionary is made again of its entries.
* `mem_entries_iff`  — the entries are the bindings.
* `eq_of_get?_eq`    — dictionaries with the same bindings are equal.
-/

namespace BackgroundJobs

/-- In a list that has each key once, a look-up finds whatever is listed. -/
theorem lookup_eq_some_iff_mem {β : Type} {l : List (String × β)} {key : String} {value : β}
    (h : (l.map (·.1)).Nodup) : l.lookup key = some value ↔ (key, value) ∈ l := by
  induction l with
  | nil => simp
  | cons x rest ih =>
    obtain ⟨k, v⟩ := x
    rw [List.map_cons, List.nodup_cons] at h
    obtain ⟨hNew, hRest⟩ := h
    by_cases hKey : key = k
    · subst hKey
      rw [List.lookup_cons_self, List.mem_cons]
      constructor
      · intro hSame
        exact .inl (congrArg (Prod.mk key) (Option.some.inj hSame).symm)
      · rintro (hSame | hIn)
        · exact congrArg some (congrArg Prod.snd hSame).symm
        · exact (hNew (List.mem_map.mpr ⟨_, hIn, rfl⟩)).elim
    · have hOther : (key, value) ≠ (k, v) := fun hSame => hKey (congrArg Prod.fst hSame)
      rw [List.lookup_cons, beq_false_of_ne hKey, ih hRest, List.mem_cons]
      exact ⟨.inr, fun hIn => hIn.resolve_left hOther⟩

namespace Dict

variable {β : Type} {a b d : Dict β} {key : String} {value : β}

theorem eq_of_entries_eq (h : a.entries = b.entries) : a = b := by
  cases a
  cases b
  cases h
  rfl

theorem insertEntry_last {l : List (String × β)} (h : ∀ e ∈ l, e.1 < key) :
    insertEntry key value l = l ++ [(key, value)] := by
  induction l with
  | nil => rfl
  | cons x rest ih =>
    have hLt : x.1 < key := h x List.mem_cons_self
    rw [insertEntry, if_neg (String.lt_asymm hLt), if_neg (Ne.symm (String.ne_of_lt hLt)),
      ih fun e he => h e (List.mem_cons_of_mem x he)]
    rfl

/-- A dictionary is made again of its entries. -/
theorem ofList_entries (d : Dict β) : ofList d.entries = d := by
  have hAll : ∀ (l : List (String × β)) (e : Dict β),
      (e.entries ++ l).Pairwise (fun a b => a.1 < b.1) →
        (l.foldl (fun d x => d.insert x.1 x.2) e).entries = e.entries ++ l := by
    intro l
    induction l with
    | nil => exact fun e _ => (List.append_nil _).symm
    | cons x rest ih =>
      intro e hSorted
      have hLast : (e.insert x.1 x.2).entries = e.entries ++ [x] :=
        insertEntry_last fun y hy => (List.pairwise_append.mp hSorted).2.2 y hy x List.mem_cons_self
      rw [List.foldl_cons, ih, hLast, List.append_assoc]
      · rfl
      · rw [hLast, List.append_assoc]
        exact hSorted
  exact eq_of_entries_eq (hAll d.entries empty d.sorted)

theorem nodup_keys (d : Dict β) : (d.entries.map (·.1)).Nodup :=
  List.pairwise_map.mpr (d.sorted.imp String.ne_of_lt)

theorem mem_entries_iff : (key, value) ∈ d.entries ↔ d.get? key = some value :=
  (lookup_eq_some_iff_mem d.nodup_keys).symm

/-- Dictionaries with the same bindings are equal, for keys stand in one order only. -/
theorem eq_of_get?_eq (h : ∀ key, a.get? key = b.get? key) : a = b := by
  have hNodup : ∀ d : Dict β, d.entries.Nodup := fun d =>
    List.Pairwise.of_map (·.1) (fun _ _ hKeys hSame => hKeys (congrArg Prod.fst hSame)) d.nodup_keys
  have hPerm : a.entries.Perm b.entries := by
    refine (List.perm_ext_iff_of_nodup (hNodup a) (hNodup b)).mpr fun e => ?_
    rw [mem_entries_iff, mem_entries_iff, h]
  exact eq_of_entries_eq (hPerm.eq_of_pairwise
    (fun _ _ _ _ hLt hGt => (String.lt_asymm hLt hGt).elim) a.sorted b.sorted)

end Dict

end BackgroundJobs
