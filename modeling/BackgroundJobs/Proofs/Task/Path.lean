import BackgroundJobs.Task.Export

/-!
# Proofs — where a path leads

A path is walked name by name: an empty name and a dot stay where one is, two
dots go up, every other name enters an entry of the directory, and a separator
in front goes to the top of the file tree first. Joining two paths walks on from
where the first one leads, so that joining a plain name comes to an entry of
that directory, whatever the path of the directory looks like.

Main results:

* `steps_joinPath`  — the walk along a joined path.
* `place_joinPath`  — where a path leads that a plain name was joined to.
-/

namespace BackgroundJobs

/-- A step of the walk along a path. -/
inductive PathStep where
  /-- To the top of the file tree. -/
  | top
  /-- To the directory above. -/
  | up
  /-- To an entry of the directory. -/
  | enter (name : String)
  deriving DecidableEq

/-- A place in the file tree: the names of the entries on the way to it from the top. -/
abbrev Place := List String

/-- Where a step leads. There is nothing above the top. -/
def PathStep.walk (place : Place) : PathStep → Place
  | top => []
  | up => place.dropLast
  | enter name => place ++ [name]

namespace Path

/-- The step for a name in a path, unless it stays. -/
def stepOf? : List Char → Option PathStep
  | [] => none
  | ['.'] => none
  | ['.', '.'] => some .up
  | name => some (.enter (String.ofList name))

def steps (path : String) : List PathStep :=
  (if path.toList.head? = some '/' then [.top] else []) ++
    (path.toList.splitOn '/').filterMap stepOf?

/-- Where a path leads that is walked from a given place on. -/
def place (start : Place) (path : String) : Place :=
  (steps path).foldl PathStep.walk start

example : place ["home"] "../srv//exports/./c-1" = ["srv", "exports", "c-1"] := by
  decide +kernel

/-- Joining a path that does not begin at the top walks on from where the directory leads. -/
theorem steps_joinPath {directory entry : String} (h : entry.toList.head? ≠ some '/') :
    steps (joinPath directory entry) = steps directory ++ steps entry := by
  have hEntry : steps entry = (entry.toList.splitOn '/').filterMap stepOf? := by
    rw [steps, if_neg h, List.nil_append]
  have hSplit : ∀ s : List Char, ((s ++ '/' :: entry.toList).splitOn '/').filterMap stepOf? =
      (s.splitOn '/').filterMap stepOf? ++ steps entry := by
    intro s
    rw [List.splitOn_append_cons_self, List.filterMap_append, hEntry]
  unfold joinPath
  split
  · next hPlain =>
    rcases Bool.or_eq_true_iff.mp hPlain with hEmpty | hLast
    · have hNothing : directory.toList = [] := List.isEmpty_iff.mp hEmpty
      have hSteps : steps directory = [] := by
        rw [steps, hNothing]
        rfl
      have hJoined : directory ++ entry = entry := by
        rw [String.toList_eq_nil_iff.mp hNothing, String.empty_append]
      rw [hSteps, hJoined, List.nil_append]
    · -- the separator is there already, and what is behind it is empty
      obtain ⟨s, hs⟩ := List.getLast?_eq_some_iff.mp (of_decide_eq_true hLast)
      have hJoined : (directory ++ entry).toList = s ++ '/' :: entry.toList := by
        rw [String.toList_append, hs, List.append_assoc]
        rfl
      have hDirectory : (directory.toList.splitOn '/').filterMap stepOf? =
          (s.splitOn '/').filterMap stepOf? := by
        rw [hs, List.splitOn_append_cons_self, List.filterMap_append]
        exact List.append_nil _
      have hHead : (s ++ '/' :: entry.toList).head? = directory.toList.head? := by
        rw [hs]
        cases s <;> rfl
      rw [steps, steps, hJoined, hHead, hSplit, hDirectory, List.append_assoc]
  · next hPlain =>
    have hSome : directory.toList ≠ [] := by
      intro hNothing
      simp [hNothing] at hPlain
    have hJoined : (directory ++ "/" ++ entry).toList = directory.toList ++ '/' :: entry.toList := by
      rw [String.toList_append, String.toList_append, List.append_assoc]
      rfl
    have hHead : (directory.toList ++ '/' :: entry.toList).head? = directory.toList.head? := by
      obtain ⟨c, rest, hs⟩ := List.exists_cons_of_ne_nil hSome
      rw [hs]
      rfl
    rw [steps, steps, hJoined, hHead, hSplit, List.append_assoc]

end Path

/-- Is this the name of a single entry of a directory, which is not hidden and holds no separator of
any system? -/
structure PlainName (name : String) : Prop where
  nonempty : name.toList ≠ []
  noSeparator : ∀ c ∈ name.toList, c ≠ '/' ∧ c ≠ '\\'
  shown : name.toList.head? ≠ some '.'

namespace Path

variable {directory entry : String}

theorem steps_of_plain (h : PlainName entry) : steps entry = [.enter entry] := by
  have hAlone : entry.toList.splitOn '/' = [entry.toList] :=
    List.splitOn_eq_singleton fun hIn => (h.noSeparator _ hIn).1 rfl
  have hStep : stepOf? entry.toList = some (.enter entry) := by
    unfold stepOf?
    split
    · next hNothing => exact (h.nonempty hNothing).elim
    · next hDot => exact (h.shown (by rw [hDot]; rfl)).elim
    · next hDots => exact (h.shown (by rw [hDots]; rfl)).elim
    · rw [String.ofList_toList]
  have hFront : entry.toList.head? ≠ some '/' := fun hHead =>
    (h.noSeparator _ (List.mem_of_mem_head? hHead)).1 rfl
  rw [steps, if_neg hFront, hAlone, List.filterMap_cons_some hStep]
  rfl

theorem steps_joinPath_of_plain (h : PlainName entry) :
    steps (joinPath directory entry) = steps directory ++ [.enter entry] := by
  rw [steps_joinPath fun hHead => (h.noSeparator _ (List.mem_of_mem_head? hHead)).1 rfl,
    steps_of_plain h]

/-- A plain name that is joined to a path leads to an entry of the directory there. -/
theorem place_joinPath (start : Place) (h : PlainName entry) :
    place start (joinPath directory entry) = place start directory ++ [entry] := by
  rw [place, steps_joinPath_of_plain h, List.foldl_append]
  rfl

end Path

end BackgroundJobs
