import BackgroundJobs.Proofs.Task.Export.Request
import BackgroundJobs.Proofs.Task.Path
import BackgroundJobs.Proofs.Uuid

/-!
# Proofs — where an export writes

The folder of a consumer is named by the consumer's text without the blanks
around it, if that is a plain name, and there is none for any other text. So
whatever an export makes or writes is the folder, which is an entry of the root,
or the manifest, which is an entry of the folder.

* `FileTree` — what stands at each place of the file tree, and what an action
  changes there.

Main results:

* `folderName?_eq_some_iff` — which consumers have a folder.
* `folder_eq_iff`           — which consumers have one folder.
* `attempts_of_generate`    — an export attempts no other actions.
* `stays_inside`            — what an export makes of the file tree, and how it
  fails for a consumer without a folder.
-/

namespace BackgroundJobs

-- ---------------------------------------------------------------------------
-- The file tree
-- ---------------------------------------------------------------------------

/-- What stands at a place of the file tree. -/
inductive FileNode where
  | directory
  | file (text : String)

/-- What stands at each place, if anything does. -/
abbrev FileTree := Place → Option FileNode

namespace FileTree

variable {start base p : Place} {tree : FileTree} {a : FileAction} {actions : List FileAction}

/-- The file tree after an action, the paths of which are walked from a given place on. A directory
is made together with those on the way to it that are missing. -/
def perform (start : Place) (tree : FileTree) : FileAction → FileTree
  | .makeDirectory path => fun p =>
    if p.isPrefixOf (Path.place start path) then (tree p).or (some .directory) else tree p
  | .write path text => fun p =>
    if p = Path.place start path then some (.file text) else tree p

def performAll (start : Place) (tree : FileTree) (actions : List FileAction) : FileTree :=
  actions.foldl (perform start) tree

/-- Does something stand at each place on the way to this one, and at this one? -/
def Reaches (tree : FileTree) (base : Place) : Prop :=
  ∀ p, p <+: base → (tree p).isSome = true

/-- No action removes anything. -/
theorem Reaches.perform (h : tree.Reaches base) (start : Place) (a : FileAction) :
    (tree.perform start a).Reaches base := by
  intro p hp
  have hThere := h p hp
  cases a <;> simp only [FileTree.perform] <;> split <;> simp [hThere]

theorem perform_makeDirectory (h : tree.Reaches (Path.place start directory))
    {entry : String} (hEntry : PlainName entry)
    (hp : p ≠ Path.place start directory ++ [entry]) :
    tree.perform start (.makeDirectory (joinPath directory entry)) p = tree p := by
  simp only [perform, Path.place_joinPath start hEntry]
  split
  · next hPrefix =>
    -- all that is on the way but the new entry is there
    rcases List.prefix_concat_iff.mp (List.isPrefixOf_iff_prefix.mp hPrefix) with hNew | hOld
    · exact (hp hNew).elim
    · exact Option.or_of_isSome (h p hOld)
  · rfl

theorem perform_write {path text : String} (hp : p ≠ Path.place start path) :
    tree.perform start (.write path text) p = tree p :=
  if_neg hp

/-- What no action of a list changes is as before after all of them. -/
theorem performAll_eq (h : tree.Reaches base)
    (hActions : ∀ a ∈ actions, ∀ tree : FileTree, tree.Reaches base →
      tree.perform start a p = tree p) :
    tree.performAll start actions p = tree p := by
  induction actions generalizing tree with
  | nil => rfl
  | cons a rest ih =>
    obtain ⟨hFirst, hRest⟩ := List.forall_mem_cons.mp hActions
    exact (ih (h.perform start a) hRest).trans (hFirst tree h)

end FileTree

-- ---------------------------------------------------------------------------
-- Names
-- ---------------------------------------------------------------------------

/-- The name of a manifest is plain. -/
theorem plainName_manifest (fresh : Uuid) : PlainName (fresh.text ++ ".json") := by
  have hText : (fresh.text ++ ".json").toList = fresh.toChars ++ ".json".toList := by
    rw [String.toList_append, Uuid.text, String.toList_ofList]
  have hOf : ∀ {c : Char}, c ∈ fresh.toChars → c ≠ '/' ∧ c ≠ '\\' ∧ c ≠ '.' := by
    intro c hc
    rcases Uuid.hexValue?_of_mem_toChars hc with hHex | rfl
    · refine ⟨?_, ?_, ?_⟩ <;> rintro rfl <;> exact absurd hHex (by decide)
    · decide
  have hEnding : ∀ c ∈ ".json".toList, c ≠ '/' ∧ c ≠ '\\' := by simp
  have hSome : fresh.toChars ≠ [] := by
    intro hNothing
    have hLength := fresh.length_toChars
    rw [hNothing] at hLength
    cases hLength
  refine ⟨?_, fun c hc => ?_, fun hHead => ?_⟩
  · rw [hText]
    exact List.append_ne_nil_of_left_ne_nil hSome _
  · rw [hText] at hc
    rcases List.mem_append.mp hc with hFresh | hEnd
    · exact ⟨(hOf hFresh).1, (hOf hFresh).2.1⟩
    · exact hEnding c hEnd
  · rw [hText, List.head?_append_of_ne_nil _ hSome] at hHead
    exact (hOf (List.mem_of_mem_head? hHead)).2.2 rfl

theorem joinPath_inj {directory a b : String} (h : joinPath directory a = joinPath directory b) :
    a = b := by
  unfold joinPath at h
  split at h
  · exact (String.append_right_inj directory).mp h
  · exact (String.append_right_inj _).mp h

namespace Manifest

variable {root : String} {rootExists : Bool} {now now' : Instant} {fresh fresh' : Uuid}
  {request request' : ExportRequest} {m m' : Manifest} {consumer name : String}

/-- The consumers with a folder are those that are plain names but for the blanks around them. -/
theorem folderName?_eq_some_iff :
    folderName? consumer = some name ↔ name = Text.trimmed consumer ∧ PlainName name := by
  have hTrimmed : (Text.trimmed consumer).toList = Text.trim consumer.toList :=
    String.toList_ofList
  unfold folderName?
  dsimp only
  split
  · next hUnfit =>
    refine iff_of_false nofun ?_
    rintro ⟨rfl, hPlain⟩
    obtain ⟨hSome, hNone, hShown⟩ := hPlain
    rw [hTrimmed] at hSome hNone hShown
    simp only [Bool.or_eq_true, List.isEmpty_iff, List.any_eq_true, decide_eq_true_eq] at hUnfit
    rcases hUnfit with (hEmpty | ⟨c, hc, hSeparator⟩) | hHidden
    · exact hSome hEmpty
    · exact hSeparator.elim (hNone c hc).1 (hNone c hc).2
    · exact hShown hHidden
  · next hFit =>
    simp only [Bool.or_eq_true, List.isEmpty_iff, List.any_eq_true, decide_eq_true_eq,
      not_or, not_exists, not_and] at hFit
    rw [Option.some.injEq]
    constructor
    · rintro rfl
      refine ⟨rfl, ?_, ?_, ?_⟩ <;> rw [String.toList_ofList]
      · exact hFit.1.1
      · exact hFit.1.2
      · exact hFit.2
    · rintro ⟨rfl, -⟩
      rfl

theorem make_of_not_plain (h : ¬ PlainName (Text.trimmed request.consumer)) :
    make root rootExists now fresh request = .error (.consumerNotFound request.consumer) := by
  have hNone : folderName? request.consumer = none :=
    Option.eq_none_iff_forall_ne_some.mpr fun name hName =>
      h ((folderName?_eq_some_iff.mp hName).1 ▸ (folderName?_eq_some_iff.mp hName).2)
  rw [make, hNone]

/-- What is true of a manifest that was made. -/
structure Made (root : String) (fresh : Uuid) (request : ExportRequest) (m : Manifest) : Prop where
  plain : PlainName (Text.trimmed request.consumer)
  folder : m.folder = joinPath root (Text.trimmed request.consumer)
  path : m.path = joinPath m.folder (fresh.text ++ ".json")

/-- The manifest of a consumer with a folder is made if the root is there. -/
theorem make_of_plain (h : PlainName (Text.trimmed request.consumer)) :
    (rootExists = true ∧ ∃ m, make root rootExists now fresh request = .ok m ∧
        Made root fresh request m) ∨
      (rootExists = false ∧ make root rootExists now fresh request =
        .error (.unavailable (root ++ " is not a directory"))) := by
  have hSome : folderName? request.consumer = some (Text.trimmed request.consumer) :=
    folderName?_eq_some_iff.mpr ⟨rfl, h⟩
  simp only [make, hSome]
  cases rootExists with
  | true => exact .inl ⟨rfl, _, rfl, h, rfl, rfl⟩
  | false => exact .inr ⟨rfl, rfl⟩

theorem made_of_make (h : make root rootExists now fresh request = .ok m) :
    rootExists = true ∧ Made root fresh request m := by
  by_cases hPlain : PlainName (Text.trimmed request.consumer)
  · rcases make_of_plain hPlain with ⟨hExists, m', hMake, hMade⟩ | ⟨-, hMissing⟩
    · rw [hMake] at h
      cases h
      exact ⟨hExists, hMade⟩
    · rw [hMissing] at h
      cases h
  · rw [make_of_not_plain hPlain] at h
    cases h

/-- Two manifests go to one folder if their consumers differ by blanks around them only. -/
theorem folder_eq_iff (h : make root rootExists now fresh request = .ok m)
    (h' : make root rootExists now' fresh' request' = .ok m') :
    m.folder = m'.folder ↔ Text.trimmed request.consumer = Text.trimmed request'.consumer := by
  rw [(made_of_make h).2.folder, (made_of_make h').2.folder]
  exact ⟨joinPath_inj, fun hSame => by rw [hSame]⟩

end Manifest

-- ---------------------------------------------------------------------------
-- Actions
-- ---------------------------------------------------------------------------

section Perform

variable {refusal refusal' : FileAction → Option String} {actions : List FileAction}

theorem prefix_performAll (refusal : FileAction → Option String) (actions : List FileAction) :
    (performAll refusal actions).1 <+: actions := by
  induction actions with
  | nil => exact List.prefix_rfl
  | cons a rest ih =>
    rw [performAll]
    cases refusal a with
    | some text => exact List.nil_prefix
    | none => exact List.cons_prefix_cons.mpr ⟨rfl, ih⟩

/-- The system is asked about the given actions only. -/
theorem performAll_congr (h : ∀ a ∈ actions, refusal a = refusal' a) :
    performAll refusal actions = performAll refusal' actions := by
  induction actions with
  | nil => rfl
  | cons a rest ih =>
    obtain ⟨hFirst, hRest⟩ := List.forall_mem_cons.mp h
    simp only [performAll, hFirst, ih hRest]

theorem performAll_of_none (h : ∀ a ∈ actions, refusal a = none) :
    performAll refusal actions = (actions, none) := by
  induction actions with
  | nil => rfl
  | cons a rest ih =>
    obtain ⟨hFirst, hRest⟩ := List.forall_mem_cons.mp h
    simp only [performAll, hFirst, ih hRest]

end Perform

namespace ExportRequest

variable {root : String} {rootExists : Bool} {refusal refusal' : FileAction → Option String}
  {now : Instant} {fresh : Uuid} {request : ExportRequest} {m : Manifest} {e : ExportError}
  {a : FileAction}

theorem generate_of_error (h : Manifest.make root rootExists now fresh request = .error e) :
    request.generate root rootExists refusal now fresh = ⟨[], none, .error e⟩ := by
  rw [generate, h]

theorem generate_of_ok (h : Manifest.make root rootExists now fresh request = .ok m) :
    (request.generate root rootExists refusal now fresh).actions =
        (performAll refusal m.actions).1 ∧
      (request.generate root rootExists refusal now fresh).outcome =
        (performAll refusal m.actions).2.elim (.ok m.result) fun text =>
          .error (.unwritable text) := by
  simp only [generate, h]
  split <;> simp_all

/-- Does an export take this action: is it to make the folder of the consumer, or to write the
manifest into it? -/
def Takes (request : ExportRequest) (root : String) (fresh : Uuid) (a : FileAction) : Prop :=
  let folder := joinPath root (Text.trimmed request.consumer)
  a = .makeDirectory folder ∨ ∃ text, a = .write (joinPath folder (fresh.text ++ ".json")) text

theorem takes_of_mem (hMade : m.Made root fresh request) (ha : a ∈ m.actions) :
    request.Takes root fresh a := by
  rw [Takes, ← hMade.folder, ← hMade.path]
  rcases List.mem_cons.mp ha with hFolder | hFile
  · exact .inl hFolder
  · exact .inr ⟨_, List.mem_singleton.mp hFile⟩

theorem attempts_of_generate (ha : a ∈ (request.generate root rootExists refusal now fresh).actions) :
    rootExists = true ∧ PlainName (Text.trimmed request.consumer) ∧
      request.Takes root fresh a := by
  cases hMake : Manifest.make root rootExists now fresh request with
  | error e =>
    rw [generate_of_error hMake] at ha
    cases ha
  | ok m =>
    obtain ⟨hExists, hMade⟩ := Manifest.made_of_make hMake
    rw [(generate_of_ok hMake).1] at ha
    exact ⟨hExists, hMade.plain, takes_of_mem hMade ((prefix_performAll _ _).subset ha)⟩

/-- An export does not ask the system for any other action. -/
theorem generate_congr (h : ∀ a, request.Takes root fresh a → refusal' a = refusal a) :
    request.generate root rootExists refusal' now fresh =
      request.generate root rootExists refusal now fresh := by
  cases hMake : Manifest.make root rootExists now fresh request with
  | error e => rw [generate_of_error hMake, generate_of_error hMake]
  | ok m =>
    have hMade := (Manifest.made_of_make hMake).2
    simp only [generate, hMake, performAll_congr fun a ha => h a (takes_of_mem hMade ha)]

/-- Where a root is there, an action of an export changes the place of the folder or that of the
manifest. -/
theorem perform_of_takes {start p : Place} {tree : FileTree}
    (hReaches : tree.Reaches (Path.place start root))
    (hPlain : PlainName (Text.trimmed request.consumer)) (hTakes : request.Takes root fresh a)
    (hFolder : p ≠ Path.place start root ++ [Text.trimmed request.consumer])
    (hFile : p ≠ Path.place start root ++ [Text.trimmed request.consumer, fresh.text ++ ".json"]) :
    tree.perform start a p = tree p := by
  rcases hTakes with rfl | ⟨text, rfl⟩
  · exact FileTree.perform_makeDirectory hReaches hPlain hFolder
  · refine FileTree.perform_write ?_
    rw [Path.place_joinPath start (plainName_manifest fresh), Path.place_joinPath start hPlain,
      List.append_assoc]
    exact hFile

/-- Where the root is there, nothing but the places of the folder and of the manifest changes in the
file tree. -/
theorem performAll_generate {start p : Place} {tree : FileTree}
    (hReaches : rootExists = true → tree.Reaches (Path.place start root))
    (hFolder : p ≠ Path.place start root ++ [Text.trimmed request.consumer])
    (hFile : p ≠ Path.place start root ++ [Text.trimmed request.consumer, fresh.text ++ ".json"]) :
    tree.performAll start (request.generate root rootExists refusal now fresh).actions p =
      tree p := by
  cases rootExists with
  | false =>
    have hNothing : (request.generate root false refusal now fresh).actions = [] :=
      List.eq_nil_iff_forall_not_mem.mpr fun a ha =>
        Bool.false_ne_true (attempts_of_generate ha).1
    rw [hNothing]
    rfl
  | true =>
    refine FileTree.performAll_eq (hReaches rfl) fun a ha tree' hReaches' => ?_
    obtain ⟨-, hPlain, hTakes⟩ := attempts_of_generate ha
    exact perform_of_takes hReaches' hPlain hTakes hFolder hFile

theorem generate_of_not_plain (h : ¬ PlainName (Text.trimmed request.consumer)) :
    request.generate root rootExists refusal now fresh =
      ⟨[], none, .error (.consumerNotFound request.consumer)⟩ :=
  generate_of_error (Manifest.make_of_not_plain h)

/-- The consumers that do not exist are those without a plain name. -/
theorem consumerNotFound_iff :
    (request.generate root rootExists refusal now fresh).outcome =
        .error (.consumerNotFound request.consumer) ↔
      ¬ PlainName (Text.trimmed request.consumer) := by
  constructor
  · intro hOutcome hPlain
    rcases Manifest.make_of_plain hPlain with ⟨-, m, hMake, -⟩ | ⟨-, hMissing⟩
    · rw [(generate_of_ok hMake).2] at hOutcome
      cases hFailed : (performAll refusal m.actions).2 <;> rw [hFailed] at hOutcome <;>
        cases hOutcome
    · rw [generate_of_error hMissing] at hOutcome
      cases hOutcome
  · intro hNot
    rw [generate_of_not_plain hNot]

/-- Where the root is there and the system refuses nothing, the folder is made and the manifest
written. -/
theorem actions_of_plain (h : PlainName (Text.trimmed request.consumer))
    (hFree : ∀ a, request.Takes root fresh a → refusal a = none) :
    let folder := joinPath root (Text.trimmed request.consumer)
    ∃ text, (request.generate root true refusal now fresh).actions =
      [.makeDirectory folder, .write (joinPath folder (fresh.text ++ ".json")) text] := by
  rcases Manifest.make_of_plain h with ⟨-, m, hMake, hMade⟩ | ⟨hMissing, -⟩
  · have hAll := performAll_of_none fun a ha => hFree a (takes_of_mem hMade ha)
    refine ⟨m.document.pretty, ?_⟩
    rw [(generate_of_ok hMake).1, hAll, ← hMade.folder, ← hMade.path]
    rfl
  · cases hMissing

/-- An export stays inside its root. It acts only if the root is there and the consumer's text,
without the blanks around it, is a plain name, and then it makes the folder of that name in the root
and writes the manifest, under a plain name, into the folder. No other action is so much as tried,
and nothing else changes in the file tree, whatever the path of the root looks like. For every other
consumer, and for no more than those, the answer is that the consumer does not exist, whether or not
the root is there; then nothing is done, and the run fails for good. -/
theorem stays_inside (request : ExportRequest) (root : String) (rootExists : Bool)
    (refusal : FileAction → Option String) (now : Instant) (fresh : Uuid) :
    let name := Text.trimmed request.consumer
    let file := fresh.text ++ ".json"
    let folder := joinPath root name
    let made := request.generate root rootExists refusal now fresh
    (∀ a ∈ made.actions, rootExists = true ∧ PlainName name ∧ request.Takes root fresh a) ∧
      (∀ refusal', (∀ a, request.Takes root fresh a → refusal' a = refusal a) →
        request.generate root rootExists refusal' now fresh = made) ∧
      (PlainName name → PlainName file ∧
        Path.steps folder = Path.steps root ++ [.enter name] ∧
        Path.steps (joinPath folder file) = Path.steps root ++ [.enter name, .enter file]) ∧
      (∀ (start : Place) (tree : FileTree),
        (rootExists = true → tree.Reaches (Path.place start root)) →
          ∀ p, tree.performAll start made.actions p ≠ tree p →
            p = Path.place start root ++ [name] ∨ p = Path.place start root ++ [name, file]) ∧
      (made.outcome = .error (.consumerNotFound request.consumer) ↔ ¬ PlainName name) ∧
      (¬ PlainName name → made = ⟨[], none, .error (.consumerNotFound request.consumer)⟩ ∧
        ∀ args, ofArguments args = .ok request →
          exportOutcome (fun r => (r.generate root rootExists refusal now fresh).outcome) args =
            .error (.fatal ("consumer " ++ request.consumer ++ " does not exist"))) ∧
      (PlainName name → rootExists = true →
        (∀ a, request.Takes root fresh a → refusal a = none) →
          ∃ text, made.actions = [.makeDirectory folder, .write (joinPath folder file) text]) := by
  intro name file folder made
  refine ⟨fun a ha => attempts_of_generate ha, fun refusal' h => generate_congr h,
    fun hPlain => ⟨plainName_manifest fresh, Path.steps_joinPath_of_plain hPlain, ?_⟩,
    fun start tree hReaches p hChanged => ?_, consumerNotFound_iff,
    fun hNot => ⟨generate_of_not_plain hNot, fun args hArgs => ?_⟩, ?_⟩
  · rw [Path.steps_joinPath_of_plain (plainName_manifest fresh),
      Path.steps_joinPath_of_plain hPlain, List.append_assoc]
    rfl
  · by_contra hElsewhere
    obtain ⟨hFolder, hFile⟩ := not_or.mp hElsewhere
    exact hChanged (performAll_generate hReaches hFolder hFile)
  · rw [exportOutcome_of_ofArguments hArgs, generate_of_not_plain hNot]
    rfl
  · rintro hPlain rfl hFree
    exact actions_of_plain hPlain hFree

theorem stays_inside_srv :
    let inside : ExportRequest := { consumer := "\u00a0c-1 " }
    let outside : ExportRequest := { consumer := "\u3000../c-1" }
    let tree : FileTree := fun p => if p.isPrefixOf ["srv"] then some .directory else none
    let file := "00000000-0000-0000-0000-000000000001.json"
    let made := inside.generate "/srv/" true (fun _ => none) ⟨0, 0⟩ ⟨1⟩
    (∃ text, made.actions = [.makeDirectory "/srv/c-1", .write ("/srv/c-1/" ++ file) text]) ∧
      tree.performAll ["home"] made.actions ["home", "c-1"] = none ∧
      (outside.generate "/srv/" false (fun _ => none) ⟨0, 0⟩ ⟨1⟩).outcome =
        .error (.consumerNotFound outside.consumer) := by
  intro inside outside tree file made
  have hInside : Text.trimmed inside.consumer = "c-1" := by decide +kernel
  have hOutside : Text.trimmed outside.consumer = "../c-1" := by decide +kernel
  have hPlain : PlainName "c-1" := ⟨by simp, by simp, by simp⟩
  have hHidden : ¬ PlainName "../c-1" := fun h => h.shown rfl
  have hRoot : Path.place ["home"] "/srv/" = ["srv"] := by decide +kernel
  obtain ⟨-, -, -, hTree, -, -, hActions⟩ :=
    inside.stays_inside "/srv/" true (fun _ => none) ⟨0, 0⟩ ⟨1⟩
  obtain ⟨-, -, -, -, -, hUnknown, -⟩ :=
    outside.stays_inside "/srv/" false (fun _ => none) ⟨0, 0⟩ ⟨1⟩
  refine ⟨?_, ?_, ?_⟩
  · obtain ⟨text, hText⟩ := hActions (hInside ▸ hPlain) rfl fun _ _ => rfl
    rw [hInside] at hText
    exact ⟨text, hText⟩
  · by_contra hChanged
    have hReaches : tree.Reaches (Path.place ["home"] "/srv/") := by
      intro p hp
      rw [hRoot] at hp
      simp [tree, List.isPrefixOf_iff_prefix, hp]
    have hPlaces := hTree ["home"] tree (fun _ => hReaches) ["home", "c-1"] hChanged
    rw [hRoot] at hPlaces
    exact absurd hPlaces (by simp)
  · rw [(hUnknown (hOutside ▸ hHidden)).1]

end ExportRequest

end BackgroundJobs
