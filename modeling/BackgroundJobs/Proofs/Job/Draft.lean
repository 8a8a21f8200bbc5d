import BackgroundJobs.Job.Request
import BackgroundJobs.Proofs.Dict
import Mathlib.Data.List.Induction

/-!
# Proofs — drafting a request

A draft takes its settings one after another. Most of them may be given again,
and the last one counts; an argument is given once, and constraints add up. A
setting that cannot be made leaves the draft as it was but for its error, so
those behind it are made as if it were not there, and the finished draft
reports the earliest one.

Main results:

* `set_eq`             — what one setting makes of a draft.
* `error_eq_some_iff`  — which error a draft reports.
* `build_eq_ok_iff`    — when a request is built, and which one.
* `build_assembles`    — this, and that settings for different things may change
  places.
-/

namespace BackgroundJobs

-- ---------------------------------------------------------------------------
-- What a setting gives
-- ---------------------------------------------------------------------------

namespace Setting

/-- The name that a setting gives, if it gives one; and so for the other fields. -/
def name? : Setting → Option String
  | .name text => some text
  | _ => none

def group? : Setting → Option String
  | .group text => some text
  | _ => none

/-- The key and the value of an argument. One that could not be encoded has none. -/
def argument? : Setting → Option (String × Argument)
  | .argument key value => some (key, value)
  | .jsonArgument key (.ok value) => some (key, .json value)
  | _ => none

def metadata? : Setting → Option (String × String)
  | .metadata key value => some (key, value)
  | _ => none

/-- The value that a setting gives for one key of the metadata. -/
def metadataAt? (key : String) (x : Setting) : Option String :=
  x.metadata?.bind fun given => if given.1 = key then some given.2 else none

def constraint? : Setting → Option Constraint
  | .constraint c => some c
  | _ => none

def retryPolicy? : Setting → Option RetryPolicy
  | .retryPolicy p => some p
  | _ => none

def trigger? : Setting → Option Trigger
  | .trigger t => some t
  | _ => none

/-- What a setting sets: a field of the request, or one key of it. -/
inductive Slot where
  | name
  | group
  | argument (key : String)
  | metadata (key : String)
  | constraint
  | retryPolicy
  | trigger
  deriving DecidableEq

/-- An argument that could not be encoded is one for its key all the same. -/
def slot : Setting → Slot
  | .name _ => .name
  | .group _ => .group
  | .argument key _ => .argument key
  | .jsonArgument key _ => .argument key
  | .metadata key _ => .metadata key
  | .constraint _ => .constraint
  | .retryPolicy _ => .retryPolicy
  | .trigger _ => .trigger

end Setting

-- ---------------------------------------------------------------------------
-- One setting
-- ---------------------------------------------------------------------------

namespace Draft

variable {α : Type} {d : Draft} {x : Setting} {before settings settings' : List Setting}
  {jobKey key : String} {value : Argument} {e : JobError} {fresh : Uuid} {request : JobRequest}

/-- Why a draft cannot take a setting. -/
def fault? (d : Draft) : Setting → Option JobError
  | .jsonArgument key (.error text) => some (.invalidArgument key text)
  | x => x.argument?.bind fun given =>
    if d.arguments.contains given.1 then some (.duplicateArgument given.1) else none

/-- The arguments after a setting: what is there stays. -/
def argumentsWith (d : Draft) (x : Setting) : Arguments :=
  x.argument?.elim d.arguments fun given =>
    if d.arguments.contains given.1 then d.arguments else d.arguments.insert given.1 given.2

/-- What a setting makes of a draft. -/
theorem set_eq (d : Draft) (x : Setting) :
    d.set x =
      { jobKey := d.jobKey
        name := x.name?.or d.name
        group := x.group?.or d.group
        arguments := d.argumentsWith x
        metadata := x.metadata?.elim d.metadata fun given => d.metadata.insert given.1 given.2
        constraints := d.constraints ++ x.constraint?.toList
        retryPolicy := x.retryPolicy?.or d.retryPolicy
        trigger := x.trigger?.getD d.trigger
        error := d.error.or (d.fault? x) } := by
  have hKept : d.constraints ++ [] = d.constraints := List.append_nil _
  have hQuiet : d.error.or none = d.error := Option.or_none
  have hArgument : ∀ key value, d.addArgument key value =
      { d with
        arguments :=
          if d.arguments.contains key then d.arguments else d.arguments.insert key value
        error := d.error.or
          (if d.arguments.contains key then some (.duplicateArgument key) else none) } := by
    intro key value
    rw [addArgument]
    split
    · rfl
    · rw [hQuiet]
  cases x with
  | argument key value =>
    simp only [set, hArgument, hKept, Setting.constraint?, Option.toList]
    rfl
  | jsonArgument key encoded =>
    cases encoded with
    | ok value =>
      simp only [set, hArgument, hKept, Setting.constraint?, Option.toList]
      rfl
    | error text =>
      simp only [set, hKept, Setting.constraint?, Option.toList]
      rfl
  | constraint c =>
    simp only [set, hQuiet, fault?, Setting.argument?, Option.bind]
    rfl
  | name | group | metadata | retryPolicy | trigger =>
    simp only [set, hKept, hQuiet, fault?, Setting.argument?, Setting.constraint?, Option.toList,
      Option.bind]
    rfl

-- ---------------------------------------------------------------------------
-- All settings
-- ---------------------------------------------------------------------------

theorem setAll_append (d : Draft) (before settings : List Setting) :
    d.setAll (before ++ settings) = (d.setAll before).setAll settings :=
  List.foldl_append

theorem jobKey_setAll (d : Draft) (settings : List Setting) :
    (d.setAll settings).jobKey = d.jobKey := by
  induction settings generalizing d with
  | nil => rfl
  | cons x rest ih =>
    have hSet : (d.set x).jobKey = d.jobKey := by rw [set_eq]
    exact (ih (d.set x)).trans hSet

/-- What every setting may set anew is what was given last. -/
theorem last_setAll (get : Draft → Option α) (asks : Setting → Option α)
    (hSet : ∀ d x, get (d.set x) = (asks x).or (get d)) (d : Draft) (settings : List Setting) :
    get (d.setAll settings) = (settings.filterMap asks).getLast?.or (get d) := by
  induction settings generalizing d with
  | nil => rfl
  | cons x rest ih =>
    have hRest : get (d.setAll (x :: rest)) =
        (rest.filterMap asks).getLast?.or ((asks x).or (get d)) := by
      rw [← hSet]
      exact ih (d.set x)
    rw [hRest, ← Option.or_assoc]
    cases hAsks : asks x with
    | none => rw [List.filterMap_cons_none hAsks, Option.or_none]
    | some a => rw [List.filterMap_cons_some hAsks, List.getLast?_cons, Option.or_some]

theorem name_setAll (d : Draft) (settings : List Setting) :
    (d.setAll settings).name = (settings.filterMap Setting.name?).getLast?.or d.name :=
  last_setAll Draft.name Setting.name? (fun d x => by rw [set_eq]) d settings

theorem group_setAll (d : Draft) (settings : List Setting) :
    (d.setAll settings).group = (settings.filterMap Setting.group?).getLast?.or d.group :=
  last_setAll Draft.group Setting.group? (fun d x => by rw [set_eq]) d settings

theorem retryPolicy_setAll (d : Draft) (settings : List Setting) :
    (d.setAll settings).retryPolicy =
      (settings.filterMap Setting.retryPolicy?).getLast?.or d.retryPolicy :=
  last_setAll Draft.retryPolicy Setting.retryPolicy? (fun d x => by rw [set_eq]) d settings

theorem trigger_setAll (d : Draft) (settings : List Setting) :
    (d.setAll settings).trigger =
      (settings.filterMap Setting.trigger?).getLast?.getD d.trigger := by
  have hLast := last_setAll (fun d => some d.trigger) Setting.trigger?
    (fun d x => by rw [set_eq, Option.or_some]) d settings
  rw [Option.or_some] at hLast
  exact Option.some.inj hLast

theorem get?_metadata_setAll (d : Draft) (settings : List Setting) (key : String) :
    (d.setAll settings).metadata.get? key =
      (settings.filterMap (Setting.metadataAt? key)).getLast?.or (d.metadata.get? key) := by
  refine last_setAll (fun d => d.metadata.get? key) (Setting.metadataAt? key) (fun d x => ?_) d
    settings
  rw [set_eq, Setting.metadataAt?]
  cases x.metadata? with
  | none => rfl
  | some given =>
    rw [Option.elim_some, Dict.get?_insert, Option.bind_some]
    by_cases hKey : key = given.1
    · rw [if_pos hKey, if_pos hKey.symm, Option.some_or]
    · rw [if_neg hKey, if_neg (Ne.symm hKey), Option.none_or]

theorem constraints_setAll (d : Draft) (settings : List Setting) :
    (d.setAll settings).constraints =
      d.constraints ++ settings.filterMap Setting.constraint? := by
  induction settings generalizing d with
  | nil => exact (List.append_nil _).symm
  | cons x rest ih =>
    refine (ih (d.set x)).trans ?_
    rw [set_eq, List.append_assoc]
    cases hGiven : x.constraint? with
    | none => rw [List.filterMap_cons_none hGiven]; rfl
    | some c => rw [List.filterMap_cons_some hGiven]; rfl

/-- A setting gives its argument unless there is one for its key. -/
theorem get?_argumentsWith (d : Draft) (x : Setting) (key : String) :
    (d.argumentsWith x).get? key = (d.arguments.get? key).or (x.argument?.toList.lookup key) := by
  rw [argumentsWith]
  cases x.argument? with
  | none => exact Option.or_none.symm
  | some given =>
    rw [Option.elim_some, Option.toList_some, List.lookup_cons, List.lookup_nil]
    by_cases hKey : key = given.1
    · rw [← hKey, beq_self_eq_true, Dict.contains]
      cases hOld : d.arguments.get? key with
      | none => simp [Dict.get?_insert]
      | some old => simp [hOld]
    · rw [beq_false_of_ne hKey, Option.or_none]
      split
      · rfl
      · rw [Dict.get?_insert, if_neg hKey]

/-- An argument has the value that was given first. -/
theorem get?_arguments_setAll (d : Draft) (settings : List Setting) (key : String) :
    (d.setAll settings).arguments.get? key =
      (d.arguments.get? key).or ((settings.filterMap Setting.argument?).lookup key) := by
  induction settings generalizing d with
  | nil => exact Option.or_none.symm
  | cons x rest ih =>
    have hRest : (d.setAll (x :: rest)).arguments.get? key =
        ((d.argumentsWith x).get? key).or ((rest.filterMap Setting.argument?).lookup key) := by
      refine (ih (d.set x)).trans ?_
      rw [set_eq]
    rw [hRest, get?_argumentsWith, Option.or_assoc, ← List.lookup_append]
    cases hGiven : x.argument? with
    | none => rw [List.filterMap_cons_none hGiven]; rfl
    | some given => rw [List.filterMap_cons_some hGiven]; rfl

/-- The keys of a fresh draft are those that were given; a setting that could not be made has taken
none. -/
theorem contains_setAll : (setAll { jobKey } settings).arguments.contains key = true ↔
    key ∈ (settings.filterMap Setting.argument?).map (·.1) := by
  rw [Dict.contains, get?_arguments_setAll, Dict.get?_empty, Option.none_or,
    List.lookup_isSome_iff, List.mem_map]
  constructor
  · rintro ⟨given, hGiven, hKey⟩
    exact ⟨given, hGiven, (eq_of_beq hKey).symm⟩
  · rintro ⟨given, hGiven, rfl⟩
    exact ⟨given, hGiven, beq_self_eq_true _⟩

-- ---------------------------------------------------------------------------
-- Faults
-- ---------------------------------------------------------------------------

/-- Can a setting not be made after those before it, and why? It is a structured argument that could
not be encoded, or an argument for a key that one was given for before. -/
inductive Faulty (before : List Setting) : Setting → JobError → Prop
  | unencoded (key text : String) :
    Faulty before (.jsonArgument key (.error text)) (.invalidArgument key text)
  | repeated {x : Setting} {key : String} {value : Argument}
    (hGiven : x.argument? = some (key, value))
    (hBefore : key ∈ (before.filterMap Setting.argument?).map (·.1)) :
    Faulty before x (.duplicateArgument key)

/-- Can every setting be made after those before it? -/
def Faultless (settings : List Setting) : Prop :=
  ∀ before x e, before ++ [x] <+: settings → ¬ Faulty before x e

theorem fault?_of_argument? (h : x.argument? = some (key, value)) :
    d.fault? x =
      if d.arguments.contains key then some (.duplicateArgument key) else none := by
  cases x with
  | argument => cases h; rfl
  | jsonArgument k encoded =>
    cases encoded with
    | ok => cases h; rfl
    | error => cases h
  | name | group | metadata | constraint | retryPolicy | trigger => cases h

/-- The draft itself tells which settings are faulty. -/
theorem fault?_setAll : (setAll { jobKey } before).fault? x = some e ↔ Faulty before x e := by
  constructor
  · intro h
    cases hGiven : x.argument? with
    | none =>
      cases x with
      | jsonArgument key encoded =>
        cases encoded with
        | ok => cases hGiven
        | error text =>
          cases h
          exact .unencoded key text
      | argument => cases hGiven
      | name | group | metadata | constraint | retryPolicy | trigger => cases h
    | some given =>
      rw [fault?_of_argument? hGiven] at h
      split at h
      · next hBefore =>
        cases h
        exact .repeated hGiven (contains_setAll.mp hBefore)
      · cases h
  · intro h
    cases h with
    | unencoded => rfl
    | repeated hGiven hBefore =>
      rw [fault?_of_argument? hGiven, if_pos (contains_setAll.mpr hBefore)]

/-- What comes up to an element of a longer list comes up to its last one, or to one before. -/
theorem concat_prefix_concat {l m : List α} {a b : α} :
    m ++ [b] <+: l ++ [a] ↔ (m = l ∧ b = a) ∨ m ++ [b] <+: l := by
  rw [List.prefix_concat_iff, List.append_singleton_inj]

theorem not_concat_prefix_nil {m : List α} {b : α} : ¬ m ++ [b] <+: [] := by
  simp

theorem faultless_nil : Faultless [] :=
  fun _ _ _ hPrefix => (not_concat_prefix_nil hPrefix).elim

theorem faultless_concat :
    Faultless (settings ++ [x]) ↔ Faultless settings ∧ ∀ e, ¬ Faulty settings x e := by
  constructor
  · intro h
    exact ⟨fun before y e hPrefix => h before y e (concat_prefix_concat.mpr (.inr hPrefix)),
      fun e => h settings x e List.prefix_rfl⟩
  · rintro ⟨hInit, hLast⟩ before y e hPrefix
    rcases concat_prefix_concat.mp hPrefix with ⟨rfl, rfl⟩ | hPrefix
    · exact hLast e
    · exact hInit before y e hPrefix

theorem not_faulty_iff :
    (∀ e, ¬ Faulty before x e) ↔ (setAll { jobKey } before).fault? x = none := by
  rw [Option.eq_none_iff_forall_ne_some]
  exact forall_congr' fun e => not_congr fault?_setAll.symm

theorem error_concat (d : Draft) (settings : List Setting) (x : Setting) :
    (d.setAll (settings ++ [x])).error =
      (d.setAll settings).error.or ((d.setAll settings).fault? x) := by
  rw [setAll_append]
  exact congrArg Draft.error (set_eq _ x)

/-- A draft is without an error exactly if nothing was wrong with its settings. -/
theorem error_eq_none_iff : (setAll { jobKey } settings).error = none ↔ Faultless settings := by
  induction settings using List.reverseRecOn with
  | nil => exact iff_of_true rfl faultless_nil
  | append_singleton settings x ih =>
    rw [error_concat, Option.or_eq_none_iff, ih, faultless_concat, not_faulty_iff]

/-- A draft reports the fault of the earliest setting that has one. -/
theorem error_eq_some_iff : (setAll { jobKey } settings).error = some e ↔
    ∃ before x, before ++ [x] <+: settings ∧ Faultless before ∧ Faulty before x e := by
  induction settings using List.reverseRecOn with
  | nil =>
    constructor
    · intro h
      cases h
    · rintro ⟨before, x, hPrefix, -⟩
      exact (not_concat_prefix_nil hPrefix).elim
  | append_singleton settings y ih =>
    rw [error_concat, Option.or_eq_some_iff, ih, error_eq_none_iff, fault?_setAll]
    constructor
    · rintro (⟨before, x, hPrefix, hFirst⟩ | hLast)
      · exact ⟨before, x, concat_prefix_concat.mpr (.inr hPrefix), hFirst⟩
      · exact ⟨settings, y, List.prefix_rfl, hLast⟩
    · rintro ⟨before, x, hPrefix, hFirst⟩
      rcases concat_prefix_concat.mp hPrefix with ⟨rfl, rfl⟩ | hPrefix
      · exact .inr hFirst
      · exact .inl ⟨before, x, hPrefix, hFirst⟩

-- What could not be encoded has taken no key.
example : (setAll { jobKey := "job" } [.jsonArgument "size" (.error "not a number"),
    .argument "size" (.int 1), .argument "size" (.int 2)]).error =
      some (.invalidArgument "size" "not a number") := rfl

/-- Nothing is wrong with settings whose structured arguments are all encoded and that give each
argument once. -/
theorem faultless_iff : Faultless settings ↔
    (∀ key text, .jsonArgument key (.error text) ∉ settings) ∧
      ((settings.filterMap Setting.argument?).map (·.1)).Nodup := by
  induction settings using List.reverseRecOn with
  | nil => exact iff_of_true faultless_nil ⟨fun _ _ => List.not_mem_nil, List.nodup_nil⟩
  | append_singleton settings x ih =>
    have hKeys : ((settings ++ [x]).filterMap Setting.argument?).map (·.1) =
        (settings.filterMap Setting.argument?).map (·.1) ++ x.argument?.toList.map (·.1) := by
      rw [List.filterMap_append, List.map_append]
      cases hGiven : x.argument? with
      | none => rw [List.filterMap_cons_none hGiven]; rfl
      | some given => rw [List.filterMap_cons_some hGiven]; rfl
    rw [faultless_concat, ih, hKeys, List.nodup_append]
    constructor
    · rintro ⟨⟨hEncoded, hOnce⟩, hLast⟩
      refine ⟨fun key text hIn => ?_, hOnce, ?_, ?_⟩
      · rcases List.mem_append.mp hIn with hIn | hIn
        · exact hEncoded key text hIn
        · cases List.mem_singleton.mp hIn
          exact hLast _ (.unencoded key text)
      · cases x.argument? <;> simp
      · rintro key hBefore _ hLater rfl
        obtain ⟨⟨k, value⟩, hGiven, rfl⟩ := List.mem_map.mp hLater
        exact hLast _ (.repeated (Option.mem_toList.mp hGiven) hBefore)
    · rintro ⟨hEncoded, hOnce, -, hApart⟩
      refine ⟨⟨fun key text hIn => hEncoded key text (List.mem_append_left _ hIn), hOnce⟩, ?_⟩
      intro e hFaulty
      cases hFaulty with
      | unencoded key text =>
        exact hEncoded key text (List.mem_append_right _ (List.mem_singleton_self _))
      | repeated hGiven hBefore =>
        exact hApart _ hBefore _ (List.mem_map.mpr ⟨_, Option.mem_toList.mpr hGiven, rfl⟩) rfl

end Draft

-- ---------------------------------------------------------------------------
-- The request
-- ---------------------------------------------------------------------------

namespace JobRequest

variable {job : String} {settings : List Setting} {fresh : Uuid} {r r' : JobRequest}

/-- The name of a request: the one that was given last, or a generated one. -/
def chosenName (job : String) (settings : List Setting) (fresh : Uuid) : String :=
  (settings.filterMap Setting.name?).getLast?.getD (defaultName job fresh)

/-- Is this the request for the job that the settings ask for? -/
structure Assembles (job : String) (settings : List Setting) (fresh : Uuid) (r : JobRequest) :
    Prop where
  jobKey : r.jobKey = job
  name : r.name = chosenName job settings fresh
  group : r.group = (settings.filterMap Setting.group?).getLast?
  /-- It has the arguments that were given, and no others. -/
  arguments : ∀ key value, r.arguments.get? key = some value ↔
    (key, value) ∈ settings.filterMap Setting.argument?
  /-- Of the values for one key of the metadata the last one counts. -/
  metadata : ∀ key, r.metadata.get? key = (settings.filterMap (Setting.metadataAt? key)).getLast?
  constraints : r.constraints = settings.filterMap Setting.constraint?
  retryPolicy : r.retryPolicy = (settings.filterMap Setting.retryPolicy?).getLast?
  trigger : r.trigger = (settings.filterMap Setting.trigger?).getLast?.getD .immediate

/-- There is only one such request. -/
theorem Assembles.unique (h : Assembles job settings fresh r)
    (h' : Assembles job settings fresh r') : r = r' := by
  have hArguments : r.arguments = r'.arguments := by
    refine Dict.eq_of_get?_eq fun key => Option.ext fun value => ?_
    rw [h.arguments, h'.arguments]
  have hMetadata : r.metadata = r'.metadata :=
    Dict.eq_of_get?_eq fun key => (h.metadata key).trans (h'.metadata key).symm
  cases r
  cases r'
  rw [mk.injEq]
  exact ⟨h.jobKey.trans h'.jobKey.symm, h.name.trans h'.name.symm, h.group.trans h'.group.symm,
    hArguments, hMetadata, h.constraints.trans h'.constraints.symm,
    h.retryPolicy.trans h'.retryPolicy.symm, h.trigger.trans h'.trigger.symm⟩

end JobRequest

namespace Draft

variable {settings settings' : List Setting} {job : String} {fresh fresh' : Uuid}
  {request : JobRequest} {e : JobError}

/-- What settings without a fault are built to. -/
theorem assembles_of_build (hOnce : Faultless settings)
    (h : (setAll { jobKey := job } settings).build fresh = .ok request) :
    request.Assembles job settings fresh := by
  have hNone : (setAll { jobKey := job } settings).error = none := error_eq_none_iff.mpr hOnce
  rw [build, hNone] at h
  cases h
  refine ⟨jobKey_setAll _ _, ?_, ?_, fun key value => ?_, fun key => ?_, ?_, ?_, ?_⟩
  · show (setAll _ settings).name.getD (JobRequest.defaultName (setAll _ settings).jobKey _) = _
    rw [jobKey_setAll, name_setAll, Option.or_none]
    rfl
  · exact (group_setAll _ _).trans Option.or_none
  · rw [get?_arguments_setAll, Dict.get?_empty, Option.none_or]
    exact lookup_eq_some_iff_mem (faultless_iff.mp hOnce).2
  · exact (get?_metadata_setAll _ _ key).trans Option.or_none
  · exact constraints_setAll _ _
  · exact (retryPolicy_setAll _ _).trans Option.or_none
  · exact trigger_setAll _ _

theorem build_eq_error_iff_error {d : Draft} : d.build fresh = .error e ↔ d.error = some e := by
  rw [build]
  cases d.error with
  | none => simp
  | some e' => simp

theorem exists_build_eq_ok_iff {d : Draft} :
    (∃ request, d.build fresh = .ok request) ↔ d.error = none := by
  rw [build]
  cases d.error with
  | none => simp
  | some e => simp

/-- A request is built exactly of settings without a fault, and it is what they ask for. -/
theorem build_eq_ok_iff : (setAll { jobKey := job } settings).build fresh = .ok request ↔
    Faultless settings ∧ request.Assembles job settings fresh := by
  constructor
  · intro h
    have hOnce : Faultless settings := error_eq_none_iff.mp (exists_build_eq_ok_iff.mp ⟨_, h⟩)
    exact ⟨hOnce, assembles_of_build hOnce h⟩
  · rintro ⟨hOnce, hRequest⟩
    obtain ⟨built, hBuilt⟩ := exists_build_eq_ok_iff.mpr (error_eq_none_iff.mpr hOnce)
    rw [hBuilt, (assembles_of_build hOnce hBuilt).unique hRequest]

-- ---------------------------------------------------------------------------
-- Settings that change places
-- ---------------------------------------------------------------------------

/-- Do two lists have the same settings for each field and each key, in the same order? -/
def Rearranges (settings settings' : List Setting) : Prop :=
  ∀ s, settings.filter (·.slot = s) = settings'.filter (·.slot = s)

/-- Neighbours that set different things may change places. -/
theorem rearranges_swap {x y : Setting} (h : x.slot ≠ y.slot) (before after : List Setting) :
    Rearranges (before ++ x :: y :: after) (before ++ y :: x :: after) := by
  intro s
  rw [List.filter_append, List.filter_append]
  by_cases hx : x.slot = s
  · have hy : ¬ y.slot = s := fun hy => h (hx.trans hy.symm)
    simp [hx, hy]
  · simp [List.filter_cons, hx]

/-- What is read off the settings for one thing is the same after a rearrangement. -/
theorem Rearranges.filterMap_eq {α : Type} {asks : Setting → Option α}
    (h : Rearranges settings settings') (s : Setting.Slot)
    (hOwn : ∀ x, x.slot ≠ s → asks x = none) :
    settings.filterMap asks = settings'.filterMap asks := by
  have hPart : ∀ l : List Setting, (l.filter (·.slot = s)).filterMap asks = l.filterMap asks := by
    intro l
    rw [List.filterMap_filter]
    congr 1
    funext x
    by_cases hx : x.slot = s
    · simp [hx]
    · simp [hx, hOwn x hx]
  rw [← hPart settings, h s, hPart]

theorem Rearranges.perm (h : Rearranges settings settings') : settings.Perm settings' := by
  classical
  refine List.perm_iff_count.mpr fun x => ?_
  have hPart : ∀ l : List Setting, (l.filter (·.slot = x.slot)).count x = l.count x :=
    fun l => List.count_filter (by simp)
  rw [← hPart settings, h, hPart]

theorem Rearranges.faultless_iff (h : Rearranges settings settings') :
    Faultless settings' ↔ Faultless settings := by
  rw [Draft.faultless_iff, Draft.faultless_iff]
  refine and_congr ?_ ?_
  · exact forall_congr' fun key => forall_congr' fun text => not_congr h.perm.mem_iff.symm
  · exact ((h.perm.filterMap _).map _).nodup_iff.symm

/-- Rearranged settings ask for the same request, under a name that is the same if it was given. -/
theorem Rearranges.assembles (h : Rearranges settings settings')
    (hRequest : request.Assembles job settings fresh) (fresh' : Uuid) :
    JobRequest.Assembles job settings' fresh'
      { request with name := JobRequest.chosenName job settings fresh' } where
  jobKey := hRequest.jobKey
  name := by
    rw [JobRequest.chosenName, JobRequest.chosenName, h.filterMap_eq .name fun x hx => ?_]
    cases x <;> first | rfl | exact (hx rfl).elim
  group := by
    rw [← h.filterMap_eq .group fun x hx => ?_, hRequest.group]
    cases x <;> first | rfl | exact (hx rfl).elim
  arguments key value := by
    rw [← (h.perm.filterMap _).mem_iff]
    exact hRequest.arguments key value
  metadata key := by
    rw [← h.filterMap_eq (.metadata key) fun x hx => ?_, hRequest.metadata]
    cases x with
    | metadata k value => exact if_neg fun hKey => hx (congrArg Setting.Slot.metadata hKey)
    | _ => rfl
  constraints := by
    rw [← h.filterMap_eq .constraint fun x hx => ?_, hRequest.constraints]
    cases x <;> first | rfl | exact (hx rfl).elim
  retryPolicy := by
    rw [← h.filterMap_eq .retryPolicy fun x hx => ?_, hRequest.retryPolicy]
    cases x <;> first | rfl | exact (hx rfl).elim
  trigger := by
    rw [← h.filterMap_eq .trigger fun x hx => ?_, hRequest.trigger]
    cases x <;> first | rfl | exact (hx rfl).elim

/-- How a request is put together. A setting is faulty if it is an argument that could not be
encoded, or one for a key that has been given before, and the earliest fault is the answer. Without
a fault the answer is the request that the settings ask for. Settings for different things may
change places: that makes no fault and heals none, and the request is the same, up to a name that
nobody gave. -/
theorem build_assembles (job : String) (settings : List Setting) (fresh : Uuid) :
    ((∃ e, (setAll { jobKey := job } settings).build fresh = .error e) ↔
        ∃ before x e, before ++ [x] <+: settings ∧ Faulty before x e) ∧
      (∀ e, (setAll { jobKey := job } settings).build fresh = .error e ↔
        ∃ before x, before ++ [x] <+: settings ∧ Faultless before ∧ Faulty before x e) ∧
      (∀ request, (setAll { jobKey := job } settings).build fresh = .ok request ↔
        Faultless settings ∧ request.Assembles job settings fresh) ∧
      ∀ settings', Rearranges settings settings' →
        (Faultless settings' ↔ Faultless settings) ∧
          ∀ fresh' request, (setAll { jobKey := job } settings).build fresh = .ok request →
            (setAll { jobKey := job } settings').build fresh' =
              .ok { request with name := JobRequest.chosenName job settings fresh' } := by
  refine ⟨?_, fun e => build_eq_error_iff_error.trans error_eq_some_iff,
    fun request => build_eq_ok_iff, fun settings' h => ⟨h.faultless_iff, ?_⟩⟩
  · constructor
    · rintro ⟨e, hBuilt⟩
      obtain ⟨before, x, hPrefix, -, hFaulty⟩ :=
        error_eq_some_iff.mp (build_eq_error_iff_error.mp hBuilt)
      exact ⟨before, x, e, hPrefix, hFaulty⟩
    · rintro ⟨before, x, e, hPrefix, hFaulty⟩
      cases hBuilt : (setAll { jobKey := job } settings).build fresh with
      | error e' => exact ⟨e', rfl⟩
      | ok request => exact ((build_eq_ok_iff.mp hBuilt).1 before x e hPrefix hFaulty).elim
  · intro fresh' request hBuilt
    obtain ⟨hOnce, hRequest⟩ := build_eq_ok_iff.mp hBuilt
    exact build_eq_ok_iff.mpr ⟨h.faultless_iff.mpr hOnce, h.assembles hRequest fresh'⟩

theorem build_assembles_swapped :
    let owner : Setting := .owner "acme"
    let argument : Setting := .argument "branch" (.str "main")
    let rest : List Setting := [.logLevel "debug", .jsonArgument "files" (.ok .null),
      .constraint (.maxActivePerKey 2), .metadata ownerKey "other"]
    ∃ request, Rearranges (owner :: argument :: rest) (argument :: owner :: rest) ∧
      (setAll { jobKey := "job" } (owner :: argument :: rest)).build ⟨1⟩ = .ok request ∧
      request.metadata.get? ownerKey = some "other" ∧
      (setAll { jobKey := "job" } (argument :: owner :: rest)).build ⟨2⟩ =
        .ok { request with name := JobRequest.defaultName "job" ⟨2⟩ } := by
  intro owner argument rest
  have hSwap : Rearranges (owner :: argument :: rest) (argument :: owner :: rest) :=
    rearranges_swap (by decide) [] rest
  obtain ⟨-, -, -, hPlaces⟩ := build_assembles "job" (owner :: argument :: rest) ⟨1⟩
  refine ⟨_, hSwap, rfl, rfl, (hPlaces _ hSwap).2 ⟨2⟩ _ rfl⟩

end Draft

end BackgroundJobs
