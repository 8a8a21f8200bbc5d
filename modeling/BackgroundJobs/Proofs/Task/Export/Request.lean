import BackgroundJobs.Proofs.Job.Draft
import BackgroundJobs.Proofs.Json.Reading
import BackgroundJobs.Proofs.Store.Evolution
import BackgroundJobs.Task.Export

/-!
# Proofs — an export as the arguments of a run

A request for an export is written into five arguments, each in a form of its
own, and every attempt of the run reads it back from them. A text that was left
out is written `null`, so that it stays apart from an empty one.

Main results:

* `ofArguments_of_carried` — an export reads back the request that it was made of.
* `read_back`              — the draft of an export is always built, to a request
  that is read back.
-/

namespace BackgroundJobs.ExportRequest

variable {r : ExportRequest} {args : Arguments}

-- ---------------------------------------------------------------------------
-- Reading
-- ---------------------------------------------------------------------------

/-- Do the arguments of a run carry this request? -/
structure Carried (r : ExportRequest) (args : Arguments) : Prop where
  consumer : args.get? consumerArg = some (.str r.consumer)
  cdnLabel : args.get? cdnLabelArg = some (optionalText r.cdnLabel)
  webappPrefix : args.get? webappPrefixArg = some (optionalText r.webappPrefix)
  apiUrl : args.get? apiUrlArg = some (optionalText r.apiUrl)
  extensionData : args.get? extensionDataArg = some (.json (Json.ofDict .str r.extensionData))

theorem getStr?_of_optionalText {key : String} {text : Option String}
    (h : args.get? key = some (optionalText text)) : args.getStr? key = .ok text := by
  unfold Arguments.getStr?
  rw [h]
  cases text <;> rfl

/-- An export reads back the request that it was made of. -/
theorem ofArguments_of_carried (h : r.Carried args) : ofArguments args = .ok r := by
  have hContains : args.contains extensionDataArg = true := by
    rw [Dict.contains, h.extensionData]
    rfl
  have hExtension : args.getAs extensionDataArg (Json.toDictOf? Json.toStr?) =
      .ok r.extensionData := by
    have hRead : (Json.ofDict Json.str r.extensionData).toDictOf? Json.toStr? =
        some r.extensionData := Json.toDictOf?_ofDict fun _ _ => rfl
    simp only [Arguments.getAs, Arguments.require, h.extensionData, bind, Except.bind,
      Argument.value, hRead]
    rfl
  have hConsumer : args.getStr consumerArg = .ok r.consumer := by
    simp only [Arguments.getStr, Arguments.require, h.consumer, bind, Except.bind]
    rfl
  simp only [ofArguments, hContains, if_true, hExtension, hConsumer,
    getStr?_of_optionalText h.cdnLabel, getStr?_of_optionalText h.webappPrefix,
    getStr?_of_optionalText h.apiUrl, bind, Except.bind]
  rfl

/-- What comes of a run is what comes of the request that its arguments are read as. -/
theorem exportOutcome_of_ofArguments (h : ofArguments args = .ok r)
    (generate : ExportRequest → Except ExportError ExportResult) :
    exportOutcome generate args =
      ((generate r).map fun result => some result.toJson).mapError ExportError.toExecutionError := by
  simp only [exportOutcome, h]
  cases generate r <;> rfl

-- ---------------------------------------------------------------------------
-- Writing
-- ---------------------------------------------------------------------------

/-- What the draft of an export is made of. -/
def settings (r : ExportRequest) (owner : String) (logLevel : Option String) (fresh : Uuid) :
    List Setting :=
  [.name ("export-" ++ fresh.text),
    .argument consumerArg (.str r.consumer),
    .argument cdnLabelArg (optionalText r.cdnLabel),
    .argument webappPrefixArg (optionalText r.webappPrefix),
    .argument apiUrlArg (optionalText r.apiUrl),
    .jsonArgument extensionDataArg (.ok (Json.ofDict .str r.extensionData)),
    .owner owner,
    .constraint (.uniqueByArguments [consumerArg])] ++
  (logLevel.map Setting.logLevel).toList

theorem draft_eq (r : ExportRequest) (owner : String) (logLevel : Option String) (fresh : Uuid) :
    r.draft owner logLevel fresh =
      Draft.setAll { jobKey := ExportRequest.jobKey } (r.settings owner logLevel fresh) :=
  rfl

/-- The arguments that an export is drafted with. -/
def given (r : ExportRequest) : List (String × Argument) :=
  [(consumerArg, .str r.consumer), (cdnLabelArg, optionalText r.cdnLabel),
    (webappPrefixArg, optionalText r.webappPrefix), (apiUrlArg, optionalText r.apiUrl),
    (extensionDataArg, .json (Json.ofDict .str r.extensionData))]

theorem filterMap_argument?_settings (r : ExportRequest) (owner : String)
    (logLevel : Option String) (fresh : Uuid) :
    (r.settings owner logLevel fresh).filterMap Setting.argument? = r.given := by
  cases logLevel <;> rfl

theorem filterMap_constraint?_settings (r : ExportRequest) (owner : String)
    (logLevel : Option String) (fresh : Uuid) :
    (r.settings owner logLevel fresh).filterMap Setting.constraint? =
      [.uniqueByArguments [consumerArg]] := by
  cases logLevel <;> rfl

theorem Carried.of_mem_given
    (h : ∀ key value, (key, value) ∈ r.given → args.get? key = some value) : r.Carried args where
  consumer := h _ _ (by simp [given])
  cdnLabel := h _ _ (by simp [given])
  webappPrefix := h _ _ (by simp [given])
  apiUrl := h _ _ (by simp [given])
  extensionData := h _ _ (by simp [given])

theorem nodup_given (r : ExportRequest) : (r.given.map (·.1)).Nodup := by
  show [consumerArg, cdnLabelArg, webappPrefixArg, apiUrlArg, extensionDataArg].Nodup
  decide

/-- Nothing is wrong with the draft of an export: its arguments have different keys. -/
theorem faultless_settings (r : ExportRequest) (owner : String) (logLevel : Option String)
    (fresh : Uuid) : Draft.Faultless (r.settings owner logLevel fresh) := by
  refine Draft.faultless_iff.mpr ⟨fun key text hIn => ?_, ?_⟩
  · cases logLevel <;> simp [settings, Setting.owner, Setting.logLevel] at hIn
  · rw [filterMap_argument?_settings]
    exact r.nodup_given

/-- A draft of an export is always built, to the request that its settings ask for. -/
theorem exists_build (r : ExportRequest) (owner : String) (logLevel : Option String)
    (fresh other : Uuid) :
    ∃ request : JobRequest, (r.draft owner logLevel fresh).build other = .ok request ∧
      request.Assembles jobKey (r.settings owner logLevel fresh) other := by
  rw [draft_eq]
  have hOnce := r.faultless_settings owner logLevel fresh
  obtain ⟨request, hBuilt⟩ :=
    Draft.exists_build_eq_ok_iff.mpr (Draft.error_eq_none_iff.mpr hOnce)
  exact ⟨request, hBuilt, Draft.assembles_of_build hOnce hBuilt⟩

/-- The texts that may be left out of an export, each with the name of its argument. -/
def optionalTexts (r : ExportRequest) : List (String × Option String) :=
  [(cdnLabelArg, r.cdnLabel), (webappPrefixArg, r.webappPrefix), (apiUrlArg, r.apiUrl)]

theorem Carried.get?_of_mem_optionalTexts (h : r.Carried args) :
    ∀ entry ∈ r.optionalTexts, args.get? entry.1 = some (optionalText entry.2) :=
  List.forall_mem_cons.mpr ⟨h.cdnLabel,
    List.forall_mem_cons.mpr ⟨h.webappPrefix, List.forall_mem_singleton.mpr h.apiUrl⟩⟩

/-- A draft of an export is always built. It belongs to the owner, logs at the given level and asks
to be unique by its consumer. Every attempt of the run reads back the request that it was drafted
for, and a text that was left out is not taken for an empty one. -/
theorem read_back (r : ExportRequest) (owner : String) (logLevel : Option String)
    (fresh other : Uuid) :
    ∃ request : JobRequest, (r.draft owner logLevel fresh).build other = .ok request ∧
      request.jobKey = jobKey ∧
      ofArguments request.arguments = .ok r ∧
      (∀ id group policy triggerId now x,
        (request.toRecord id group policy triggerId now).SameRun x →
          ofArguments (JobContext.ofRecord x).arguments = .ok r) ∧
      (∀ entry ∈ r.optionalTexts, request.arguments.getStr? entry.1 = .ok entry.2 ∧
        (request.arguments.get? entry.1 = some .null ↔ entry.2 = none) ∧
        ∀ text, request.arguments.get? entry.1 = some (.str text) ↔ entry.2 = some text) ∧
      request.constraints = [.uniqueByArguments [consumerArg]] ∧
      request.metadata.get? ownerKey = some owner ∧
      request.metadata.get? logLevelKey = logLevel := by
  obtain ⟨request, hBuilt, hRequest⟩ := r.exists_build owner logLevel fresh other
  have hCarried : r.Carried request.arguments := by
    refine .of_mem_given fun key value hGiven => (hRequest.arguments key value).mpr ?_
    rw [filterMap_argument?_settings]
    exact hGiven
  refine ⟨request, hBuilt, hRequest.jobKey, ofArguments_of_carried hCarried,
    fun id group policy triggerId now x hSame => ?_, fun entry hEntry => ?_, ?_, ?_, ?_⟩
  · have hArguments : (JobContext.ofRecord x).arguments = request.arguments := hSame.arguments
    rw [hArguments]
    exact ofArguments_of_carried hCarried
  · have hGet := hCarried.get?_of_mem_optionalTexts entry hEntry
    refine ⟨getStr?_of_optionalText hGet, ?_⟩
    rw [hGet]
    cases entry.2 <;> simp [optionalText]
  · rw [hRequest.constraints, filterMap_constraint?_settings]
  · rw [hRequest.metadata]
    cases logLevel <;> rfl
  · rw [hRequest.metadata]
    cases logLevel <;> rfl

theorem read_back_blank :
    let r : ExportRequest :=
      { consumer := "", cdnLabel := some "", extensionData := Dict.empty.insert "" "" }
    ∃ request : JobRequest, (r.draft "acme" (some "debug") ⟨1⟩).build ⟨2⟩ = .ok request ∧
      request.arguments.getStr? cdnLabelArg = .ok (some "") ∧
      request.arguments.getStr? apiUrlArg = .ok none ∧
      let started := Transition.start.apply (request.toRecord ⟨⟨3⟩⟩ "default" default none ⟨0, 0⟩)
        ⟨1, 0⟩
      ofArguments (JobContext.ofRecord started).arguments = .ok r := by
  intro r
  obtain ⟨request, hBuilt, -, -, hRead, hTexts, -⟩ := r.read_back "acme" (some "debug") ⟨1⟩ ⟨2⟩
  refine ⟨request, hBuilt, (hTexts (cdnLabelArg, some "") List.mem_cons_self).1,
    (hTexts (apiUrlArg, none) (by simp [optionalTexts, r])).1, ?_⟩
  exact hRead ⟨⟨3⟩⟩ "default" default none ⟨0, 0⟩ _ (JobRecord.sameRun_apply _ _ _)

end BackgroundJobs.ExportRequest
