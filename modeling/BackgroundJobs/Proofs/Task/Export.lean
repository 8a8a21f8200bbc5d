import BackgroundJobs.Proofs.Realm.Uniqueness
import BackgroundJobs.Proofs.Task.Export.Folder
import BackgroundJobs.Task.Bundle

/-!
# Proofs — exports of one consumer

A request for an export carries the consumer's name as it was given, and asks
to be unique by it. The exporter takes the name without the blanks around it.
So two exports that are active at a time never carry the same text, and they
may go to one folder all the same, if their texts differ by blanks only.

Main results:

* `Makes.carried`          — a request for an export carries it, whatever else was set.
* `exports_apart_of_run`   — what active exports have in common, after any run.
-/

namespace BackgroundJobs

-- ---------------------------------------------------------------------------
-- Requests
-- ---------------------------------------------------------------------------

namespace ExportRequest

variable {r : ExportRequest} {d : Draft}

/-- What a draft of an export keeps, whatever is set in addition. -/
structure Drafted (r : ExportRequest) (d : Draft) : Prop where
  jobKey : d.jobKey = ExportRequest.jobKey
  carried : d.error = none → r.Carried d.arguments
  unique : .uniqueByArguments [consumerArg] ∈ d.constraints

theorem Drafted.set (h : r.Drafted d) (setting : Setting) : r.Drafted (d.set setting) := by
  rw [Draft.set_eq]
  refine ⟨h.jobKey, fun hNone => ?_, List.mem_append_left _ h.unique⟩
  have hBefore : d.error = none := (Option.or_eq_none_iff.mp hNone).1
  obtain ⟨hConsumer, hCdn, hWebapp, hApi, hExtension⟩ := h.carried hBefore
  -- an argument that is there already is not set again
  have hOther : ∀ {name x}, d.arguments.get? name = some x →
      (d.argumentsWith setting).get? name = some x := by
    intro name x hThere
    rw [Draft.get?_argumentsWith, hThere, Option.some_or]
  exact ⟨hOther hConsumer, hOther hCdn, hOther hWebapp, hOther hApi, hOther hExtension⟩

theorem Drafted.setAll (h : r.Drafted d) (settings : List Setting) :
    r.Drafted (d.setAll settings) := by
  induction settings generalizing d with
  | nil => exact h
  | cons setting rest ih => exact ih (h.set setting)

theorem drafted (r : ExportRequest) (owner : String) (logLevel : Option String) (fresh : Uuid) :
    r.Drafted (r.draft owner logLevel fresh) := by
  rw [draft_eq]
  refine ⟨Draft.jobKey_setAll _ _, fun _ => .of_mem_given fun key value hGiven => ?_, ?_⟩
  · rw [Draft.get?_arguments_setAll, Dict.get?_empty, Option.none_or, filterMap_argument?_settings]
    exact (lookup_eq_some_iff_mem r.nodup_given).mpr hGiven
  · rw [Draft.constraints_setAll, filterMap_constraint?_settings]
    exact List.mem_singleton_self _

/-- Is this a request for the export, whatever was set in addition, or one that a firing of it
makes? -/
def Makes (r : ExportRequest) (request : JobRequest) : Prop :=
  ∃ owner logLevel fresh settings other built,
    ((r.draft owner logLevel fresh).setAll settings).build other = .ok built ∧
      (request = built ∨ ∃ name, request = built.instanceOf name)

theorem Makes.carried {request : JobRequest} (h : r.Makes request) :
    r.Carried request.arguments ∧
      .uniqueByArguments [consumerArg] ∈ request.constraints := by
  obtain ⟨owner, logLevel, fresh, settings, other, built, hBuilt, hRequest⟩ := h
  have hDrafted := (r.drafted owner logLevel fresh).setAll settings
  unfold Draft.build at hBuilt
  split at hBuilt
  · cases hBuilt
  · next hNone =>
    cases hBuilt
    rcases hRequest with rfl | ⟨name, rfl⟩ <;> exact ⟨hDrafted.carried hNone, hDrafted.unique⟩

end ExportRequest

-- ---------------------------------------------------------------------------
-- Active exports
-- ---------------------------------------------------------------------------

/-- Records of exports carry requests, and no two active ones the same consumer's text. -/
structure Store.ExportsApart (s : Store) : Prop where
  carried : ∀ x ∈ s.records, x.jobKey = ExportRequest.jobKey →
    ∃ r : ExportRequest, r.Carried x.arguments
  unique : s.UniqueOn ExportRequest.jobKey [ExportRequest.consumerArg]

theorem Store.exportsApart_empty : Store.empty.ExportsApart := by
  refine ⟨fun x hx => ?_, fun x hx => ?_⟩ <;> cases hx

/-- Requests that carry the same consumer's text agree on it. -/
theorem ExportRequest.agree_of_consumer_eq {r r' : ExportRequest} {args args' : Arguments}
    (h : r.Carried args) (h' : r'.Carried args') (hSame : r.consumer = r'.consumer) :
    args.Agree [consumerArg] args' := by
  intro name hName
  cases List.mem_singleton.mp hName
  refine ⟨_, _, h.consumer, h'.consumer, ?_⟩
  rw [hSame]
  exact beq_self_eq_true r'.consumer

namespace System

variable {δ : Type} {s u : System δ} {e : Event} {events : List Event}

/-- Is every request for the export that an observer saw admitted one that was made for it? -/
def AskExports (admitted : List (Admission × JobRecord)) : Prop :=
  ∀ x ∈ admitted, x.1.request.jobKey = ExportRequest.jobKey →
    ∃ r : ExportRequest, r.Makes x.1.request

theorem AskExports.unique {admitted : List (Admission × JobRecord)} (h : AskExports admitted) :
    AskUnique ExportRequest.jobKey [ExportRequest.consumerArg] admitted := by
  intro x hx hKey
  obtain ⟨r, hMakes⟩ := h x hx hKey
  exact hMakes.carried.2

theorem exportsApart_step (hClear : s.Clear)
    (hFormed : ∀ {i : Nat} {th}, s.threads[i]? = some th → th.Formed)
    (hAsk : AskExports (s.admissions e)) (h : s.realm.store.ExportsApart)
    (hStep : s.step e = some u) : u.realm.store.ExportsApart := by
  refine ⟨fun x' hx' hKey => ?_, unique_step hClear hFormed hAsk.unique h.unique hStep⟩
  rcases changes_of_step hStep hx' with ⟨x, hx, hChanges⟩ | ⟨a, hAdmitted⟩
  · rw [hChanges.sameRun.arguments]
    exact h.carried x hx (hChanges.sameRun.jobKey ▸ hKey)
  · obtain ⟨i, cue, th, -, hAt, hCreating, -⟩ := creating_of_mem_admissions hAdmitted
    obtain ⟨id, now, rfl⟩ := hFormed hAt a _ x' hCreating rfl
    obtain ⟨r, hMakes⟩ := hAsk _ hAdmitted hKey
    exact ⟨r, hMakes.carried.1⟩

theorem exportsApart_of_run {r : Realm δ} (hRun : (ofRealm r).run events = some u)
    (hStart : r.store.ExportsApart) (hAsk : AskExports ((ofRealm r).trail admissions events)) :
    u.realm.store.ExportsApart := by
  refine run_induction (motive := fun events u =>
    AskExports ((ofRealm r).trail admissions events) → u.realm.store.ExportsApart) hRun
    (fun _ => hStart) ?_ hAsk
  intro before t e v hBefore hStep ih hAsk
  rw [trail_concat hBefore] at hAsk
  exact exportsApart_step (clear_of_run hBefore) (made_of_run hBefore)
    (fun x hx => hAsk x (List.mem_append_right _ hx))
    (ih fun x hx => hAsk x (List.mem_append_left _ hx)) hStep

/-- Two exports that are active at a time, in a realm where every request for one was made for it,
carry different texts for their consumers. They go to one folder exactly if the texts are the same
but for the blanks around them, and never if neither text has any. -/
theorem exports_apart_of_run {r : Realm δ} (hRun : (ofRealm r).run events = some u)
    (hStart : r.store.ExportsApart) (hAsk : AskExports ((ofRealm r).trail admissions events)) :
    ∀ x ∈ u.realm.store.records, ∀ y ∈ u.realm.store.records, x ≠ y → x.isActive = true →
      y.isActive = true → x.jobKey = ExportRequest.jobKey → y.jobKey = ExportRequest.jobKey →
      ∃ a b : ExportRequest, ExportRequest.ofArguments x.arguments = .ok a ∧
        ExportRequest.ofArguments y.arguments = .ok b ∧ a.consumer ≠ b.consumer ∧
        ∀ (root : String) (rootExists : Bool) (now now' : Instant) (fresh fresh' : Uuid)
            (m m' : Manifest),
          Manifest.make root rootExists now fresh a = .ok m →
          Manifest.make root rootExists now' fresh' b = .ok m' →
            (m.folder = m'.folder ↔ Text.trimmed a.consumer = Text.trimmed b.consumer) ∧
            (Text.trimmed a.consumer = a.consumer → Text.trimmed b.consumer = b.consumer →
              m.folder ≠ m'.folder) := by
  intro x hx y hy hNe hxActive hyActive hxKey hyKey
  have hApart := exportsApart_of_run hRun hStart hAsk
  obtain ⟨a, ha⟩ := hApart.carried x hx hxKey
  obtain ⟨b, hb⟩ := hApart.carried y hy hyKey
  have hTexts : a.consumer ≠ b.consumer := fun hSame =>
    hApart.unique x hx y hy hNe hxActive hyActive hxKey hyKey
      (ExportRequest.agree_of_consumer_eq ha hb hSame)
  refine ⟨a, b, ExportRequest.ofArguments_of_carried ha, ExportRequest.ofArguments_of_carried hb,
    hTexts, fun root rootExists now now' fresh fresh' m m' hm hm' => ?_⟩
  have hFolders := Manifest.folder_eq_iff hm hm'
  refine ⟨hFolders, fun ha hb hFolder => hTexts ?_⟩
  rw [← ha, ← hb]
  exact hFolders.mp hFolder

/-- A request for an export of a consumer. -/
def exportOf (consumer : String) : JobRequest :=
  let draft := ({ consumer } : ExportRequest).draft "owner" none default
  { jobKey := draft.jobKey, name := draft.name.getD "", group := draft.group,
    arguments := draft.arguments, metadata := draft.metadata, constraints := draft.constraints,
    retryPolicy := draft.retryPolicy, trigger := draft.trigger }

theorem makes_exportOf (consumer : String) :
    ({ consumer } : ExportRequest).Makes (exportOf consumer) := by
  obtain ⟨draft, hDraft⟩ :
      ∃ draft, draft = ({ consumer } : ExportRequest).draft "owner" none default := ⟨_, rfl⟩
  have hNone : draft.error = none := by
    rw [hDraft]
    rfl
  have hNamed : ∃ name, draft.name = some name := by
    rw [hDraft]
    exact ⟨_, rfl⟩
  obtain ⟨name, hName⟩ := hNamed
  have hBuilt : (draft.setAll []).build default = .ok (exportOf consumer) := by
    show draft.build default = _
    rw [exportOf, ← hDraft]
    simp only [Draft.build, hNone, hName, Option.getD_some]
  rw [hDraft] at hBuilt
  exact ⟨"owner", none, default, [], default, exportOf consumer, hBuilt, .inl rfl⟩

/-- Two callers ask for exports of one consumer, the second with blanks around its name. -/
def exportedTwice : List Event :=
  let advance (i n : Nat) : Event := .advance i { now := ⟨n, 0⟩, fresh := ⟨BitVec.ofNat 128 n⟩ }
  [.call (.submit (exportOf "c-1")), advance 0 1, advance 0 2, advance 0 3, advance 0 4,
    advance 0 5, advance 0 6,
    .call (.submit (exportOf " c-1 ")), advance 1 7, advance 1 8, advance 1 9, advance 1 10,
    advance 1 11, advance 1 12]

/-- A realm that knows the export. -/
def exporting : Realm Task :=
  .make default ⟨Dict.empty.insert ExportRequest.jobKey .exportManifest⟩ Store.empty

/-- Both requests were made for exports. -/
theorem askExports_exportedTwice :
    AskExports ((ofRealm exporting).trail admissions exportedTwice) := by
  have hRequests : ((ofRealm exporting).trail admissions exportedTwice).map (·.1.request) =
      [exportOf "c-1", exportOf " c-1 "] := by
    with_unfolding_all rfl
  intro x hx _
  have hMem : x.1.request ∈ [exportOf "c-1", exportOf " c-1 "] :=
    hRequests ▸ List.mem_map_of_mem hx
  rcases List.mem_cons.mp hMem with hFirst | hSecond
  · exact ⟨_, hFirst ▸ makes_exportOf "c-1"⟩
  · exact ⟨_, List.mem_singleton.mp hSecond ▸ makes_exportOf " c-1 "⟩

/-- What each of the two runs exports. -/
theorem active_exportedTwice :
    ∃ u x y, (ofRealm exporting).run exportedTwice = some u ∧ u.realm.store.records = [x, y] ∧
      x ≠ y ∧
      (x.isActive = true ∧ x.jobKey = ExportRequest.jobKey ∧
        ExportRequest.ofArguments x.arguments = .ok { consumer := "c-1" }) ∧
      y.isActive = true ∧ y.jobKey = ExportRequest.jobKey ∧
        ExportRequest.ofArguments y.arguments = .ok { consumer := " c-1 " } := by
  have hEnd : ((ofRealm exporting).run exportedTwice).map (fun u =>
      u.realm.store.records.map fun x => (x.id, x.isActive, x.jobKey,
        (ExportRequest.ofArguments x.arguments).toOption)) =
      some [(⟨⟨3⟩⟩, true, ExportRequest.jobKey, some { consumer := "c-1" }),
        (⟨⟨9⟩⟩, true, ExportRequest.jobKey, some { consumer := " c-1 " })] := by
    decide +kernel
  have hRead : ∀ {args : Arguments} {r : ExportRequest},
      (ExportRequest.ofArguments args).toOption = some r →
        ExportRequest.ofArguments args = .ok r := by
    intro args r h
    cases hArgs : ExportRequest.ofArguments args <;> rw [hArgs] at h <;> cases h
    rfl
  obtain ⟨u, hRun, hSeen⟩ := Option.map_eq_some_iff.mp hEnd
  obtain ⟨x, rest, hRecords, hx, hRest⟩ := List.map_eq_cons_iff.mp hSeen
  obtain ⟨y, more, rfl, hy, hMore⟩ := List.map_eq_cons_iff.mp hRest
  cases List.map_eq_nil_iff.mp hMore
  simp only [Prod.mk.injEq] at hx hy
  refine ⟨u, x, y, hRun, hRecords, fun hSame => ?_, ⟨hx.2.1, hx.2.2.1, hRead hx.2.2.2⟩, hy.2.1,
    hy.2.2.1, hRead hy.2.2.2⟩
  have hIds := hx.1.symm.trans ((congrArg JobRecord.id hSame).trans hy.1)
  exact absurd hIds (by decide)

theorem exports_apart_of_run_exportedTwice :
    ∃ u x y, (ofRealm exporting).run exportedTwice = some u ∧ x ∈ u.realm.store.records ∧
      y ∈ u.realm.store.records ∧ x ≠ y ∧
      ∃ a b : ExportRequest, ExportRequest.ofArguments x.arguments = .ok a ∧
        ExportRequest.ofArguments y.arguments = .ok b ∧ a.consumer ≠ b.consumer := by
  obtain ⟨u, x, y, hRun, hRecords, hNe, hx, hy⟩ := active_exportedTwice
  have hMem : x ∈ u.realm.store.records ∧ y ∈ u.realm.store.records := by
    rw [hRecords]
    exact ⟨List.mem_cons_self, List.mem_cons_of_mem x List.mem_cons_self⟩
  obtain ⟨a, b, ha, hb, hTexts, -⟩ := exports_apart_of_run hRun Store.exportsApart_empty
    askExports_exportedTwice x hMem.1 y hMem.2 hNe hx.1 hy.1 hx.2.1 hy.2.1
  exact ⟨u, x, y, hRun, hMem.1, hMem.2, hNe, a, b, ha, hb, hTexts⟩

/-- Two exports of one consumer are active at a time, and go to one folder: the constraint that
keeps them apart compares the texts of the requests, and the exporter drops the blanks. -/
theorem consumer_exported_twice :
    AskExports ((ofRealm exporting).trail admissions exportedTwice) ∧
      ∃ u x y, (ofRealm exporting).run exportedTwice = some u ∧ u.realm.store.records = [x, y] ∧
        x ≠ y ∧ x.isActive = true ∧ y.isActive = true ∧ x.jobKey = ExportRequest.jobKey ∧
        y.jobKey = ExportRequest.jobKey ∧
        ∃ a b : ExportRequest, ExportRequest.ofArguments x.arguments = .ok a ∧
          ExportRequest.ofArguments y.arguments = .ok b ∧
          ∃ m m' : Manifest, Manifest.make "exports" true ⟨20, 0⟩ ⟨1⟩ a = .ok m ∧
            Manifest.make "exports" true ⟨21, 0⟩ ⟨2⟩ b = .ok m' ∧ m.folder = m'.folder := by
  obtain ⟨u, x, y, hRun, hRecords, hNe, hx, hy⟩ := active_exportedTwice
  have hName : Manifest.folderName? "c-1" = some "c-1" := by decide +kernel
  have hName' : Manifest.folderName? " c-1 " = some "c-1" := by decide +kernel
  refine ⟨askExports_exportedTwice, u, x, y, hRun, hRecords, hNe, hx.1, hy.1, hx.2.1, hy.2.1, _, _,
    hx.2.2, hy.2.2, ?_⟩
  simp only [Manifest.make, hName, hName', Bool.not_true, Bool.false_eq_true, if_false]
  exact ⟨_, _, rfl, rfl, rfl⟩

end System

end BackgroundJobs
