import ContentStore.Proofs.Content.Conformance
import ContentStore.Proofs.Engine.EndsIn
import ContentStore.Proofs.Engine.MirroredDocuments

/-!
# Why an entity is not created

The errors that the creation of an entity can end in, each with what was found out when it arose.
-/

namespace ContentStore

/-- Why a category is not created: its parent is missing, or the store refuses. -/
inductive CategoryError (committed : Tables) (before : Work) (parentId : Option CollectionCategoryId) :
    EngineError → Prop where
  | parent {id : CollectionCategoryId} (named : parentId = some id)
      (missing : before.get? committed .collectionCategory id = none) :
      CategoryError committed before parentId (.categoryNotFound id.text)
  | refused {refusal : StoreError} : CategoryError committed before parentId (.refused refusal)

/-- Why a collection is not created: its schema cannot be used or has faults, what its settings name is
missing and not pending, or the store refuses. -/
inductive CollectionError (committed : Tables) (before : Work) (pending : Pending)
    (settings : CollectionSettings) (schema : Schema) : EngineError → Prop where
  | broken {e : StructureError} (unusable : schema.collectionFaults = .error e) :
      CollectionError committed before pending settings schema (.brokenSchema e)
  | faulty {faults : List SchemaFault} (found : schema.collectionFaults = .ok faults)
      (some : faults ≠ []) : CollectionError committed before pending settings schema
        (.collectionSchemaNotValid (faults.map SchemaFault.issue))
  | category {id : CollectionCategoryId} (named : settings.categoryId = some id)
      (missing : before.get? committed .collectionCategory id = none) :
      CollectionError committed before pending settings schema (.categoryNotFound id.text)
  | app {id : AppId} (named : settings.defaultAppId = some id) (notPending : id ∉ pending.apps)
      (missing : before.get? committed .app id = none) :
      CollectionError committed before pending settings schema (.appNotFound id.text)
  | refused {refusal : StoreError} :
      CollectionError committed before pending settings schema (.refused refusal)

/-- Why an app is not created: a target is missing and not pending, or the store refuses. -/
inductive AppError (committed : Tables) (before : Work) (pending : Pending)
    (targets : List CollectionId) : EngineError → Prop where
  | target {id : CollectionId} (named : id ∈ targets) (notPending : id ∉ pending.collections)
      (missing : before.get? committed .collection id = none) :
      AppError committed before pending targets (.collectionNotFound id.text)
  | refused {refusal : StoreError} : AppError committed before pending targets (.refused refusal)

/-- Why a document is not created: the schema of its collection cannot be used, its content has issues,
something that the content refers to is not found, or the store refuses. -/
inductive DocumentError (validator : Validator) (committed : Tables) (before : Work) (pending : Pending)
    (id : DocumentId) (collection : Collection) (content : Json) : EngineError → Prop where
  | broken {e : StructureError} (unusable : collection.schema.checkStructure ≠ .ok ()) :
      DocumentError validator committed before pending id collection content (.brokenSchema e)
  | notValid {issues : List Issue} (found : validator.validate collection.schema content = .ok issues)
      (some : issues ≠ []) : DocumentError validator committed before pending id collection content
        (.documentContentNotValid collection.id issues)
  | references {visits : List Visit} {missing : List DocumentReference}
      (walked : collection.schema.visitContent content = .ok visits)
      (held : ∀ reference ∈ missing, reference ∈ visits.filterMap Visit.documentReference?)
      (lost : ∀ reference ∈ missing,
        before.finds committed pending id collection.id reference = false) :
      DocumentError validator committed before pending id collection content
        (.referencedDocumentsNotFound missing)
  | files {ids : List String} :
      DocumentError validator committed before pending id collection content (.filesNotFound ids)
  | refused {refusal : StoreError} :
      DocumentError validator committed before pending id collection content (.refused refusal)

namespace Operation

variable {committed : Tables} {before : Work} {errors : EngineError → Prop}

theorem endsIn_requirePresent {kind : Kind} {id : RealId kind} {e : EngineError}
    (h : before.get? committed kind id = none → errors e) :
    EndsIn (do unless ← present kind id do throw e) committed before errors
      fun _ after => after = before := by
  refine (EndsIn.of_reads (Reads.present kind id)).bind fun found same hfound => ?_
  obtain ⟨rfl, rfl⟩ := hfound
  refine .ite (fun _ => .pure rfl) fun hnone => .throw (h ?_)
  simpa using hnone

theorem endsIn_requireCategory {id : Option CollectionCategoryId}
    (h : ∀ found, id = some found → before.get? committed .collectionCategory found = none →
      errors (.categoryNotFound found.text)) :
    EndsIn (requireCategory id) committed before errors fun _ after => after = before := by
  cases id with
  | none => exact .pure rfl
  | some found => exact endsIn_requirePresent (h found rfl)

theorem endsIn_requireCollection {pending : Pending} {id : CollectionId}
    (h : id ∉ pending.collections → before.get? committed .collection id = none →
      errors (.collectionNotFound id.text)) :
    EndsIn (requireCollection pending id) committed before errors fun _ after => after = before := by
  unfold requireCollection
  refine .ite (fun _ => .pure rfl) fun hpending => endsIn_requirePresent (h ?_)
  simpa using hpending

theorem endsIn_requireApp {pending : Pending} {id : Option AppId}
    (h : ∀ found, id = some found → found ∉ pending.apps → before.get? committed .app found = none →
      errors (.appNotFound found.text)) :
    EndsIn (requireApp pending id) committed before errors fun _ after => after = before := by
  cases id with
  | none => exact .pure rfl
  | some found =>
      refine .ite (fun _ => .pure rfl) fun hpending => endsIn_requirePresent (h found rfl ?_)
      simpa using hpending

theorem endsIn_newCategory (name icon : String) (parentId : Option CollectionCategoryId) :
    EndsIn (newCategory name icon parentId) committed before (CategoryError committed before parentId)
      fun category after => before.createCategory name icon parentId = (.ok category, after) := by
  refine (endsIn_requireCategory fun _ hnamed hmissing => .parent hnamed hmissing).bind
    fun _ same hsame => ?_
  subst hsame
  exact endsIn_createCategory name icon parentId fun _ => .refused

theorem endsIn_newCollection (pending : Pending) (id : CollectionId) (settings : CollectionSettings)
    (schema : Schema) (versionSettings : VersionSettings) :
    EndsIn (newCollection pending id settings schema versionSettings) committed before
      (CollectionError committed before pending settings (schema.resolveSelf id)) fun _ _ => True := by
  refine (EndsIn.ofExcept fun _ he => .broken he).bind fun faults same hfaults => ?_
  obtain ⟨hfaults, rfl⟩ := hfaults
  refine .ite (fun _ => ?_) fun hsome => .throw_bind (.faulty hfaults (by simpa using hsome))
  refine (endsIn_requireCategory fun _ hnamed hmissing => .category hnamed hmissing).bind
    fun _ same hsame => ?_
  subst hsame
  refine (endsIn_requireApp fun _ hnamed hpending hmissing => .app hnamed hpending hmissing).bind
    fun _ same hsame => ?_
  subst hsame
  refine endsIn_now.bind fun time same hsame => ?_
  obtain ⟨-, rfl⟩ := hsame
  exact (endsIn_insert .collection _ fun _ => .refused).answer fun _ _ _ => trivial

theorem endsIn_newApp (pending : Pending) (id : AppId) (appType name : String)
    (targets : List CollectionId) (files : SortedMap String String) :
    EndsIn (newApp pending id appType name targets files) committed before
      (AppError committed before pending targets) fun _ _ => True := by
  refine (EndsIn.forM_keeping (· = before) rfl fun target htarget middle hmiddle => ?_).bind
    fun _ same hsame => ?_
  · subst hmiddle
    exact endsIn_requireCollection fun hpending hmissing => .target htarget hpending hmissing
  · subst hsame
    refine endsIn_now.bind fun time same hsame => ?_
    obtain ⟨-, rfl⟩ := hsame
    exact (endsIn_insert .app _ fun _ => .refused).answer fun _ _ _ => trivial

theorem endsIn_missingReferences {holds : DocumentReference → Operation Bool}
    {view : DocumentReference → Work → Bool} (h : ∀ r, Reads (holds r) committed (view r))
    (references : List DocumentReference) :
    EndsIn (missingReferences holds references) committed before errors fun missing after =>
      (∀ r ∈ missing, r ∈ references ∧ view r before = false) ∧ after = before := by
  refine (EndsIn.of_reads (reads_missingReferences h references)).mono (fun _ he => he) ?_
  rintro missing after ⟨rfl, rfl⟩
  refine ⟨fun r hr => ?_, rfl⟩
  simpa using mem_eachOnce.1 hr

/-- Once its content has been walked, a document that is not stored was refused. -/
theorem endsIn_storeDocument {id : DocumentId} {collection : Collection} {content : Json}
    {visits : List Visit} (hv : collection.schema.visitContent content = .ok visits) :
    EndsIn (storeDocument id collection content visits) committed before
      (fun e => ∃ refusal, e = .refused refusal) fun _ _ => True := by
  refine (EndsIn.of_decides (decides_filesToStore _)).bind fun files given _ => ?_
  refine (EndsIn.forM_keeping (fun _ => True) trivial fun file _ middle _ =>
    (endsIn_insert .file file fun refusal => ⟨refusal, rfl⟩).mono (fun _ he => he)
      fun _ _ _ => trivial).bind fun _ stored _ => ?_
  obtain ⟨result, hplaced⟩ := Schema.exists_changeContent_of_visitContent hv placeFiles
    (files.map StoredFile.reference)
  refine (EndsIn.ofExcept fun e he => ?_).bind fun placed _ _ => ?_
  · cases he.symm.trans hplaced
  refine endsIn_now.bind fun time _ _ => ?_
  exact (endsIn_insert .document _ fun refusal => ⟨refusal, rfl⟩).answer fun _ _ _ => trivial

theorem endsIn_newDocument (validator : Validator) (pending : Pending) (id : DocumentId)
    (collection : Collection) (content : Json) :
    EndsIn (newDocument validator pending id collection content) committed before
      (DocumentError validator committed before pending id collection content) fun _ _ => True := by
  refine (EndsIn.ofExcept ?_).bind fun issues same hissues => ?_
  · rintro e he
    refine .broken fun hs => ?_
    obtain ⟨issues, hissues⟩ := Validator.exists_validate (v := validator) hs content
    cases he.symm.trans hissues
  obtain ⟨hissues, rfl⟩ := hissues
  refine .ite (fun _ => ?_) fun hsome => .throw_bind (.notValid hissues (by simpa using hsome))
  refine (EndsIn.ofExcept ?_).bind fun visits next hvisits => ?_
  · rintro e he
    refine .broken fun hs => ?_
    obtain ⟨visits, hvisits⟩ := Schema.exists_visitContent hs content
    cases he.symm.trans hvisits
  obtain ⟨hvisits, rfl⟩ := hvisits
  refine (endsIn_missingReferences (reads_referenceHolds pending id collection.id) _).bind
    fun missing same hmissing => ?_
  obtain ⟨hmissing, rfl⟩ := hmissing
  refine .ite (fun _ => ?_) fun _ => .throw_bind (.references hvisits
    (fun reference hr => (hmissing reference hr).1) fun reference hr => (hmissing reference hr).2)
  refine (EndsIn.of_reads (reads_missingFiles _)).bind fun lost same hlost => ?_
  obtain ⟨-, rfl⟩ := hlost
  refine .ite (fun _ => ?_) fun _ => .throw_bind .files
  refine (@endsIn_storeDocument _ _ id collection content visits hvisits).mono ?_ fun _ _ h => h
  rintro e ⟨refusal, rfl⟩
  exact .refused

end Operation

end ContentStore
