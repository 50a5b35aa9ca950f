import ContentStore.Proofs.Content.Positions
import ContentStore.Proofs.Engine.Failures
import ContentStore.Proofs.Engine.Renumbered

/-!
# References to what is not there

A document is not created if its content refers to documents that are not stored, or to files that are
not. The error lists all of these documents in the order in which the content first refers to them or, if
every document is there, all of these files. If everything is there, only the store itself can refuse.
-/

namespace ContentStore

/-! ## What content refers to -/

namespace Schema

variable {schema : Schema} {content : Json} {visits : List Visit}

/-- At a position content refers to a document: the schema has a document reference there, and the value
holds its two texts. -/
def RefersAt (schema : Schema) (content : Json) (path : Path) (reference : DocumentReference) : Prop :=
  ∃ root fixed members, schema.types.get? schema.rootType = some root ∧
    schema.Types root content path (.documentRef fixed) (.object members) ∧
    members.lookup "collectionId" = some (.string reference.collectionId) ∧
    members.lookup "documentId" = some (.string reference.documentId)

/-- At a position content refers to a file by a text: the schema has a file there, and the value is the
reference to a stored one. -/
def NamesFileAt (schema : Schema) (content : Json) (path : Path) (text : String) : Prop :=
  ∃ root accept value name mimeType, schema.types.get? schema.rootType = some root ∧
    schema.Types root content path (.file accept) value ∧
    FileValue.ofJson? value = some (.stored text name mimeType)

/-- Content refers to one document at a position before all those where it refers to another one. -/
def RefersFirst (schema : Schema) (content : Json) (first second : DocumentReference) : Prop :=
  ∃ root path, schema.types.get? schema.rootType = some root ∧ schema.RefersAt content path first ∧
    ∀ other, schema.RefersAt content other second → schema.Precedes root path other

theorem refersAt_iff (hs : schema.checkStructure = .ok ()) (hv : schema.visitContent content = .ok visits)
    {path : Path} {reference : DocumentReference} : schema.RefersAt content path reference ↔
      ∃ visit ∈ visits, visit.path = path ∧ visit.documentReference? = some reference := by
  obtain ⟨root, hroot, hvisits⟩ := visitContent_eq_ok_iff.1 hv
  constructor
  · rintro ⟨other, fixed, members, hother, htypes, hcollection, hdocument⟩
    cases hroot.symm.trans (root_eq_ok_iff.2 hother)
    refine ⟨⟨.documentRef fixed, path, .object members⟩, ?_, rfl, ?_⟩
    · exact (mem_visits_iff_types hs hroot hvisits).2 ⟨rfl, Json.noConfusion, htypes⟩
    · exact Visit.documentReference?_eq_some_iff.2 ⟨fixed, members, rfl, rfl, hcollection, hdocument⟩
  · rintro ⟨⟨d, path, value⟩, hvisit, rfl, href⟩
    obtain ⟨fixed, members, hd, hvalue, hcollection, hdocument⟩ :=
      Visit.documentReference?_eq_some_iff.1 href
    cases hd
    cases hvalue
    obtain ⟨-, -, htypes⟩ := (mem_visits_iff_types hs hroot hvisits).1 hvisit
    exact ⟨root, fixed, members, root_eq_ok_iff.1 hroot, htypes, hcollection, hdocument⟩

theorem exists_refersAt_iff (hs : schema.checkStructure = .ok ())
    (hv : schema.visitContent content = .ok visits) {reference : DocumentReference} :
    (∃ path, schema.RefersAt content path reference) ↔
      reference ∈ visits.filterMap Visit.documentReference? := by
  simp only [refersAt_iff hs hv, List.mem_filterMap]
  exact ⟨fun ⟨_, visit, hvisit, _, href⟩ => ⟨visit, hvisit, href⟩,
    fun ⟨visit, hvisit, href⟩ => ⟨visit.path, visit, hvisit, rfl, href⟩⟩

theorem namesFileAt_iff (hs : schema.checkStructure = .ok ())
    (hv : schema.visitContent content = .ok visits) {path : Path} {text : String} :
    schema.NamesFileAt content path text ↔
      ∃ visit ∈ visits, visit.path = path ∧ visit.storedFileId? = some text := by
  obtain ⟨root, hroot, hvisits⟩ := visitContent_eq_ok_iff.1 hv
  constructor
  · rintro ⟨other, accept, value, name, mimeType, hother, htypes, hfile⟩
    cases hroot.symm.trans (root_eq_ok_iff.2 hother)
    have hn : value ≠ .null := by
      rintro rfl
      cases hfile
    refine ⟨⟨.file accept, path, value⟩, ?_, rfl, ?_⟩
    · exact (mem_visits_iff_types hs hroot hvisits).2 ⟨rfl, hn, htypes⟩
    · exact Visit.storedFileId?_eq_some.2 ⟨rfl, name, mimeType, hfile⟩
  · rintro ⟨⟨d, path, value⟩, hvisit, rfl, htext⟩
    obtain ⟨hd, name, mimeType, hfile⟩ := Visit.storedFileId?_eq_some.1 htext
    obtain ⟨-, -, htypes⟩ := (mem_visits_iff_types hs hroot hvisits).1 hvisit
    cases d with
    | file accept => exact ⟨root, accept, value, name, mimeType, root_eq_ok_iff.1 hroot, htypes, hfile⟩
    | _ => cases hd

theorem exists_namesFileAt_iff (hs : schema.checkStructure = .ok ())
    (hv : schema.visitContent content = .ok visits) {text : String} :
    (∃ path, schema.NamesFileAt content path text) ↔ text ∈ visits.filterMap Visit.storedFileId? := by
  simp only [namesFileAt_iff hs hv, List.mem_filterMap]
  exact ⟨fun ⟨_, visit, hvisit, _, htext⟩ => ⟨visit, hvisit, htext⟩,
    fun ⟨visit, hvisit, htext⟩ => ⟨visit.path, visit, hvisit, rfl, htext⟩⟩

/-- Of two references, content refers first to the one that the walk finds first. -/
theorem refersFirst_of_eq_append (hs : schema.checkStructure = .ok ())
    (hv : schema.visitContent content = .ok visits) {first second : DocumentReference}
    (hne : first ≠ second) {before after : List DocumentReference}
    (hfound : visits.filterMap Visit.documentReference? = before ++ first :: after)
    (hsecond : second ∉ before) : schema.RefersFirst content first second := by
  obtain ⟨root, hroot, hvisits⟩ := visitContent_eq_ok_iff.1 hv
  obtain ⟨earlier, later, rfl, rfl, hlater⟩ := List.filterMap_eq_append_iff.1 hfound
  obtain ⟨others, visit, rest, rfl, hothers, hvisit, -⟩ := List.filterMap_eq_cons_iff.1 hlater
  refine ⟨root, visit.path, root_eq_ok_iff.1 hroot, (refersAt_iff hs hv).2 ⟨visit, by simp, rfl, hvisit⟩,
    fun other hother => ?_⟩
  obtain ⟨found, hmem, rfl, href⟩ := (refersAt_iff hs hv).1 hother
  have hrest : found ∈ rest := by
    rcases List.mem_append.1 hmem with hmem | hmem
    · exact absurd (List.mem_filterMap.2 ⟨found, hmem, href⟩) hsecond
    rcases List.mem_append.1 hmem with hmem | hmem
    · cases (hothers found hmem).symm.trans href
    rcases List.mem_cons.1 hmem with rfl | hmem
    · exact absurd (Option.some.inj (hvisit.symm.trans href)) hne
    · exact hmem
  have horder := (List.pairwise_append.1 (List.pairwise_append.1 (pairwise_visits hvisits)).2.1).2.1
  exact (List.pairwise_cons.1 horder).1 found hrest

end Schema

/-! ## What is missing -/

namespace Engine

variable {engine : Engine} {schema : Schema} {content : Json} {visits : List Visit}

/-- The document that a reference names is stored, and in the collection that the reference names. -/
def HasDocument (engine : Engine) (reference : DocumentReference) : Prop :=
  ∃ (id : DocumentId) (document : Document), reference.documentId = id.text ∧
    engine.get? .document id = some document ∧ document.collectionId.text = reference.collectionId

/-- A text is the id of a stored file. -/
def HasFile (engine : Engine) (text : String) : Prop :=
  ∃ (id : FileId) (file : StoredFile), text = id.text ∧ engine.get? .file id = some file

theorem finds_iff {reference : DocumentReference} :
    engine.store.committed.finds reference = true ↔ engine.HasDocument reference := by
  unfold Tables.finds
  constructor
  · intro h
    split at h
    · cases h
    · next id hid =>
        obtain ⟨document, hget, hcollection⟩ := (Option.any_eq_true _ _).1 h
        exact ⟨id, document, RealId.ofText?_eq_some_iff.1 hid, hget, beq_iff_eq.1 hcollection⟩
  · rintro ⟨id, document, htext, hget, hcollection⟩
    have hget : engine.store.committed.get? .document id = some document := hget
    simp only [RealId.ofText?_eq_some_iff.2 htext, hget, Option.any_some, hcollection, beq_self_eq_true]

theorem findsFile_iff {text : String} :
    engine.store.committed.findsFile text = true ↔ engine.HasFile text := by
  unfold Tables.findsFile
  constructor
  · intro h
    split at h
    · cases h
    · next id hid =>
        obtain ⟨file, hget⟩ := Option.isSome_iff_exists.1 h
        exact ⟨id, file, RealId.ofText?_eq_some_iff.1 hid, hget⟩
  · rintro ⟨id, file, htext, hget⟩
    rw [RealId.ofText?_eq_some_iff.2 htext]
    exact Option.isSome_iff_exists.2 ⟨file, hget⟩

/-- Content refers to a document that is not stored in the collection of the reference. -/
def MissesDocument (engine : Engine) (schema : Schema) (content : Json) (reference : DocumentReference) :
    Prop :=
  (∃ path, schema.RefersAt content path reference) ∧ ¬ engine.HasDocument reference

/-- Content names a file by a text that is not the id of a stored file. -/
def MissesFile (engine : Engine) (schema : Schema) (content : Json) (text : String) : Prop :=
  (∃ path, schema.NamesFileAt content path text) ∧ ¬ engine.HasFile text

/-- A list has all references of content to documents that are not stored, each once and in the order in
which the content first refers to them. -/
structure ListsDocuments (engine : Engine) (schema : Schema) (content : Json)
    (missing : List DocumentReference) : Prop where
  exactly : ∀ reference, reference ∈ missing ↔ engine.MissesDocument schema content reference
  once : missing.Nodup
  inOrder : missing.Pairwise (schema.RefersFirst content)

/-- A list has all texts by which content names files that are not stored, each once and sorted. -/
structure ListsFiles (engine : Engine) (schema : Schema) (content : Json) (lost : List String) : Prop where
  exactly : ∀ text, text ∈ lost ↔ engine.MissesFile schema content text
  sorted : lost.Pairwise (· < ·)

theorem ListsDocuments.eq_nil_iff {missing : List DocumentReference}
    (h : engine.ListsDocuments schema content missing) :
    missing = [] ↔ ∀ reference, ¬ engine.MissesDocument schema content reference := by
  simp only [List.eq_nil_iff_forall_not_mem, h.exactly]

theorem ListsFiles.eq_nil_iff {lost : List String} (h : engine.ListsFiles schema content lost) :
    lost = [] ↔ ∀ text, ¬ engine.MissesFile schema content text := by
  simp only [List.eq_nil_iff_forall_not_mem, h.exactly]

theorem listsDocuments_unfound (hs : schema.checkStructure = .ok ())
    (hv : schema.visitContent content = .ok visits) :
    engine.ListsDocuments schema content
      (Operation.unfound engine.store.committed.finds (visits.filterMap Visit.documentReference?)) := by
  have hordered := pairwise_eachOnce ((visits.filterMap Visit.documentReference?).filter fun reference =>
    !engine.store.committed.finds reference)
  refine ⟨fun reference => ?_, hordered.imp And.left, hordered.imp_of_mem ?_⟩
  · rw [MissesDocument, Schema.exists_refersAt_iff hs hv, ← finds_iff, Bool.not_eq_true]
    refine mem_eachOnce.trans (List.mem_filter.trans ?_)
    rw [Bool.not_eq_true']
  · rintro first second - hsecond ⟨hne, before, after, hsplit, hbefore⟩
    -- the references that are found stand between those that are not
    obtain ⟨earlier, later, hreferences, rfl, hlater⟩ := List.filter_eq_append_iff.1 hsplit
    obtain ⟨others, rest, rfl, hothers, -, -⟩ := List.filter_eq_cons_iff.1 hlater
    have hlost := (List.mem_filter.1 (mem_eachOnce.1 hsecond)).2
    refine Schema.refersFirst_of_eq_append hs hv hne
      (hreferences.trans (List.append_assoc earlier others (first :: rest)).symm) fun hmem => ?_
    rcases List.mem_append.1 hmem with hmem | hmem
    · exact hbefore (List.mem_filter.2 ⟨hmem, hlost⟩)
    · exact hothers second hmem hlost

theorem listsFiles_unfoundFiles (hs : schema.checkStructure = .ok ())
    (hv : schema.visitContent content = .ok visits) :
    engine.ListsFiles schema content
      (Operation.unfoundFiles engine.store.committed.findsFile (visits.filterMap Visit.storedFileId?)) where
  exactly text := by
    rw [Operation.unfoundFiles, SortedSet.mem_toList_ofList, List.mem_filter, MissesFile, ← findsFile_iff,
      Schema.exists_namesFileAt_iff hs hv, Bool.not_eq_true, Bool.not_eq_true']
  sorted := by
    have hascending := (SortedSet.ofList ((visits.filterMap Visit.storedFileId?).filter fun text =>
      !engine.store.committed.findsFile text)).ascending
    refine List.pairwise_map.2 (hascending.imp fun h => ?_)
    exact compareOfLessAndEq_eq_lt.1 h

end Engine

/-! ## What is created -/

namespace Engine

variable {engine : Engine} {id : CollectionId} {collection : Collection} {content : Json}
  {visits : List Visit}

/-- A run gives the result of what its operation comes down to. -/
theorem run_result_congr {α : Type} {operation rest : Operation α} {supply : Supply}
    (h : operation engine.store.committed (Work.start engine.store.budget engine.supply) =
      rest engine.store.committed (Work.start engine.store.budget supply)) :
    (engine.run operation).1 = (({ engine with supply } : Engine).run rest).1 := by
  unfold run
  dsimp only
  rw [h]
  generalize rest engine.store.committed (Work.start engine.store.budget supply) = outcome
  obtain ⟨result, work⟩ := outcome
  cases result with
  | error e => rfl
  | ok a => cases hcommit : engine.store.committed.commit work.staged <;> simp only [hcommit]

/-- A document of a collection that is found takes the next id. -/
theorem createDocument_of_found (hc : engine.get? .collection id = some collection) :
    (engine.createDocument id content).1 =
      (({ engine with supply := engine.supply.skip 1 } : Engine).run (Operation.newDocument
        engine.validator {} (engine.supply.fresh .document).1 collection content)).1 := by
  have hstart : (Work.start engine.store.budget engine.supply).staged.MadeBy engine.supply := .empty _
  have hc : engine.store.committed.get? .collection id = some collection := hc
  refine run_result_congr ?_
  rw [Operation.bind_apply, Operation.loadCollection_of_made hstart, hc]
  rfl

/-- Valid content that does not refer to its own document is checked by what the store holds. -/
theorem checked_of_valid (hvalid : engine.validator.validate collection.schema content = .ok [])
    (hv : collection.schema.visitContent content = .ok visits) {work : Work} (hw : work.staged = {})
    {own : DocumentId}
    (hnew : ∀ reference ∈ visits.filterMap Visit.documentReference?, reference.documentId ≠ own.text) :
    Operation.checked engine.validator collection content
        (work.finds engine.store.committed {} own collection.id) (work.findsFile engine.store.committed) =
      Operation.checkedReferences engine.store.committed.finds engine.store.committed.findsFile visits := by
  have hstaged : ∀ {kind} (id : RealId kind), work.staged.get? kind id = none := by
    rintro (_ | _) id <;> rw [hw] <;> rfl
  have hfinds : ∀ reference ∈ visits.filterMap Visit.documentReference?,
      work.finds engine.store.committed {} own collection.id reference =
        engine.store.committed.finds reference := by
    refine fun reference hr => Work.finds_eq fun other hother => ⟨?_, rfl, hstaged other⟩
    rintro rfl
    exact hnew reference hr (RealId.ofText?_eq_some_iff.1 hother)
  have hsame := @Operation.checked_congr engine.validator collection content
    engine.store.committed.finds _ engine.store.committed.findsFile _
    (fun others hothers reference hr => hfinds reference (Except.ok.inj (hv.symm.trans hothers) ▸ hr))
    fun _ _ text _ => Work.findsFile_eq fun other _ => hstaged other
  rw [hsame, Operation.checked, Operation.checkedContent, hvalid, hv]
  rfl

/-- Valid content is checked for what the store has not, and is stored then. -/
theorem createDocument_of_valid (hc : engine.get? .collection id = some collection)
    (hvalid : engine.validator.validate collection.schema content = .ok [])
    (hv : collection.schema.visitContent content = .ok visits)
    (hnew : ∀ reference ∈ visits.filterMap Visit.documentReference?,
      reference.documentId ≠ (engine.supply.fresh .document).1.text) :
    (engine.createDocument id content).1 =
      match Operation.checkedReferences engine.store.committed.finds engine.store.committed.findsFile
          visits with
      | .error e => .error e
      | .ok visits => (({ engine with supply := engine.supply.skip 1 } : Engine).run
          (Operation.storeDocument (engine.supply.fresh .document).1 collection content visits)).1 := by
  let work := Work.start engine.store.budget (engine.supply.skip 1)
  have hmade := Operation.newDocument_eq engine.validator {} (engine.supply.fresh .document).1 collection
    content engine.store.committed work
  rw [checked_of_valid hvalid hv rfl hnew] at hmade
  rw [createDocument_of_found hc]
  cases hfound : Operation.checkedReferences engine.store.committed.finds
      engine.store.committed.findsFile visits with
  | error e => exact run_of_error ⟨work, by rw [hfound] at hmade; exact hmade⟩
  | ok visits => exact run_result_congr (by rw [hfound] at hmade; exact hmade)

/-- The store lets a document of content be written: the ids to come are new, and the budget lets through
the new files of the content and the document. -/
structure Accepts (engine : Engine) (schema : Schema) (content : Json) : Prop where
  newIds : engine.supply.NewFor engine.store.committed
  withinBudget : ∀ visits, schema.visitContent content = .ok visits →
    engine.store.budget.Allows ((visits.filterMap Visit.newFile?).length + 1)

theorem exists_run_storeDocument (h : engine.Accepts collection.schema content)
    (hv : collection.schema.visitContent content = .ok visits) :
    ∃ document, (({ engine with supply := engine.supply.skip 1 } : Engine).run
      (Operation.storeDocument (engine.supply.fresh .document).1 collection content visits)).1 =
        .ok document := by
  let numbered := Numbered.next engine.supply.used ⟨collection, content, visits⟩
  have hskip : (engine.supply.skip 1).NewFor (engine.store.committed ++ ({} : Tables)) :=
    h.newIds.append fun kind e he => by simp at he
  have hfree : (engine.store.committed ++ ({} : Tables)).contains .document
      ((engine.supply.suffix engine.supply.used).toId .document) = false := by
    rw [Tables.append_empty]
    exact h.newIds.free .document _ (Nat.le_refl _)
  have hstored := @Operation.returns_storeDocument engine.store.committed {} (engine.supply.skip 1)
    engine.store.budget numbered (h.withinBudget visits hv) hskip rfl hfree hv
  have hmade := rows_next_madeBy engine.supply ⟨collection, content, visits⟩
  refine ⟨_, congrArg Prod.fst (run_eq_ok_iff.2 ⟨_, hstored, fun kind e he => ?_, rfl⟩)⟩
  rw [Numbered.rows_skip] at he
  exact hmade.not_contains h.newIds e he

/-- What the creation of a document from valid content can come to. -/
inductive Reported (engine : Engine) (schema : Schema) (content : Json) :
    Except EngineError Document → Prop where
  | documents {missing : List DocumentReference} (some : missing ≠ [])
      (lists : engine.ListsDocuments schema content missing) :
      Reported engine schema content (.error (.referencedDocumentsNotFound missing))
  | files {lost : List String} (noDocument : ∀ reference, ¬ engine.MissesDocument schema content reference)
      (some : lost ≠ []) (lists : engine.ListsFiles schema content lost) :
      Reported engine schema content (.error (.filesNotFound lost))
  | refused {refusal : StoreError}
      (noDocument : ∀ reference, ¬ engine.MissesDocument schema content reference)
      (noFile : ∀ text, ¬ engine.MissesFile schema content text)
      (rejected : ¬ engine.Accepts schema content) :
      Reported engine schema content (.error (.refused refusal))
  | created {document : Document}
      (noDocument : ∀ reference, ¬ engine.MissesDocument schema content reference)
      (noFile : ∀ text, ¬ engine.MissesFile schema content text) :
      Reported engine schema content (.ok document)

theorem createDocument_reported (hc : engine.get? .collection id = some collection)
    (hvalid : engine.validator.validate collection.schema content = .ok [])
    (hnew : ∀ path reference, collection.schema.RefersAt content path reference →
      reference.documentId ≠ (engine.supply.fresh .document).1.text) :
    engine.Reported collection.schema content (engine.createDocument id content).1 := by
  obtain ⟨hs, -⟩ := Validator.validate_eq_nil.1 hvalid
  obtain ⟨visits, hv⟩ := Schema.exists_visitContent hs content
  have hdocuments := engine.listsDocuments_unfound hs hv
  have hfiles := engine.listsFiles_unfoundFiles hs hv
  rw [createDocument_of_valid hc hvalid hv fun reference hr =>
    have ⟨path, hpath⟩ := (Schema.exists_refersAt_iff hs hv).2 hr
    hnew path reference hpath]
  unfold Operation.checkedReferences
  cases hmissing : Operation.unfound engine.store.committed.finds
      (visits.filterMap Visit.documentReference?) with
  | cons reference rest =>
      rw [hmissing] at hdocuments
      exact .documents (List.cons_ne_nil _ _) hdocuments
  | nil =>
      have hnone := hdocuments.eq_nil_iff.1 hmissing
      cases hlost : Operation.unfoundFiles engine.store.committed.findsFile
          (visits.filterMap Visit.storedFileId?) with
      | cons text rest =>
          rw [hlost] at hfiles
          exact .files hnone (List.cons_ne_nil _ _) hfiles
      | nil =>
          have hall := hfiles.eq_nil_iff.1 hlost
          dsimp only
          cases hresult : (({ engine with supply := engine.supply.skip 1 } : Engine).run
            (Operation.storeDocument (engine.supply.fresh .document).1 collection content visits)).1 with
          | ok document => exact .created hnone hall
          | error e =>
              obtain ⟨refusal, rfl⟩ := run_fails (Operation.endsIn_storeDocument hv)
                (fun refusal => ⟨refusal, rfl⟩) hresult
              refine .refused hnone hall fun haccepts => ?_
              obtain ⟨document, hdocument⟩ := exists_run_storeDocument haccepts hv
              cases hresult.symm.trans hdocument

/-- Valid content whose references do not name the id that is about to be given is turned down for missing
documents exactly if it refers to one that is not stored in the collection that it names, and the error
lists all of these in the order in which the content first refers to them. Otherwise it is turned down for
missing files exactly if it names a file by a text that is not the id of a stored one, and the error lists
all of these, sorted. Otherwise the document is created, unless the store refuses it, and the store refuses
nothing that is within its budget and comes under new ids. -/
theorem createDocument_reports (engine : Engine) {id : CollectionId} {collection : Collection}
    {content : Json} (hc : engine.get? .collection id = some collection)
    (hvalid : engine.validator.validate collection.schema content = .ok [])
    (hnew : ∀ path reference, collection.schema.RefersAt content path reference →
      reference.documentId ≠ (engine.supply.fresh .document).1.text) :
    let result := (engine.createDocument id content).1
    let missesDocument := ∃ reference, engine.MissesDocument collection.schema content reference
    let missesFile := ∃ text, engine.MissesFile collection.schema content text
    ((∃ missing, result = .error (.referencedDocumentsNotFound missing)) ↔ missesDocument) ∧
    (∀ missing, result = .error (.referencedDocumentsNotFound missing) →
      engine.ListsDocuments collection.schema content missing) ∧
    ((∃ lost, result = .error (.filesNotFound lost)) ↔ ¬ missesDocument ∧ missesFile) ∧
    (∀ lost, result = .error (.filesNotFound lost) → engine.ListsFiles collection.schema content lost) ∧
    ((∃ document, result = .ok document) ∨ (∃ refusal, result = .error (.refused refusal)) ↔
      ¬ missesDocument ∧ ¬ missesFile) ∧
    (¬ missesDocument → ¬ missesFile → engine.Accepts collection.schema content →
      ∃ document, result = .ok document) := by
  intro result missesDocument missesFile
  have hreported : engine.Reported collection.schema content result :=
    createDocument_reported hc hvalid hnew
  clear_value result
  cases hreported with
  | @documents missing some lists =>
      obtain ⟨reference, hreference⟩ := List.exists_mem_of_ne_nil _ some
      have hmisses : missesDocument := ⟨reference, (lists.exactly reference).1 hreference⟩
      simp [hmisses, lists]
  | @files lost noDocument some lists =>
      have hdocuments : ¬ missesDocument := not_exists.2 noDocument
      obtain ⟨text, htext⟩ := List.exists_mem_of_ne_nil _ some
      have hmisses : missesFile := ⟨text, (lists.exactly text).1 htext⟩
      simp [hdocuments, hmisses, lists]
  | refused noDocument noFile rejected =>
      have hdocuments : ¬ missesDocument := not_exists.2 noDocument
      have hfiles : ¬ missesFile := not_exists.2 noFile
      simp [hdocuments, hfiles, rejected]
  | created noDocument noFile =>
      have hdocuments : ¬ missesDocument := not_exists.2 noDocument
      have hfiles : ¬ missesFile := not_exists.2 noFile
      simp [hdocuments, hfiles]

/-- An album by one author of whom nothing is stored with parts by others: the first of them refers to the
stored author in another collection, and to a file that is not there. -/
def scatteredAlbum : Json :=
  let album (collectionId documentId : String) (cover : Json) (parts : List Json) : Json := .object [
    ("author", .object [("collectionId", .string collectionId), ("documentId", .string documentId)]),
    ("cover", cover), ("parts", .array parts)]
  album "Collection_a" "Document_b" .null [
    album "Collection_b" "Document_aa" (fileReference "File_b" "b.png" "image/png") [],
    album "Collection_a" "Document_aa" .null [], album "Collection_a" "Document_b" .null []]

/-- On the shelf the scattered album misses two authors, though it refers to one of them twice, and an album
with a new cover takes the two writes that are left. -/
theorem createDocument_reports_shelf :
    let limited := shelf.limitWrites (some 2)
    let id := (Supply.growing.suffix 0).toId .collection
    let missing : List DocumentReference :=
      [⟨"Collection_a", "Document_b"⟩, ⟨"Collection_b", "Document_aa"⟩]
    let covered := shelfAlbum (.object [("content", .array []), ("mimeType", .string "image/png"),
      ("name", .string "one.png")])
    (∃ collection, limited.get? .collection id = some collection ∧ collection.schema = Schema.albums) ∧
    (∀ content ∈ [scatteredAlbum, covered],
      limited.validator.validate Schema.albums content = .ok [] ∧
      ∀ path reference, Schema.albums.RefersAt content path reference →
        reference.documentId ≠ (limited.supply.fresh .document).1.text) ∧
    (limited.createDocument id scatteredAlbum).1 = .error (.referencedDocumentsNotFound missing) ∧
    limited.ListsDocuments Schema.albums scatteredAlbum missing ∧
    ∃ document, (limited.createDocument id covered).1 = .ok document := by
  intro limited id missing covered
  have hs : Schema.albums.checkStructure = .ok () := by decide +kernel
  have hvalid : ∀ content ∈ [scatteredAlbum, covered],
      limited.validator.validate Schema.albums content = .ok [] := by
    decide +kernel
  have hfresh : ∀ content ∈ [scatteredAlbum, covered],
      ((Schema.albums.visitContent content).map fun visits =>
        (visits.filterMap Visit.documentReference?).all fun reference =>
          reference.documentId != (limited.supply.fresh .document).1.text) = .ok true := by
    decide +kernel
  have hnew : ∀ content ∈ [scatteredAlbum, covered], ∀ path reference,
      Schema.albums.RefersAt content path reference →
        reference.documentId ≠ (limited.supply.fresh .document).1.text := by
    intro content hcontent path reference hrefers
    obtain ⟨visits, hv, hall⟩ := map_eq_ok_iff.1 (hfresh content hcontent)
    have hmem := (Schema.exists_refersAt_iff hs hv).1 ⟨path, hrefers⟩
    simpa using List.all_eq_true.1 hall reference hmem
  have hscattered : scatteredAlbum ∈ [scatteredAlbum, covered] := .head _
  have hcovered : covered ∈ [scatteredAlbum, covered] := .tail _ (.head _)
  obtain ⟨collection, hc, hschema⟩ : ∃ collection, limited.get? .collection id = some collection ∧
      collection.schema = Schema.albums := ⟨_, rfl, rfl⟩
  have hturned : (match (limited.createDocument id scatteredAlbum).1 with
      | .error e => some e
      | .ok _ => none) = some (.referencedDocumentsNotFound missing) := by
    decide +kernel
  have hresult : (limited.createDocument id scatteredAlbum).1 =
      .error (.referencedDocumentsNotFound missing) := by
    generalize (limited.createDocument id scatteredAlbum).1 = result at hturned ⊢
    cases result <;> cases hturned
    rfl
  obtain ⟨visits, hv, hnothing⟩ : ∃ visits, Schema.albums.visitContent covered = .ok visits ∧
      (Operation.unfound limited.store.committed.finds (visits.filterMap Visit.documentReference?),
        Operation.unfoundFiles limited.store.committed.findsFile (visits.filterMap Visit.storedFileId?),
        (visits.filterMap Visit.newFile?).length) = ([], [], 1) := by
    refine map_eq_ok_iff.1 ?_
    decide +kernel
  obtain ⟨hmissing, hfile⟩ := Prod.mk.inj hnothing
  obtain ⟨hlost, hcount⟩ := Prod.mk.inj hfile
  have haccepts : limited.Accepts Schema.albums covered := by
    refine ⟨newFor_shelf, fun others hothers left hleft => ?_⟩
    cases hv.symm.trans hothers
    cases hleft
    rw [hcount]
  rw [← hschema] at hvalid hnew hs hv haccepts ⊢
  obtain ⟨-, hlists, -⟩ := createDocument_reports limited hc (hvalid _ hscattered) (hnew _ hscattered)
  obtain ⟨-, -, -, -, -, hcreated⟩ :=
    createDocument_reports limited hc (hvalid _ hcovered) (hnew _ hcovered)
  refine ⟨⟨collection, hc, rfl⟩, fun content hcontent => ⟨hvalid content hcontent, hnew content hcontent⟩,
    hresult, hlists _ hresult, hcreated ?_ ?_ haccepts⟩
  · exact not_exists.2 ((limited.listsDocuments_unfound hs hv).eq_nil_iff.1 hmissing)
  · exact not_exists.2 ((limited.listsFiles_unfoundFiles hs hv).eq_nil_iff.1 hlost)

end Engine

end ContentStore
