import ContentStore.Proofs.Engine.FilesStored

/-!
# What a batch of documents looks like

The documents of a batch refer to one another by position, in any order and across collections. A batch that
succeeds has each such reference replaced by the id of the document at the position. One with a reference
that names its collection by a proto id, a position outside the batch, or a document of the batch in another
collection does not succeed.
-/

namespace ContentStore

/-- What a visited value of a batch's content becomes among the documents of the batch: a document
reference with the id of the document that its own denotes and all else as it was, or a file that is stored
if it was new. -/
inductive BecomesAmong (documents : List Document) (files : List StoredFile) :
    Definition → Json → Json → Prop where
  | reference {fixed : Option String} {members changed : List (String × Json)} {text : String}
      {target : DocumentId} (keys : Entries.keys changed = Entries.keys members)
      (others : ∀ key, key ≠ "documentId" → changed.lookup key = members.lookup key)
      (before : members.lookup "documentId" = some (.string text))
      (after : changed.lookup "documentId" = some (.string target.text))
      (denoted : Denotes (documents.map Document.id) text target) :
      BecomesAmong documents files (.documentRef fixed) (.object members) (.object changed)
  | file {accept : Option (SortedMap String (List String))} {value value' : Json}
      (placed : Placed files (.file accept) value value') :
      BecomesAmong documents files (.file accept) value value'

section

variable {documents : List Document} {files : List StoredFile} {d : Definition} {value value' : Json}

/-- Where only documents are known by position, the collection that a reference names stays. -/
theorem Becomes.among (h : Becomes ⟨[], [], [], documents⟩ files d value value') :
    BecomesAmong documents files d value value' := by
  cases h with
  | reference keys others collectionBefore collectionAfter collectionDenoted before after denoted =>
      refine .reference keys (fun key hkey => ?_) before after denoted
      by_cases hc : key = "collectionId"
      · rw [hc, collectionAfter, collectionBefore, collectionDenoted.text_eq]
      · exact others key hc hkey
  | file placed => exact .file placed

theorem BecomesAmong.keepsNonnull (documents : List Document) (files : List StoredFile) :
    KeepsNonnull (BecomesAmong documents files) := by
  intro d value value' hn h
  cases h with
  | reference => exact Json.noConfusion
  | file placed => exact Placed.keepsNonnull files hn placed

end

/-- A document reference keeps the text of its collection and gets the id of the document that its own text
denotes. -/
theorem BecomesAmong.texts {documents : List Document} {files : List StoredFile} {before after : Visit}
    (h : before.Rewritten (BecomesAmong documents files) after) (hd : before.isDocumentRef = true) :
    after.text? "collectionId" = before.text? "collectionId" ∧
      ∃ (text : String) (target : DocumentId), before.text? "documentId" = some text ∧
        after.text? "documentId" = some target.text ∧
        Denotes (documents.map Document.id) text target := by
  obtain ⟨d, path, value⟩ := before
  obtain ⟨d', path', value'⟩ := after
  obtain ⟨hdefinition, -, hrelated⟩ := h
  cases hrelated with
  | reference keys others hbefore hafter denoted =>
      refine ⟨?_, _, _, Visit.text?_eq_some_iff.2 ⟨_, rfl, hbefore⟩,
        Visit.text?_eq_some_iff.2 ⟨_, rfl, hafter⟩, denoted⟩
      simp only [Visit.text?, Json.get?, others "collectionId" (by decide)]
  | file => cases hd

/-- A document of a batch as its specification says, and stored. Along the schema of its collection, which
was there before, its content differs from the specification's only in document references and new files. -/
structure DocumentSpec.Matches (before after : Tables) (documents : List Document) (spec : DocumentSpec)
    (document : Document) : Prop where
  stored : after.get? .document document.id = some document
  collectionId : document.collectionId = spec.collectionId
  content : ∃ (collection : Collection) (root : Definition) (files : List StoredFile),
    before.get? .collection spec.collectionId = some collection ∧ collection.schema.root = .ok root ∧
      (∀ file ∈ files, file ∈ after.files) ∧
      Rewrites collection.schema (BecomesAmong documents files) root spec.content document.content

/-- Why a batch cannot hold a document reference: it names its collection by a proto id, or by a proto id
a document that is not in the batch, or one that is there in another collection than the reference says. -/
inductive Visit.Stray (specs : List DocumentSpec) (visit : Visit) : Prop where
  | collection {p : ProtoId} (named : visit.text? "collectionId" = some p.text)
  | outside {p : ProtoId} (named : visit.text? "documentId" = some p.text)
      (outside : p.kind = .document → specs.length ≤ p.index)
  | elsewhere {p : ProtoId} {target : DocumentSpec} (named : visit.text? "documentId" = some p.text)
      (target_eq : specs[p.index]? = some target)
      (other : visit.text? "collectionId" ≠ some target.collectionId.text)

section

variable {before added : Tables} {specs : List DocumentSpec} {documents : List Document}
  {spec : DocumentSpec} {document : Document} {collection : Collection} {visits : List Visit}
  {visit : Visit}

/-- A reference in the content of a specification denotes a document that is stored in the collection that
the reference names. -/
theorem DocumentSpec.Matches.exists_denoted (h : spec.Matches before (before ++ added) documents document)
    (hcarries : (before ++ added).Carries document)
    (hcollection : before.get? .collection spec.collectionId = some collection)
    (hvisits : collection.schema.visitContent spec.content = .ok visits) (hvisit : visit ∈ visits)
    (hd : visit.isDocumentRef = true) :
    ∃ (text : String) (target : Document), visit.text? "documentId" = some text ∧
      visit.text? "collectionId" = some target.collectionId.text ∧
      Denotes (documents.map Document.id) text target.id ∧
      (before ++ added).get? .document target.id = some target := by
  obtain ⟨found, root, files, hfound, hroot, -, hrewrites⟩ := h.content
  cases hcollection.symm.trans hfound
  obtain ⟨owner, after, howner, hafter, hanswers⟩ := hcarries
  rw [h.collectionId, Tables.get?_append_of_some hcollection added] at howner
  cases howner
  obtain ⟨after', hafter', hrelated⟩ :=
    hrewrites.exists_visitContent hroot (BecomesAmong.keepsNonnull documents files) hvisits
  cases hafter.symm.trans hafter'
  obtain ⟨visit', hvisit', hrewritten⟩ := exists_right_of_forall₂ hrelated hvisit
  obtain ⟨hsame, text, id, htext, hid, hdenoted⟩ := BecomesAmong.texts hrewritten hd
  have hd' : visit'.isDocumentRef = true := by
    rw [Resolution.isDocumentRef_of_rewritten hrewritten, hd]
  obtain ⟨reference, hreference, target, htarget, hdocument, hcollection⟩ :=
    (hanswers visit' hvisit').document hd'
  obtain ⟨hc, hdoc⟩ := Visit.texts_of_documentReference? hreference
  have hsameId : id = target.id := RealId.ext (by simpa [hid, hdocument] using hdoc)
  rw [hc, hcollection] at hsame
  exact ⟨text, target, htext, hsame.symm, hsameId ▸ hdenoted, htarget⟩

/-- The specifications of a batch that was made hold no stray reference. -/
theorem not_stray_of_matches
    (h : List.Forall₂ (DocumentSpec.Matches before (before ++ added) documents) specs documents)
    (hcarries : ∀ document ∈ documents, (before ++ added).Carries document) (hspec : spec ∈ specs)
    (hcollection : before.get? .collection spec.collectionId = some collection)
    (hvisits : collection.schema.visitContent spec.content = .ok visits) (hvisit : visit ∈ visits)
    (hd : visit.isDocumentRef = true) : ¬ visit.Stray specs := by
  obtain ⟨document, hmem, hmatches⟩ := exists_right_of_forall₂ h hspec
  obtain ⟨text, target, hdocument, howner, hdenoted, htarget⟩ :=
    hmatches.exists_denoted (hcarries document hmem) hcollection hvisits hvisit hd
  have hplace : ∀ {p : ProtoId}, visit.text? "documentId" = some p.text →
      p.kind = .document ∧ ∃ other, documents[p.index]? = some other ∧ other.id = target.id := by
    intro p named
    cases hdocument.symm.trans named
    obtain ⟨hkind, hid⟩ := hdenoted.getElem?_eq
    rw [List.getElem?_map] at hid
    exact ⟨hkind, Option.map_eq_some_iff.1 hid⟩
  intro hstray
  cases hstray with
  | @collection p named =>
      rw [howner] at named
      exact target.collectionId.text_ne_protoId p (Option.some.inj named)
  | outside named outside =>
      obtain ⟨hkind, other, hother, -⟩ := hplace named
      have hlt := (List.getElem?_eq_some_iff.1 hother).1
      rw [← h.length_eq] at hlt
      exact absurd (outside hkind) (Nat.not_le.2 hlt)
  | elsewhere named htargetSpec other =>
      obtain ⟨-, found, hfound, hid⟩ := hplace named
      obtain ⟨found', hfound', hfoundMatches⟩ := exists_getElem?_of_forall₂ h htargetSpec
      cases hfound.symm.trans hfound'
      -- The store holds one document of an id, so that the one at the position is the one named.
      have hsame : found = target := by
        have hstored := hfoundMatches.stored
        rw [hid, htarget] at hstored
        exact (Option.some.inj hstored).symm
      rw [← hfoundMatches.collectionId, hsame] at other
      exact other howner

end

namespace DocumentsAdded

variable {validator : Validator} {specs : List DocumentSpec} {final added : Tables}
  {documents : List Document} {ids : List DocumentId} {pending : Pending} {resolution : Resolution}
  {stored : List (Document × List StoredFile)}

/-- The resolution of a batch knows no collection. -/
theorem lists_collections
    (h : DocumentsAdded validator specs final documents added ids pending resolution stored) :
    resolution.collections.Lists ([] : List CollectionId) := by
  rw [h.resolution_eq]
  exact IdMapping.lists_empty _

theorem lists_documents
    (h : DocumentsAdded validator specs final documents added ids pending resolution stored) :
    resolution.documents.Lists (documents.map Document.id) := by
  rw [h.ids_eq, h.resolution_eq]
  exact IdMapping.lists_ofIds ids

theorem documents_added
    (h : DocumentsAdded validator specs final documents added ids pending resolution stored) :
    added.documents = documents := by
  rw [h.added_eq]

theorem files_added
    (h : DocumentsAdded validator specs final documents added ids pending resolution stored)
    {entry : Document × List StoredFile} (hentry : entry ∈ stored) :
    ∀ file ∈ entry.2, file ∈ added.files := by
  intro file hfile
  rw [h.added_eq]
  exact List.mem_flatMap.2 ⟨entry, hentry, hfile⟩

/-- Each of the documents is one of the batch. -/
theorem fst_mem
    (h : DocumentsAdded validator specs final documents added ids pending resolution stored)
    {entry : Document × List StoredFile} (hentry : entry ∈ stored) : entry.1 ∈ documents := by
  rw [h.documents_eq]
  exact List.mem_map.2 ⟨entry, hentry, rfl⟩

section

variable {before : Tables}

/-- The collections after a batch are those before it. -/
theorem get?_collection
    (h : DocumentsAdded validator specs final documents added ids pending resolution stored)
    (id : CollectionId) : (before ++ added).get? .collection id = before.get? .collection id := by
  rw [h.added_eq]
  exact (Tables.get?_append _ _ _ _).trans Option.or_none

theorem matches_spec
    (h : DocumentsAdded validator specs (before ++ added) documents added ids pending resolution stored)
    (hfinds : (before ++ added).Finds added) {id : DocumentId} {spec : DocumentSpec}
    {entry : Document × List StoredFile} (hentry : entry ∈ stored)
    (hd : DocumentResolved validator pending resolution id spec.collectionId spec.content
      (before ++ added) entry.1 entry.2) :
    spec.Matches before (before ++ added) documents entry.1 := by
  have hstored : entry.1 ∈ added.documents := by
    rw [h.documents_added]
    exact h.fst_mem hentry
  have howner := hd.collectionId_eq
  obtain ⟨visits, collection, content, hadded⟩ := hd
  have hcollection := hadded.collection_eq
  rw [h.get?_collection] at hcollection
  have hdocuments : resolution.documents.Lists
      ((⟨[], [], [], documents⟩ : PackInstallation).ids .document) := h.lists_documents
  obtain ⟨root, hroot, hrewrites⟩ := becomes_of_resolved h.lists_collections hdocuments hadded
  exact ⟨hfinds.get?_document hstored, howner, collection, root, entry.2, hcollection, hroot,
    fun file hfile => List.mem_append_right _ (h.files_added hentry file hfile),
    hrewrites.mono fun _ _ _ _ _ hbecomes => hbecomes.among⟩

/-- The documents of a batch match its specifications, one by one. -/
theorem matches_specs
    (h : DocumentsAdded validator specs (before ++ added) documents added ids pending resolution stored)
    (hfinds : (before ++ added).Finds added) :
    List.Forall₂ (DocumentSpec.Matches before (before ++ added) documents) specs documents := by
  have heach : List.Forall₂ (fun spec entry =>
      DocumentSpec.Matches before (before ++ added) documents spec entry.1) specs stored :=
    forall₂_of_zip h.length_eq ((forall₂_mem_right h.each).imp
      fun _ _ hd => h.matches_spec hfinds hd.1 hd.2)
  have hmatches := List.forall₂_map_right_iff.2 heach
  rwa [← h.documents_eq] at hmatches

end

end DocumentsAdded

namespace Engine

variable {engine after : Engine} {specs : List DocumentSpec} {documents : List Document}

/-- What a batch that succeeds leaves: more rows, with documents that match the specifications and refer
only to what is there. -/
theorem createDocuments_made (h : engine.createDocuments specs = (.ok documents, after)) :
    ∃ added, after.store.committed = engine.store.committed ++ added ∧
      List.Forall₂ (DocumentSpec.Matches engine.store.committed (engine.store.committed ++ added)
        documents) specs documents ∧
      ∀ document ∈ documents, (engine.store.committed ++ added).Carries document := by
  have hleaves := createDocuments_adds engine specs
  rw [h] at hleaves
  obtain ⟨added, hcommitted, hfinds, ids, pending, resolution, stored, hadded⟩ :=
    hleaves.succeeded documents rfl
  rw [hcommitted] at hfinds hadded
  have hcarries := (hadded.supports hfinds).documents
  rw [hadded.documents_added] at hcarries
  exact ⟨added, hcommitted, hadded.matches_specs hfinds, hcarries⟩

/-- A batch that succeeds gives one document for each specification, in order, in the collection that the
specification names and with every document reference by position replaced by the id of the document
there, and nothing else changed but the new files. A batch does not succeed if the content of one of its
specifications holds a stray reference. -/
theorem createDocuments_exact (engine : Engine) (specs : List DocumentSpec) :
    (∀ documents after, engine.createDocuments specs = (.ok documents, after) →
      List.Forall₂ (DocumentSpec.Matches engine.store.committed after.store.committed documents) specs
        documents) ∧
    ∀ spec ∈ specs, ∀ collection visits,
      engine.store.committed.get? .collection spec.collectionId = some collection →
      collection.schema.visitContent spec.content = .ok visits →
      ∀ visit ∈ visits, visit.isDocumentRef = true → visit.Stray specs →
      ∃ error, (engine.createDocuments specs).1 = .error error := by
  constructor
  · intro documents after h
    obtain ⟨added, hcommitted, hmatches, -⟩ := createDocuments_made h
    rw [hcommitted]
    exact hmatches
  · intro spec hspec collection visits hcollection hvisits visit hvisit hd hstray
    generalize h : engine.createDocuments specs = outcome
    obtain ⟨result, after⟩ := outcome
    cases result with
    | error error => exact ⟨error, rfl⟩
    | ok documents =>
        obtain ⟨added, -, hmatches, hcarries⟩ := createDocuments_made h
        exact absurd hstray (not_stray_of_matches hmatches hcarries hspec hcollection hvisits hvisit hd)

def circleOf (id : CollectionId) : Collection where
  id := id
  settings := { name := "Circle", icon := "", description := "", categoryId := none, defaultAppId := none }
  schema := Schema.ofTypes "Person" [
    ("Person", ⟨.struct [("friend", .documentRef none)] SortedMap.empty, by
      simp [Definition.DistinctKeys, Definition.DistinctPropertyKeys, Entries.keys]⟩)]
  versionSettings := {}
  createdAt := 0

def circles : Engine where
  store := {
    committed := {
      collections := [circleOf ⟨"Collection_a", by decide⟩, circleOf ⟨"Collection_b", by decide⟩] }
    budget := none }
  supply := .counting

def friendVisit (collectionId documentId : String) : Visit :=
  ⟨.documentRef none, [.name "friend"],
    .object [("collectionId", .string collectionId), ("documentId", .string documentId)]⟩

/-- A person of the first collection whose friend is the person of the second, and the other way round if
the first position is given. -/
def friends (documentId : String) : List DocumentSpec :=
  let person (collectionId documentId : String) : Json :=
    .object [("friend", (friendVisit collectionId documentId).value)]
  [⟨⟨"Collection_a", by decide⟩, person "Collection_b" "ProtoDocument_1"⟩,
    ⟨⟨"Collection_b", by decide⟩, person "Collection_a" documentId⟩]

/-- Two people of two collections become each other's friends. Neither is created if the second has a
friend outside the batch, or itself for a friend of the first collection. -/
theorem createDocuments_exact_friends :
    (∃ documents after, circles.createDocuments (friends "ProtoDocument_0") = (.ok documents, after) ∧
      List.Forall₂ (DocumentSpec.Matches circles.store.committed after.store.committed documents)
        (friends "ProtoDocument_0") documents) ∧
    (∃ error, (circles.createDocuments (friends "ProtoDocument_2")).1 = .error error) ∧
    ∃ error, (circles.createDocuments (friends "ProtoDocument_1")).1 = .error error := by
  let second (documentId : String) : DocumentSpec :=
    ⟨⟨"Collection_b", by decide⟩, .object [("friend", (friendVisit "Collection_a" documentId).value)]⟩
  have hsecond : ∀ documentId, second documentId ∈ friends documentId := fun _ => .tail _ (.head _)
  have hvisits : ∀ documentId, (circleOf ⟨"Collection_b", by decide⟩).schema.visitContent
      (second documentId).content = .ok [friendVisit "Collection_a" documentId] := fun _ => rfl
  have hstray : ∀ documentId, (friendVisit "Collection_a" documentId).Stray (friends documentId) →
      ∃ error, (circles.createDocuments (friends documentId)).1 = .error error := by
    intro documentId hstray
    exact (createDocuments_exact circles (friends documentId)).2 _ (hsecond documentId) _ _ rfl
      (hvisits documentId) _ (.head _) rfl hstray
  refine ⟨?_, hstray _ ?_, hstray _ ?_⟩
  · have hok : (circles.createDocuments (friends "ProtoDocument_0")).1.isOk = true := by
      decide +kernel
    generalize h : circles.createDocuments (friends "ProtoDocument_0") = outcome at hok
    obtain ⟨result, after⟩ := outcome
    cases result with
    | error error => cases hok
    | ok documents => exact ⟨documents, after, rfl, (createDocuments_exact circles _).1 documents after h⟩
  · exact .outside (p := ⟨.document, 2, rfl, by decide⟩) (by decide +kernel) fun _ => Nat.le_refl 2
  · exact .elsewhere (p := ⟨.document, 1, rfl, by decide⟩) (by decide +kernel) rfl (by decide +kernel)

end Engine

end ContentStore
