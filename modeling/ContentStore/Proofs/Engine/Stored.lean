import ContentStore.Proofs.Content.Resolution
import ContentStore.Proofs.Engine.Documents
import ContentStore.Proofs.Store.Closed

/-!
# A document as it is stored

What was found out about the content that was handed in holds of the content that is stored, in which
the new files have given way to references.
-/

namespace ContentStore

/-- Everything pending is there in the end, each document in the collection that was announced. -/
structure Pending.Kept (pending : Pending) (final : Tables) : Prop where
  collections : ∀ id ∈ pending.collections, final.contains .collection id = true
  apps : ∀ id ∈ pending.apps, final.contains .app id = true
  documents : ∀ id collection, (id, collection) ∈ pending.documents →
    ∃ document : Document, final.get? .document id = some document ∧ document.collectionId = collection

theorem Pending.kept_empty (final : Tables) : ({} : Pending).Kept final where
  collections := by simp
  apps := by simp
  documents := by simp

namespace DocumentAdded

variable {validator : Validator} {pending : Pending} {id : DocumentId} {collection : Collection}
  {content : Json} {final : Tables} {document : Document} {files : List StoredFile}
  {visits : List Visit}

/-- The stored content is visited where the content was, with files in place of new ones. -/
theorem exists_visits
    (h : DocumentAdded validator pending id collection content final document files visits) :
    ∃ after, collection.schema.visitContent document.content = .ok after ∧
      List.Forall₂ (Visit.Rewritten (Placed files)) visits after := by
  obtain ⟨root, hroot, hrewrites⟩ := h.placed
  have hplaced := hrewrites.mono fun _ _ _ _ _ hp => hp.2
  exact hplaced.exists_visitContent hroot (Placed.keepsNonnull files) h.visited

theorem valid_stored
    (h : DocumentAdded validator pending id collection content final document files visits) :
    validator.validate collection.schema document.content = .ok [] := by
  obtain ⟨root, hroot, hrewrites⟩ := h.placed
  exact Validator.validate_of_placed hroot (hrewrites.mono fun _ _ _ _ _ hp => hp.2) h.valid

theorem get?_collection
    (h : DocumentAdded validator pending id collection content final document files visits)
    (hget : final.get? .collection collection.id = some collection) :
    final.get? .collection document.collectionId = some collection := by
  rw [h.collectionId_eq]
  exact hget

/-- Stored content is valid and holds no new file. -/
theorem admits (h : DocumentAdded validator pending id collection content final document files visits)
    (hget : final.get? .collection collection.id = some collection) :
    final.Admits validator document := by
  obtain ⟨after, hafter, hrewritten⟩ := h.exists_visits
  refine ⟨collection, after, h.get?_collection hget, h.valid_stored, hafter, ?_⟩
  intro visit hvisit
  obtain ⟨before, -, hbefore⟩ := exists_left_of_forall₂ hrewritten hvisit
  have hnone := hbefore.related.newFile?_eq_none visit.path
  rw [← hbefore.definition] at hnone
  exact hnone

theorem names_of_located
    (h : DocumentAdded validator pending id collection content final document files visits)
    (hkept : pending.Kept final) (hown : final.get? .document document.id = some document)
    {target : DocumentId} {owner : CollectionId}
    (hlocated : Located pending id collection.id final target owner) :
    ∃ found : Document, final.get? .document found.id = some found ∧ found.id = target ∧
      found.collectionId = owner := by
  cases hlocated with
  | own => exact ⟨document, hown, h.id_eq, h.collectionId_eq⟩
  | pending hmem =>
      obtain ⟨found, hfound, howner⟩ := hkept.documents target owner hmem
      have hid : found.id = target := Tables.id_of_get? hfound
      exact ⟨found, hid ▸ hfound, hid, howner⟩
  | @stored _ found hfound =>
      have hid : found.id = target := Tables.id_of_get? hfound
      exact ⟨found, hid ▸ hfound, hid, rfl⟩

/-- The stored content refers only to what is there. -/
theorem carries (h : DocumentAdded validator pending id collection content final document files visits)
    (hget : final.get? .collection collection.id = some collection) (hkept : pending.Kept final)
    (hown : final.get? .document document.id = some document)
    (hfiles : ∀ file ∈ files, final.contains .file file.id = true) : final.Carries document := by
  obtain ⟨after, hafter, hrewritten⟩ := h.exists_visits
  have hissues := Validator.leafIssues_of_mem_visitContent h.valid_stored hafter
  refine ⟨collection, after, h.get?_collection hget, hafter, fun visit hvisit => ⟨?_, ?_⟩⟩
  · intro hd
    obtain ⟨before, hmem, hbefore⟩ := exists_left_of_forall₂ hrewritten hvisit
    obtain ⟨reference, href⟩ := Validator.exists_documentReference hd (hissues visit hvisit)
    -- No file stands at a document reference, so its value is the one that was checked.
    have hsame : visit.value = before.value := by
      refine hbefore.related.eq_of_not_isFile ?_
      rw [← hbefore.definition, beq_iff_eq.1 hd]
      decide
    have hreference : before.documentReference? = some reference :=
      (Visit.documentReference?_congr hbefore.definition.symm hsame.symm).trans href
    obtain ⟨target, owner, htarget, howner, hlocated⟩ :=
      h.found.documents reference (List.mem_filterMap.2 ⟨before, hmem, hreference⟩)
    obtain ⟨found, hfound, rfl, rfl⟩ := h.names_of_located hkept hown hlocated
    exact ⟨reference, href, found, hfound, htarget, howner⟩
  · intro hf
    obtain ⟨before, hmem, hdefinition, -, hplaced⟩ := exists_left_of_forall₂ hrewritten hvisit
    obtain ⟨value, hvalue⟩ := Validator.exists_fileValue hf (hissues visit hvisit)
    generalize visit.value = placed at hplaced hvalue ⊢
    cases hplaced with
    | @reference _ file mem _ =>
        exact ⟨file, file.name, file.mimeType, file.ofJson?_reference, hfiles file mem⟩
    | same noNew =>
        have hfile : before.isFile = true := by
          rw [Visit.isFile, ← hdefinition]
          exact hf
        obtain ⟨text, htext⟩ := Visit.newFile?_eq_none hfile hvalue noNew
        obtain ⟨stored, rfl, hstored⟩ :=
          h.found.files text (List.mem_filterMap.2 ⟨before, hmem, htext⟩)
        obtain ⟨-, name, mimeType, hjson⟩ := Visit.storedFileId?_eq_some.1 htext
        obtain ⟨row, -, rfl⟩ := Tables.contains_iff.1 hstored
        exact ⟨row, name, mimeType, hjson, hstored⟩

end DocumentAdded

/-- The files of a document are those that were new in the content handed in, as its collection's schema
walks over it, in order. -/
def StoresNewFiles (t : Tables) (content : Json) (document : Document) (files : List StoredFile) : Prop :=
  ∃ (collection : Collection) (visits : List Visit),
    t.get? .collection document.collectionId = some collection ∧
      collection.schema.visitContent content = .ok visits ∧
      files.map StoredFile.data = visits.filterMap Visit.newFile?

namespace ResolvedDocumentAdded

variable {validator : Validator} {pending : Pending} {resolution : Resolution} {id : DocumentId}
  {collectionId : CollectionId} {handedIn : Json} {final : Tables} {document : Document}
  {files : List StoredFile} {visits : List Visit} {collection : Collection} {content : Json}

theorem get?_collection
    (h : ResolvedDocumentAdded validator pending resolution id collectionId handedIn final document
      files visits collection content) :
    final.get? .collection collection.id = some collection := by
  have hid : collection.id = collectionId := Tables.id_of_get? h.collection_eq
  rw [hid]
  exact h.collection_eq

theorem storesNewFiles
    (h : ResolvedDocumentAdded validator pending resolution id collectionId handedIn final document
      files visits collection content) : StoresNewFiles final handedIn document files := by
  obtain ⟨before, hbefore, hnew⟩ := Schema.newFiles_of_resolveContent h.content_eq h.added.visited
  exact ⟨collection, before, h.added.get?_collection h.get?_collection, hbefore,
    h.added.files_eq.trans hnew.symm⟩

end ResolvedDocumentAdded

/-- What is known of a created document, whichever operation created it. It refers only to what is there
once everything pending, the document itself and its files are there. -/
structure DocumentStored (validator : Validator) (pending : Pending) (final : Tables) (content : Json)
    (document : Document) (files : List StoredFile) : Prop where
  newFiles : StoresNewFiles final content document files
  admits : final.Admits validator document
  carries : pending.Kept final → final.get? .document document.id = some document →
    (∀ file ∈ files, final.contains .file file.id = true) → final.Carries document

section

variable {validator : Validator} {pending : Pending} {final : Tables}

theorem DocumentAdded.stored {id : DocumentId} {collection : Collection} {content : Json}
    {document : Document} {files : List StoredFile} {visits : List Visit}
    (h : DocumentAdded validator pending id collection content final document files visits)
    (hget : final.get? .collection collection.id = some collection) :
    DocumentStored validator pending final content document files where
  newFiles := ⟨collection, visits, h.get?_collection hget, h.visited, h.files_eq⟩
  admits := h.admits hget
  carries := h.carries hget

theorem DocumentResolved.stored {resolution : Resolution} {id : DocumentId} {collectionId : CollectionId}
    {handedIn : Json} {document : Document} {files : List StoredFile}
    (h : DocumentResolved validator pending resolution id collectionId handedIn final document files) :
    DocumentStored validator pending final handedIn document files := by
  obtain ⟨visits, collection, content, h⟩ := h
  exact ⟨h.storesNewFiles, h.added.admits h.get?_collection, h.added.carries h.get?_collection⟩

variable {contents : List Json} {stored : List (Document × List StoredFile)} {added : Tables}

theorem carries_of_stored (hkept : pending.Kept final) (hfinds : final.Finds added)
    (hdocuments : added.documents = stored.map Prod.fst) (hfiles : added.files = stored.flatMap Prod.snd)
    (h : List.Forall₂ (fun content entry =>
      DocumentStored validator pending final content entry.1 entry.2) contents stored) :
    ∀ document ∈ added.documents, final.Carries document := by
  intro document hmem
  have hown := hfinds.get?_document hmem
  rw [hdocuments] at hmem
  obtain ⟨⟨_, files⟩, hentry, rfl⟩ := List.mem_map.1 hmem
  obtain ⟨content, -, hstored⟩ := exists_left_of_forall₂ h hentry
  refine hstored.carries hkept hown fun file hfile => ?_
  have hrow : file ∈ added.files := by
    rw [hfiles]
    exact List.mem_flatMap.2 ⟨_, hentry, hfile⟩
  exact hfinds.contains .file (by decide) hrow

theorem admits_of_stored (hdocuments : added.documents = stored.map Prod.fst)
    (h : List.Forall₂ (fun content entry =>
      DocumentStored validator pending final content entry.1 entry.2) contents stored) :
    ∀ document ∈ added.documents, final.Admits validator document := by
  intro document hmem
  rw [hdocuments] at hmem
  obtain ⟨⟨_, files⟩, hentry, rfl⟩ := List.mem_map.1 hmem
  obtain ⟨content, -, hstored⟩ := exists_left_of_forall₂ h hentry
  exact hstored.admits

end

end ContentStore
