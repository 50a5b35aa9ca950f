import ContentStore.Proofs.Engine.Install
import ContentStore.Proofs.Engine.Stored

/-!
# What was pending is there in the end

A batch and a pack accept references to what they have yet to create. All of it is created before they
succeed, so that nothing refers to what is missing.
-/

namespace ContentStore

namespace DocumentsAdded

variable {validator : Validator} {specs : List DocumentSpec} {final added : Tables}
  {documents : List Document} {ids : List DocumentId} {pending : Pending} {resolution : Resolution}
  {stored : List (Document × List StoredFile)}

/-- The documents of a batch are all made, each in the collection that was announced. -/
theorem kept
    (h : DocumentsAdded validator specs final documents added ids pending resolution stored)
    (hfinds : final.Finds added) : pending.Kept final := by
  rw [h.pending_eq]
  refine ⟨by simp, by simp, fun id collection hmem => ?_⟩
  have hsame : List.Forall₂ (fun spec collection => spec.collectionId = collection) specs
      (specs.map DocumentSpec.collectionId) :=
    List.forall₂_map_right_iff.2 (List.forall₂_same.2 fun _ _ => rfl)
  obtain ⟨spec, hspec, rfl⟩ := exists_zip_of_forall₂ hsame hmem
  obtain ⟨⟨document, files⟩, hentry, hdocument⟩ := exists_right_of_forall₂ h.each hspec
  have hrow : document ∈ added.documents := by
    rw [h.added_eq, h.documents_eq]
    exact List.mem_map.2 ⟨_, hentry, rfl⟩
  have hid : document.id = id := hdocument.id_eq
  exact ⟨document, hid ▸ hfinds.get?_document hrow, hdocument.collectionId_eq⟩

theorem stored_each
    (h : DocumentsAdded validator specs final documents added ids pending resolution stored) :
    List.Forall₂ (fun content entry =>
      DocumentStored validator pending final content entry.1 entry.2)
      (specs.map DocumentSpec.content) stored := by
  rw [List.forall₂_map_left_iff]
  exact forall₂_of_zip h.length_eq (h.each.imp fun entry document hd => hd.stored)

theorem supports
    (h : DocumentsAdded validator specs final documents added ids pending resolution stored)
    (hfinds : final.Finds added) : final.Supports added := by
  have hkept := h.kept hfinds
  obtain rfl := h.added_eq
  exact Tables.supports_documents (carries_of_stored hkept hfinds h.documents_eq rfl h.stored_each)

end DocumentsAdded

namespace PackAdded

variable {validator : Validator} {pack : Pack} {final added : Tables} {installed : PackInstallation}
  {ids : PackIds} {pending : Pending} {known : IdMapping} {stored : List (Document × List StoredFile)}

/-- The entries of a pack that were pending are all made, each document in its entry's collection. -/
theorem kept (h : PackAdded validator pack final installed added ids pending known stored)
    (hfinds : final.Finds added) : pending.Kept final := by
  refine ⟨fun id hid => ?_, fun id hid => ?_, fun id collection hmem => ?_⟩
  · rw [h.awaits.collections_eq] at hid
    obtain ⟨spec, hspec⟩ := exists_zip_of_length_eq h.fit.collections hid
    obtain ⟨collection, hrow, hinstalled⟩ := exists_right_of_forall₂ h.collections hspec
    rw [← (show collection.id = id from hinstalled.added.id_eq)]
    exact hfinds.contains .collection (by decide) (by rw [h.added_eq]; exact hrow)
  · rw [h.awaits.apps_eq] at hid
    obtain ⟨spec, hspec⟩ := exists_zip_of_length_eq h.fit.apps hid
    obtain ⟨app, hrow, hinstalled⟩ := exists_right_of_forall₂ h.apps hspec
    rw [← (show app.id = id from hinstalled.added.id_eq)]
    exact hfinds.contains .app (by decide) (by rw [h.added_eq]; exact hrow)
  · obtain ⟨owners, hpending, howners⟩ := h.awaits.documents
    rw [hpending] at hmem
    have hsame := List.forall₂_map_left_iff.1 (List.forall₂_map_right_iff.1
      (List.forall₂_eq_eq_eq ▸ howners))
    obtain ⟨spec, hspec, howner⟩ := exists_zip_of_forall₂ hsame hmem
    obtain ⟨⟨document, files⟩, hentry, hinstalled⟩ := exists_right_of_forall₂ h.documents hspec
    have hrow : document ∈ added.documents := by
      rw [h.added_eq, h.documents_eq]
      exact List.mem_map.2 ⟨_, hentry, rfl⟩
    have hid : document.id = id := hinstalled.added.id_eq
    refine ⟨document, hid ▸ hfinds.get?_document hrow, RealId.ext ?_⟩
    exact hinstalled.collectionId.symm.trans howner

theorem stored_each (h : PackAdded validator pack final installed added ids pending known stored) :
    List.Forall₂ (fun content entry =>
      DocumentStored validator pending final content entry.1 entry.2)
      (pack.documents.map PackDocumentSpec.content) stored := by
  rw [List.forall₂_map_left_iff]
  exact forall₂_of_zip h.fit.documents (h.documents.imp fun entry document hd => hd.added.stored)

theorem supports (h : PackAdded validator pack final installed added ids pending known stored)
    (hfinds : final.Finds added) : final.Supports added where
  parents category hm id hid := by
    rw [h.added_eq] at hm
    obtain ⟨spec, -, hadded⟩ := exists_left_of_forall₂ h.categories hm
    exact hadded.parent id hid
  categories collection hm id hid := by
    rw [h.added_eq] at hm
    obtain ⟨spec, -, hinstalled⟩ := exists_left_of_forall₂ h.collections hm
    exact hinstalled.added.category id hid
  defaultApps collection hm id hid := by
    rw [h.added_eq] at hm
    obtain ⟨spec, -, hinstalled⟩ := exists_left_of_forall₂ h.collections hm
    exact (hinstalled.added.defaultApp id hid).elim ((h.kept hfinds).apps id) fun hc => hc
  targets app hm id hid := by
    rw [h.added_eq] at hm
    obtain ⟨spec, -, hinstalled⟩ := exists_left_of_forall₂ h.apps hm
    exact (hinstalled.added.found id hid).elim ((h.kept hfinds).collections id) fun hc => hc
  documents :=
    have hdocuments : added.documents = stored.map Prod.fst := by rw [h.added_eq]; exact h.documents_eq
    have hfiles : added.files = stored.flatMap Prod.snd := by rw [h.added_eq]
    carries_of_stored (h.kept hfinds) hfinds hdocuments hfiles h.stored_each

end PackAdded

end ContentStore
