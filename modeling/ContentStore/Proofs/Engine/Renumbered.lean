import ContentStore.Proofs.Content.Positions
import ContentStore.Proofs.Engine.InTurn
import ContentStore.Proofs.Store.Renumbering

/-!
# The same documents one after another and all at once

One after another, each document takes an id right before its files do; all at once, the documents take
theirs before any file. The ids are the same in another order, so what is stored is the same up to a
renumbering.
-/

namespace ContentStore

/-! ## Drafts -/

structure Draft.PlainIn (supply : Supply) (t : Tables) (draft : Draft) : Prop where
  stored : t.get? .collection draft.collection.id = some draft.collection
  visited : draft.collection.schema.visitContent draft.content = .ok draft.visits
  plain : Plain supply draft.collection.schema draft.content

theorem DocumentSpec.PlainIn.draft {supply : Supply} {t : Tables} {spec : DocumentSpec}
    (h : spec.PlainIn supply t) {validator : Validator} {draft : Draft}
    (hd : spec.draft validator t = .ok draft) : draft.PlainIn supply t := by
  cases hc : t.get? .collection spec.collectionId with
  | none =>
      rw [draft_of_missing hc] at hd
      cases hd
  | some collection =>
      rw [draft_of_found hc] at hd
      obtain ⟨visits, hvisits, rfl⟩ := map_eq_ok_iff.1 hd
      have hid : collection.id = spec.collectionId := @Tables.id_of_get? t .collection _ _ hc
      refine ⟨?_, Operation.visitContent_of_checked hvisits, h collection hc⟩
      change t.get? .collection collection.id = some collection
      rw [hid, hc]

/-- The content of a draft with files under other numbers. -/
theorem Draft.PlainIn.refiled_placed {supply now : Supply} {t : Tables} {draft : Draft}
    (h : draft.PlainIn supply t) {ρ : Renumbering} (hρ : ρ.Within supply now) {files : List StoredFile}
    (hf : files.map StoredFile.data = draft.news) :
    ∃ root, draft.collection.schema.root = .ok root ∧
      Rewrites draft.collection.schema (Refiles ρ.fileText) root (draft.placed files)
        (draft.placed (files.map (StoredFile.renumber ρ))) := by
  have hf' : (files.map (StoredFile.renumber ρ)).map StoredFile.data = draft.news := by
    rw [List.map_map, ← hf]
    rfl
  obtain ⟨⟨content, left⟩, hplaced⟩ := Schema.exists_changeContent_of_visitContent h.visited placeFiles
    (files.map StoredFile.reference)
  obtain ⟨⟨content', left'⟩, hplaced'⟩ := Schema.exists_changeContent_of_visitContent h.visited placeFiles
    ((files.map (StoredFile.renumber ρ)).map StoredFile.reference)
  obtain ⟨root, hroot, -⟩ := Schema.visitContent_eq_ok_iff.1 h.visited
  have hframe : Framed draft.collection.schema root content content' :=
    (Schema.framed_of_placeFiles hroot hplaced h.visited hf).symm.trans
      (Schema.framed_of_placeFiles hroot hplaced' h.visited hf')
  have hold : ∀ visit ∈ draft.visits, ∀ id, visit.storedFileId? = some id → ρ.fileText id = id := by
    intro visit hmem id hid
    have hnew := h.plain.noNewFile _ h.visited id (List.mem_filterMap.2 ⟨visit, hmem, hid⟩)
    exact hρ.fileText_eq fun file hgave => hnew file hgave.gives
  have hrefiled := Visit.refiled_placeFiles files
    (fun visit hmem => Schema.value_ne_null_of_mem_visitContent h.visited hmem) hold
  refine ⟨root, hroot, ?_⟩
  rw [Draft.placed, Draft.placed, hplaced, hplaced']
  exact hframe.rewrites_of_visitContent hroot (Schema.visitContent_of_changeContent hplaced h.visited)
    (Schema.visitContent_of_changeContent hplaced' h.visited) hrefiled

/-! ## Numbers -/

structure Numbered.Moved (σ : Equiv.Perm Nat) (numbered moved : Numbered) : Prop where
  draft : moved.draft = numbered.draft
  numbers : moved.numbers = numbered.numbers.map σ

namespace Numbered

variable {supply now : Supply} {t : Tables} {σ : Equiv.Perm Nat} {numbered moved : Numbered}
  {drafts : List Draft}

theorem filesAt_moved (h : Function.Injective supply.suffix)
    {news : List (String × String × List UInt8)} {first first' : Nat}
    (hσ : List.range' first' news.length = (List.range' first news.length).map σ) :
    supply.filesAt first' news =
      (supply.filesAt first news).map (StoredFile.renumber (supply.renumbering h σ)) := by
  induction news generalizing first first' with
  | nil => rfl
  | cons new rest ih =>
      rw [List.length_cons, List.range'_succ, List.range'_succ, List.map_cons, List.cons.injEq] at hσ
      obtain ⟨hfirst, hrest⟩ := hσ
      rw [Supply.filesAt, Supply.filesAt, List.map_cons, ih hrest, StoredFile.renumber,
        Supply.renumbering_file, hfirst]

theorem Moved.files_eq (h : Function.Injective supply.suffix) (hm : Moved σ numbered moved) :
    moved.files supply =
      (numbered.files supply).map (StoredFile.renumber (supply.renumbering h σ)) := by
  have hnumbers := (List.cons.inj hm.numbers).2
  rw [files, files, hm.draft]
  rw [hm.draft] at hnumbers
  exact filesAt_moved h hnumbers

theorem Moved.document (h : Function.Injective supply.suffix)
    (hρ : (supply.renumbering h σ).Within supply now) (hm : Moved σ numbered moved)
    (hd : numbered.draft.PlainIn supply t) :
    (numbered.document supply).RenumberedIn t (supply.renumbering h σ) (moved.document supply) := by
  have hnumber : moved.number = σ numbered.number := (List.cons.inj hm.numbers).1
  obtain ⟨root, hroot, hrefiled⟩ := hd.refiled_placed hρ (supply.map_data_filesAt _ _)
  refine ⟨?_, ?_, rfl, numbered.draft.collection, root, hd.stored, hroot, ?_⟩
  · rw [Numbered.document, Numbered.document, supply.renumbering_document, hnumber]
  · rw [Numbered.document, Numbered.document, hm.draft]
  · rw [Numbered.document, Numbered.document, hm.files_eq h, hm.draft]
    exact hrefiled

end Numbered

/-! ## One after another and all at once -/

namespace Numbered

variable {supply : Supply} {t : Tables} {drafts : List Draft}

end Numbered

namespace Engine

variable {engine : Engine} {specs : List DocumentSpec}

def shelf : Engine where
  store := {
    committed := {
      collections := [{
        id := (Supply.growing.suffix 0).toId .collection
        settings := {
          name := "Shelf", icon := "", description := "", categoryId := none, defaultAppId := none }
        schema := Schema.albums, versionSettings := {}, createdAt := 0 }]
      documents := [{
        id := (Supply.growing.suffix 1).toId .document
        collectionId := (Supply.growing.suffix 0).toId .collection
        content := .null, createdAt := 0 }]
      files := [{
        id := (Supply.growing.suffix 2).toId .file
        name := "old.png", mimeType := "image/png", content := [], createdAt := 0 }] }
    budget := none }
  supply := Supply.growing.skip 3

def shelfAlbum (cover : Json) : Json :=
  .object [
    ("author", .object [("collectionId", .string "Collection_a"), ("documentId", .string "Document_aa")]),
    ("cover", cover), ("parts", .array [])]

theorem newFor_shelf : shelf.supply.NewFor shelf.store.committed := by
  have hempty : Supply.growing.NewFor ({} : Tables) := Supply.newFor_empty Supply.growing_injective
  refine @Supply.NewFor.append Supply.growing 3 {} shelf.store.committed hempty fun kind e he => ?_
  cases kind with
  | collection =>
      cases List.mem_singleton.1 he
      exact ⟨0, by decide, rfl⟩
  | document =>
      cases List.mem_singleton.1 he
      exact ⟨1, by decide, rfl⟩
  | file =>
      cases List.mem_singleton.1 he
      exact ⟨2, by decide, rfl⟩
  | _ => cases he

end Engine

end ContentStore
