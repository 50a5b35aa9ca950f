import ContentStore.Proofs.Store.Renaming

/-!
# Documents and files under other numbers

Tables may hold the same documents and files but for the ids that these were given. A renumbering leads
from the ones to the others. It reaches into contents, where stored files are referred to, and moves only
ids that were given of late.
-/

namespace ContentStore

structure Renumbering where
  document : Equiv.Perm DocumentId
  file : Equiv.Perm FileId

namespace Renumbering

/-- No id is moved but those that were given between two states of a supply. -/
structure Within (ρ : Renumbering) (origin now : Supply) : Prop where
  document : ∀ id, ρ.document id ≠ id → Supply.Gave origin now .document id
  file : ∀ id, ρ.file id ≠ id → Supply.Gave origin now .file id

def fileText (ρ : Renumbering) (text : String) : String :=
  match RealId.ofText? .file text with
  | some id => (ρ.file id).text
  | none => text

@[simp] theorem fileText_id (ρ : Renumbering) (id : FileId) : ρ.fileText id.text = (ρ.file id).text := by
  simp [fileText]

/-- A text that names no file given of late is left alone. -/
theorem Within.fileText_eq {ρ : Renumbering} {origin now : Supply} (h : ρ.Within origin now)
    {text : String} (ht : ∀ id, Supply.Gave origin now .file id → text ≠ id.text) :
    ρ.fileText text = text := by
  unfold fileText
  cases hid : RealId.ofText? .file text with
  | none => rfl
  | some id =>
      have htext := RealId.ofText?_eq_some_iff.1 hid
      dsimp only
      rw [htext]
      refine congrArg RealId.text ?_
      by_contra hmoved
      exact ht id (h.file id hmoved) htext

end Renumbering

namespace Supply

variable {supply now : Supply} {σ : Equiv.Perm Nat}

noncomputable def renumbering (h : Function.Injective supply.suffix) (σ : Equiv.Perm Nat) :
    Renumbering where
  document := σ.viaEmbedding (idEmbedding h .document)
  file := σ.viaEmbedding (idEmbedding h .file)

theorem renumbering_document (h : Function.Injective supply.suffix) (σ : Equiv.Perm Nat) (n : Nat) :
    (renumbering h σ).document ((supply.suffix n).toId .document) =
      (supply.suffix (σ n)).toId .document :=
  σ.viaEmbedding_apply (idEmbedding h .document) n

theorem renumbering_file (h : Function.Injective supply.suffix) (σ : Equiv.Perm Nat) (n : Nat) :
    (renumbering h σ).file ((supply.suffix n).toId .file) = (supply.suffix (σ n)).toId .file :=
  σ.viaEmbedding_apply (idEmbedding h .file) n

end Supply

/-! ## Renumbered documents and files -/

def StoredFile.renumber (ρ : Renumbering) (file : StoredFile) : StoredFile :=
  { file with id := ρ.file file.id }

/-- A reference to a stored file whose id is mapped; every other value, and every reference to a file
whose id stays the same, as it was. -/
inductive Refiles (f : String → String) : Definition → Json → Json → Prop where
  | moved {d : Definition} (file : d.dataType = .file) (id name mimeType : String) :
      Refiles f d (fileReference id name mimeType) (fileReference (f id) name mimeType)
  | same {d : Definition} {value : Json}
      (fixed : d.dataType = .file → ∀ id name mimeType,
        FileValue.ofJson? value = some (.stored id name mimeType) → f id = id) :
      Refiles f d value value

/-- A document with its id renumbered, and with it those of the files in its content, along the schema of
its collection. -/
structure Document.RenumberedIn (t : Tables) (ρ : Renumbering) (document renumbered : Document) : Prop where
  id_eq : renumbered.id = ρ.document document.id
  collectionId_eq : renumbered.collectionId = document.collectionId
  createdAt_eq : renumbered.createdAt = document.createdAt
  content : ∃ (collection : Collection) (root : Definition),
    t.get? .collection document.collectionId = some collection ∧
    collection.schema.root = .ok root ∧
    Rewrites collection.schema (Refiles ρ.fileText) root document.content renumbered.content

theorem Refiles.keepsNonnull (f : String → String) : KeepsNonnull (Refiles f) := by
  intro d value value' hn h
  cases h with
  | moved => exact Json.noConfusion
  | same => exact hn

/-- The same content with files under other numbers in its places differs in these alone. -/
theorem Visit.refiled_placeFiles {ρ : Renumbering} {visits : List Visit} (files : List StoredFile)
    (hn : ∀ visit ∈ visits, visit.value ≠ .null)
    (hold : ∀ visit ∈ visits, ∀ id, visit.storedFileId? = some id → ρ.fileText id = id) :
    List.Forall₂ (Visit.Rewritten (Refiles ρ.fileText))
      (replaced (Visitor.trace placeFiles visits (files.map StoredFile.reference)))
      (replaced (Visitor.trace placeFiles visits
        ((files.map (StoredFile.renumber ρ)).map StoredFile.reference))) := by
  refine rewritten_placeFiles (Refiles.keepsNonnull _) hn (List.forall₂_same.2 ?_) ?_
  · intro visit hmem
    refine ⟨⟨rfl, rfl, .same fun hd id name mimeType hv => ?_⟩, rfl⟩
    exact hold visit hmem id (storedFileId?_eq_some.2 ⟨beq_iff_eq.2 hd, name, mimeType, hv⟩)
  · rw [List.map_map, List.forall₂_map_left_iff, List.forall₂_map_right_iff, List.forall₂_same]
    intro file _
    refine ⟨Json.noConfusion, Json.noConfusion, fun d hd => ?_⟩
    change Refiles _ _ (fileReference file.id.text file.name file.mimeType)
      (fileReference (ρ.file file.id).text file.name file.mimeType)
    rw [← Renumbering.fileText_id]
    exact .moved hd _ _ _

end ContentStore
