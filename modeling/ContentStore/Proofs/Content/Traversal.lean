import ContentStore.Proofs.Content.Positions
import ContentStore.Proofs.Content.Resolution
import ContentStore.Proofs.Schema.Chains
import ContentStore.Proofs.Schema.CollectionIds

/-!
# What the structure check is for

The check looks at the declared types only, while a walk may unfold a recursive schema as deep as the
content goes. Every definition that a walk comes to stands in a declared type, so that no traversal of
content fails once the check has passed; it passes exactly if the root is declared and every reference
inside a declared type leads to a definition.
-/

namespace ContentStore

namespace Schema

variable {schema : Schema}

/-- No traversal of content along the schema ends in a structure error. -/
structure Traversable (schema : Schema) : Prop where
  validate : ∀ (v : Validator) (content : Json), ∃ issues, v.validate schema content = .ok issues
  visit : ∀ content : Json, ∃ visits, schema.visitContent content = .ok visits
  change : ∀ {σ : Type} (visitor : Visitor σ) (content : Json) (s : σ),
    ∃ result, schema.changeContent visitor content s = .ok result
  references : ∀ content : Json, ∃ references, schema.contentReferences content = .ok references
  documents : ∀ content : Json, ∃ ids, schema.protoDocumentIds content = .ok ids
  resolve : ∀ (resolution : Resolution) (content : Json),
    ∃ resolved, schema.resolveContent resolution content = .ok resolved

theorem traversable_of_checkStructure (hs : schema.checkStructure = .ok ()) : schema.Traversable where
  validate v content := v.exists_validate hs content
  visit content := exists_visitContent hs content
  change visitor content s := exists_changeContent hs content s
  references content := by
    obtain ⟨visits, hvisits⟩ := exists_visitContent hs content
    exact ⟨_, map_eq_ok_iff.2 ⟨visits, hvisits, rfl⟩⟩
  documents content := by
    obtain ⟨visits, hvisits⟩ := exists_visitContent hs content
    exact ⟨_, map_eq_ok_iff.2 ⟨visits, hvisits, rfl⟩⟩
  resolve resolution content := exists_resolveContent hs content

/-- The structure check passes exactly if the root is declared and a chain of references leads from every
reference in a declared type to a definition. Then no traversal of content fails, nor does one along the
schema with its collections or its own sign resolved. -/
theorem checkStructure_suffices (schema : Schema) :
    (schema.checkStructure = .ok () ↔
      (∃ root, schema.types.get? schema.rootType = some root) ∧
      ∀ entry ∈ schema.types.entries, ∀ name, .ref name ∈ entry.2.nodes →
        ∃ names target, schema.Chain (.ref name) names target) ∧
    (schema.checkStructure = .ok () →
      schema.Traversable ∧ ∀ (mapping : IdMapping) (own : CollectionId),
        (schema.resolveCollections mapping).Traversable ∧ (schema.resolveSelf own).Traversable ∧
          ((schema.resolveCollections mapping).resolveSelf own).Traversable) := by
  constructor
  · simp only [checkStructure_eq_ok_iff, root_eq_ok_iff, sound_iff]
  · intro hs
    have hmapped : ∀ f, (schema.mapCollectionIds f).checkStructure = .ok () := fun f =>
      checkStructure_mapCollectionIds.trans hs
    refine ⟨traversable_of_checkStructure hs, fun mapping own => ?_⟩
    exact ⟨traversable_of_checkStructure (hmapped _), traversable_of_checkStructure (hmapped _),
      traversable_of_checkStructure (checkStructure_mapCollectionIds.trans (hmapped _))⟩

/-- Albums contain albums, without a bound on how deep; no traversal of one fails. -/
theorem traversable_albums : albums.checkStructure = .ok () ∧ albums.Traversable := by
  have hs : albums.checkStructure = .ok () := by
    decide +kernel
  exact ⟨hs, ((checkStructure_suffices albums).2 hs).1⟩

end Schema

end ContentStore
