import ContentStore.Proofs.Engine.Runs
import ContentStore.Proofs.Schema.CollectionIds

/-!
# Schemas of stored collections

No call stores a collection whose schema has a fault. So the schemas of a store that calls have led to can
all be walked, and no content is refused there for the schema's sake.
-/

namespace ContentStore

namespace Tables

/-- The schemas of all collections can be walked. -/
def Usable (t : Tables) : Prop :=
  ∀ collection ∈ t.collections, collection.schema.checkStructure = .ok ()

/-- The schemas of all collections have no faults. -/
def Faultless (t : Tables) : Prop :=
  ∀ collection ∈ t.collections, collection.schema.collectionFaults = .ok []

variable {t more : Tables}

theorem Faultless.usable (h : t.Faultless) : t.Usable :=
  fun collection hc => (Schema.collectionFaults_eq_nil_iff.1 (h collection hc)).1

theorem Faultless.append (h : t.Faultless) (h' : more.Faultless) : (t ++ more).Faultless := by
  intro collection hc
  exact (List.mem_append.1 hc).elim (h collection) (h' collection)

theorem faultless_of_nil (h : t.collections = []) : t.Faultless := by
  intro collection hc
  rw [h] at hc
  cases hc

end Tables

namespace Engine

/-- What a call adds has no schema with a fault. -/
theorem write_leaves_faultless (engine : Engine) (call : Write) :
    Leaves engine (engine.write call) fun _ _ added => added.Faultless := by
  cases call with
  | createCategory name icon parentId =>
      refine (run_leaves (Operation.newCategory_adds name icon parentId) engine).answering ?_
      rintro final category _ ⟨-, rfl, -⟩
      exact Tables.faultless_of_nil rfl
  | createCollection settings schema versionSettings =>
      refine (run_leaves (Operation.Adds.fresh_bind fun id =>
        Operation.newCollection_adds {} id settings schema versionSettings) engine).answering ?_
      rintro final collection _ ⟨-, id, rfl, hadded⟩
      exact List.forall_mem_singleton.2 hadded.faultless
  | createApp appType name targets files =>
      refine (run_leaves (Operation.Adds.fresh_bind fun id =>
        Operation.newApp_adds {} id appType name targets files) engine).answering ?_
      rintro final app _ ⟨-, id, rfl, -⟩
      exact Tables.faultless_of_nil rfl
  | createDocument collectionId content =>
      refine (run_leaves (Operation.createDocument_adds engine.validator collectionId content)
        engine).answering ?_
      rintro final document _ ⟨-, files, id, collection, visits, rfl, -⟩
      exact Tables.faultless_of_nil rfl
  | createDocuments specs =>
      refine (createDocuments_adds engine specs).answering ?_
      rintro final documents added ⟨-, ids, pending, resolution, stored, hadded⟩
      obtain rfl := hadded.added_eq
      exact Tables.faultless_of_nil rfl
  | installPack pack =>
      refine (installPack_adds engine pack).answering ?_
      rintro final installed added ⟨-, ids, pending, known, stored, hadded⟩
      obtain rfl := hadded.added_eq
      intro collection hc
      obtain ⟨entry, -, hinstalled⟩ := exists_left_of_forall₂ hadded.collections hc
      exact hinstalled.added.faultless

theorem write_faultless {engine : Engine} (h : engine.store.committed.Faultless) (call : Write) :
    (engine.write call).2.store.committed.Faultless := by
  have hleaves := write_leaves_faultless engine call
  cases hresult : (engine.write call).1 with
  | error error =>
      rw [hleaves.failed error hresult]
      exact h
  | ok created =>
      obtain ⟨added, hcommitted, hadded⟩ := hleaves.succeeded created hresult
      rw [hcommitted]
      exact h.append hadded

theorem writeAll_faultless (supply : Supply) (formats : FormatRegistry) (config : EngineConfig)
    (calls : List (Budget × Write)) :
    (({ supply, formats, config } : Engine).writeAll calls).store.committed.Faultless := by
  have hempty : ({ supply, formats, config } : Engine).store.committed.Faultless :=
    Tables.faultless_of_nil rfl
  have hstep : ∀ (engine : Engine) (budget : Budget) (call : Write), engine.store.committed.Faultless →
      ((engine.limitWrites budget).write call).2.store.committed.Faultless :=
    fun engine budget call h => @write_faultless (engine.limitWrites budget) h call
  exact writeAll_induction hempty hstep calls

/-- After every run from an empty store, the schemas of all committed collections can be walked. -/
theorem writeAll_usable (supply : Supply) (formats : FormatRegistry) (config : EngineConfig)
    (calls : List (Budget × Write)) :
    (({ supply, formats, config } : Engine).writeAll calls).store.committed.Usable :=
  (writeAll_faultless supply formats config calls).usable

end Engine

end ContentStore
