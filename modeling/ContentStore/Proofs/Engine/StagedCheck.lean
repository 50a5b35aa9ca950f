import ContentStore.Proofs.Engine.StagedDocuments

/-!
# The check of a pack and of the pack without its documents

The documents of a pack add to its size and make demands of their own. Those of their content need no
check before the documents are created: content that is created refers to nothing else.
-/

namespace ContentStore

namespace Pack

variable {pack : Pack}

/-- What categories, collections and apps demand does not depend on the documents. -/
theorem met_withoutDocuments_iff {demand : Demand} (hs : ∀ max, demand ≠ .size max)
    (hd : ∀ text, demand ≠ .reference .document text) :
    demand.Met pack.withoutDocuments ↔ demand.Met pack := by
  cases demand with
  | size max => exact absurd rfl (hs max)
  | reference kind text =>
      cases kind with
      | document => exact absurd rfl (hd text)
      | _ => exact Iff.rfl
  | _ => exact Iff.rfl

theorem demand_of_collection {index : Nat} {spec : CollectionSpec} {demand : Path × Demand}
    (h : demand ∈ spec.demands index) :
    (∀ max, demand.2 ≠ .size max) ∧ ∀ text, demand.2 ≠ .reference .document text := by
  simp only [CollectionSpec.demands, List.mem_append, List.mem_cons, List.mem_map,
    List.mem_flatMap, List.mem_filterMap] at h
  rcases h with (⟨text, -, rfl⟩ | ⟨text, -, rfl⟩) | rfl | ⟨⟨typeName, d⟩, -, node, -, hnode⟩
  · exact ⟨by simp, by simp⟩
  · exact ⟨by simp, by simp⟩
  · exact ⟨by simp, by simp⟩
  · split at hnode
    · split at hnode
      · cases hnode
      · cases hnode
        exact ⟨by simp, by simp⟩
    · cases hnode

theorem demands_eq_append (pack : Pack) (maxEntities : Nat) :
    pack.demands maxEntities = pack.withoutDocuments.demands maxEntities ++
      pack.documents.zipIdx.flatMap fun (spec, index) => pack.documentDemands index spec := by
  simp [demands, withoutDocuments]

/-- A pack within its size has no issues where it has none without its documents and what the documents
demand is met. -/
theorem issues_eq_nil_iff_withoutDocuments {maxEntities : Nat} (hsize : pack.entityCount ≤ maxEntities) :
    pack.issues maxEntities = [] ↔ pack.withoutDocuments.issues maxEntities = [] ∧
      ∀ spec index, pack.documents[index]? = some spec →
        ∀ demand ∈ pack.documentDemands index spec, demand.2.Met pack := by
  have hsize' : pack.withoutDocuments.entityCount ≤ maxEntities := by
    refine Nat.le_trans ?_ hsize
    simp [entityCount, withoutDocuments]
  have hbase : ∀ demand ∈ pack.withoutDocuments.demands maxEntities,
      (demand.2.Met pack.withoutDocuments ↔ demand.2.Met pack) := by
    intro demand hdemand
    rcases mem_demands_iff.1 hdemand with rfl | ⟨spec, index, -, hd⟩ | ⟨spec, index, -, hd⟩ |
      ⟨spec, index, -, hd⟩ | ⟨spec, index, hspec, -⟩
    · exact iff_of_true hsize' hsize
    · obtain ⟨text, -, rfl⟩ := List.mem_map.1 hd
      exact met_withoutDocuments_iff (by simp) (by simp)
    · obtain ⟨hs, hd⟩ := demand_of_collection hd
      exact met_withoutDocuments_iff hs hd
    · obtain ⟨⟨text, place⟩, -, rfl⟩ := List.mem_map.1 hd
      exact met_withoutDocuments_iff (by simp) (by simp)
    · cases hspec
  rw [issues_eq_nil_iff, issues_eq_nil_iff, demands_eq_append, List.forall_mem_append,
    forall₂_congr hbase]
  simp only [List.mem_flatMap, Prod.exists, List.mk_mem_zipIdx_iff_getElem?]
  refine and_congr_right fun _ => ⟨fun hmet spec index hs demand hd => hmet demand ?_, ?_⟩
  · exact ⟨spec, index, hs, hd⟩
  · rintro hmet demand ⟨spec, index, hs, hd⟩
    exact hmet spec index hs demand hd

/-! ### Documents that were created -/

/-- Content that is rewritten along a mapped schema is rewritten at each position along the schema. -/
theorem Owns.exists_rewritten {spec : PackDocumentSpec} {p : ProtoId} {collection : CollectionSpec}
    (h : pack.Owns spec p collection) {f : String → String} {r : Definition → Json → Json → Prop}
    (hr : KeepsNonnull r) (hs : (collection.schema.mapCollectionIds f).checkStructure = .ok ())
    {root : Definition} (hroot : (collection.schema.mapCollectionIds f).root = .ok root)
    {content' : Json}
    (hrewrites : Rewrites (collection.schema.mapCollectionIds f) r root spec.content content')
    {visits : List Visit} (hvisits : collection.schema.visitContent spec.content = .ok visits)
    {visit : Visit} (hvisit : visit ∈ visits) :
    ∃ value', r (visit.definition.mapCollectionIds f) visit.value value' := by
  obtain ⟨found, hfound⟩ := Schema.exists_visitContent hs spec.content
  obtain ⟨others, -, hrewritten⟩ := hrewrites.exists_visitContent hroot hr hfound
  obtain ⟨start, hstart, hwalk⟩ := Schema.visitContent_eq_ok_iff.1 hfound
  cases hroot.symm.trans hstart
  obtain ⟨origin, horigin, hvisited⟩ := Schema.visitContent_eq_ok_iff.1 hvisits
  obtain ⟨hkept, hn, hleaf⟩ := (Schema.mem_visits_iff hvisited).1 hvisit
  have hmapped := (h.holdsAt_iff hroot).2
    ⟨visit.definition, ⟨collection, origin, h.collectionOf?, horigin, hleaf⟩, rfl⟩
  have hmem : (⟨visit.definition.mapCollectionIds f, visit.path, visit.value⟩ : Visit) ∈ found :=
    (Schema.mem_visits_iff hwalk).2
      ⟨(Definition.isVisited_mapCollectionIds f _).trans hkept, hn, hmapped⟩
  obtain ⟨other, -, hother⟩ := exists_right_of_forall₂ hrewritten hmem
  exact ⟨other.value, hother.related⟩

namespace Matches

variable {t : Tables} {installed : PackInstallation}

theorem length_ids (h : pack.Matches t installed) (kind : Kind) :
    (installed.ids kind).length = pack.count kind := by
  cases kind with
  | collectionCategory => exact (List.length_map _).trans h.categories.length_eq.symm
  | collection => exact (List.length_map _).trans h.collections.length_eq.symm
  | app => exact (List.length_map _).trans h.apps.length_eq.symm
  | document => exact (List.length_map _).trans h.documents.length_eq.symm
  | file => rfl

theorem met_of_denotes (h : pack.Matches t installed) {kind : Kind} {text : String} {id : RealId kind}
    (hd : Denotes (installed.ids kind) text id) : (Demand.reference kind text).Met pack := by
  cases hd with
  | @position p _ hkind hget =>
      have hlt := (List.getElem?_eq_some_iff.1 hget).1
      rw [h.length_ids] at hlt
      exact .inl ⟨p, hkind, hlt, rfl⟩
  | real => exact .inr ⟨id, rfl⟩

/-- What a position demands is met where the references there were resolved to ids. -/
theorem demands_met_of_becomes (h : pack.Matches t installed) {files : List StoredFile}
    {f : String → String} {visit : Visit} {value' : Json}
    (hb : Becomes installed files (visit.definition.mapCollectionIds f) visit.value value') :
    ∀ demand ∈ visit.demands, demand.2.Met pack := by
  obtain ⟨d, path, value⟩ := visit
  cases d with
  | documentRef fixed =>
      cases hb with
      | reference keys others hcollection _ hcollectionId hdocument _ hdocumentId =>
          simp only [Visit.demands, List.filterMap_cons, List.filterMap_nil, hcollection, hdocument,
            List.forall_mem_cons]
          exact ⟨h.met_of_denotes hcollectionId, h.met_of_denotes hdocumentId, List.forall_mem_nil _⟩
  | _ => exact List.forall_mem_nil _

/-- What the documents of a pack demand is met where they were created. -/
theorem documentDemands_met (h : pack.Matches t installed)
    (hstored : ∀ collection ∈ installed.collections,
      t.get? .collection collection.id = some collection)
    (howners : ∀ spec ∈ pack.documents, pack.HasEntry .collection spec.collectionId)
    (husable : ∀ spec ∈ pack.collections, spec.schema.checkStructure = .ok ()) {index : Nat}
    {spec : PackDocumentSpec} (hs : pack.documents[index]? = some spec) :
    ∀ demand ∈ pack.documentDemands index spec, demand.2.Met pack := by
  have hmem := List.mem_of_getElem? hs
  obtain ⟨p, hkind, hlt, htext⟩ := howners spec hmem
  have howns : pack.Owns spec p pack.collections[p.index] :=
    ⟨hmem, hkind, htext, List.getElem?_eq_getElem hlt⟩
  obtain ⟨document, -, hdocument⟩ := exists_getElem?_of_forall₂ h.documents hs
  obtain ⟨made, hplace, hmade⟩ := exists_getElem?_of_forall₂ h.collections howns.get?_eq
  obtain ⟨f, hschema, -⟩ := hmade.schema
  obtain ⟨collection, root, files, hget, hroot, -, hrewrites⟩ := hdocument.content
  have hid : document.collectionId = made.id := by
    have hdenotes := hdocument.collectionId
    rw [htext] at hdenotes
    refine hdenotes.unique (.position hkind ?_)
    rw [PackInstallation.ids, List.getElem?_map, hplace, Option.map_some]
  rw [hid, hstored made (List.mem_of_getElem? hplace), Option.some.injEq] at hget
  rw [← hget, hschema] at hroot hrewrites
  have hstructure : (pack.collections[p.index].schema.mapCollectionIds f).checkStructure = .ok () := by
    rw [Schema.checkStructure_mapCollectionIds]
    exact husable _ (List.getElem_mem hlt)
  intro demand hdemand
  rcases List.mem_cons.1 hdemand with rfl | hdemand
  · exact howners spec hmem
  · simp only [howns.collectionOf?] at hdemand
    cases hvisits : pack.collections[p.index].schema.visitContent spec.content with
    | error e =>
        rw [hvisits] at hdemand
        cases hdemand
    | ok visits =>
        rw [hvisits] at hdemand
        obtain ⟨inner, hinner, rfl⟩ := List.mem_map.1 hdemand
        obtain ⟨visit, hvisit, hinner⟩ := List.mem_flatMap.1 hinner
        obtain ⟨value', hbecomes⟩ := howns.exists_rewritten (Becomes.keepsNonnull installed files)
          hstructure hroot hrewrites hvisits hvisit
        exact h.demands_met_of_becomes hbecomes inner hinner

end Matches

end Pack

end ContentStore
