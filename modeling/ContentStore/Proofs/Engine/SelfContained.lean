import ContentStore.Proofs.Content.Walk
import ContentStore.Proofs.Engine.PackCheck

/-!
# Packs that refer to nothing but themselves

A pack is self-contained if its references are proto ids and its content refers to no stored file. Such a
pack is consistent by what stands in it alone, whatever a store holds.
-/

namespace ContentStore

def Schema.readSelfAs (schema : Schema) (text : String) : Schema :=
  schema.mapCollectionIds fun id => if id = selfCollection then text else id

namespace Pack

/-- Along the schema of a document's collection, a walk over its content ends at a path, at a value under
a definition. -/
def HoldsAt (pack : Pack) (spec : PackDocumentSpec) (path : Path) (d : Definition) (value : Json) : Prop :=
  ∃ collection root, pack.collectionOf? spec = some collection ∧ collection.schema.root = .ok root ∧
    collection.schema.Leaf root spec.content path d value

/-- A predicate holds of every reference of a pack, with the kind of entity that it should go to. The
sign for a schema's own collection is no reference. -/
structure References (pack : Pack) (p : Kind → String → Prop) : Prop where
  parents : ∀ spec ∈ pack.categories, ∀ text ∈ spec.parentId, p .collectionCategory text
  categories : ∀ spec ∈ pack.collections, ∀ text ∈ spec.settings.categoryId,
    p .collectionCategory text
  defaultApps : ∀ spec ∈ pack.collections, ∀ text ∈ spec.settings.defaultAppId, p .app text
  fixed : ∀ spec ∈ pack.collections, ∀ entry ∈ spec.schema.fixedCollectionIds,
    entry.2 = selfCollection ∨ p .collection entry.2
  targets : ∀ spec ∈ pack.apps, ∀ text ∈ spec.targets, p .collection text
  owners : ∀ spec ∈ pack.documents, p .collection spec.collectionId
  content : ∀ spec ∈ pack.documents, ∀ path fixed members key kind text,
    pack.HoldsAt spec path (.documentRef fixed) (.object members) → (key, kind) ∈ referenceKeys →
    members.lookup key = some (.string text) → p kind text

/-- Every reference is a proto id, and no stored file is referred to. -/
structure SelfContained (pack : Pack) : Prop where
  references : pack.References fun _ text => ∃ p : ProtoId, text = p.text
  noStoredFile : ∀ spec ∈ pack.documents, ∀ path accept value id name mimeType,
    pack.HoldsAt spec path (.file accept) value →
    FileValue.ofJson? value ≠ some (.stored id name mimeType)

/-- Content without issues under the schema of its document's collection, the sign for that collection
read as its proto id. -/
def ValidContent (pack : Pack) (validator : Validator) (spec : PackDocumentSpec) : Prop :=
  ∀ (p : ProtoId) (collection : CollectionSpec), p.kind = .collection → spec.collectionId = p.text →
    pack.collections[p.index]? = some collection →
    validator.validate (collection.schema.readSelfAs p.text) spec.content = .ok []

/-- Content whose references to documents of the pack name the collections that those documents name. -/
def AgreedReferences (pack : Pack) (spec : PackDocumentSpec) : Prop :=
  ∀ path fixed members (p : ProtoId) (target : PackDocumentSpec),
    pack.HoldsAt spec path (.documentRef fixed) (.object members) → p.kind = .document →
    members.lookup "documentId" = some (.string p.text) → pack.documents[p.index]? = some target →
    members.lookup "collectionId" = some (.string target.collectionId)

/-- What a self-contained pack needs to be installed. -/
structure Consistent (pack : Pack) (validator : Validator) (maxEntities : Nat) : Prop where
  issues : pack.issues maxEntities = []
  roots : ∀ spec ∈ pack.collections, ∃ properties nullable,
    spec.schema.resolvedRoot = .ok (.struct properties nullable)
  valid : ∀ spec ∈ pack.documents, pack.ValidContent validator spec
  agreed : ∀ spec ∈ pack.documents, pack.AgreedReferences spec

/-- Every reference of the pack names one of its entries, a parent one before its child, and every schema
can be used. -/
structure Closed (pack : Pack) : Prop where
  references : pack.References pack.HasEntry
  parents : ∀ index spec, pack.categories[index]? = some spec → ∀ text ∈ spec.parentId,
    ∃ p : ProtoId, p.kind = .collectionCategory ∧ p.index < index ∧ text = p.text
  usable : ∀ spec ∈ pack.collections, spec.schema.checkStructure = .ok ()

variable {pack : Pack}

/-- A reference or a file at which a walk ends is visited. -/
theorem HoldsAt.mem_visits {spec : PackDocumentSpec} {path : Path} {d : Definition} {value : Json}
    {collection : CollectionSpec} {found : List Visit} (h : pack.HoldsAt spec path d value)
    (hcollection : pack.collectionOf? spec = some collection)
    (hfound : collection.schema.visitContent spec.content = .ok found) (hd : d.isVisited = true)
    (hn : value ≠ .null) : (⟨d, path, value⟩ : Visit) ∈ found := by
  obtain ⟨owner, root, howner, hroot, hleaf⟩ := h
  cases howner.symm.trans hcollection
  obtain ⟨start, hstart, hwalk⟩ := Schema.visitContent_eq_ok_iff.1 hfound
  cases hroot.symm.trans hstart
  exact (Schema.mem_visits_iff hwalk).2 ⟨hd, hn, hleaf⟩

theorem hasEntry_of_met {kind : Kind} {text : String} (hm : (Demand.reference kind text).Met pack)
    (hp : ∃ p : ProtoId, text = p.text) : pack.HasEntry kind text := by
  obtain ⟨p, rfl⟩ := hp
  rcases hm with hentry | ⟨id, hid⟩
  · exact hentry
  · exact absurd hid.symm (id.text_ne_protoId p)

/-! ### What a pack without issues refers to -/

section Demands

variable {maxEntities : Nat}

theorem mem_demands_iff {demand : Path × Demand} :
    demand ∈ pack.demands maxEntities ↔ demand = ([], .size maxEntities) ∨
      (∃ spec index, pack.categories[index]? = some spec ∧ demand ∈ CategorySpec.demands index spec) ∨
      (∃ spec index, pack.collections[index]? = some spec ∧
        demand ∈ CollectionSpec.demands index spec) ∨
      (∃ spec index, pack.apps[index]? = some spec ∧ demand ∈ AppSpec.demands index spec) ∨
      ∃ spec index, pack.documents[index]? = some spec ∧ demand ∈ pack.documentDemands index spec := by
  simp only [demands, List.mem_append, List.mem_cons, List.mem_flatMap, Prod.exists,
    List.mk_mem_zipIdx_iff_getElem?, or_assoc]

variable (hm : ∀ demand ∈ pack.demands maxEntities, demand.2.Met pack)

include hm

theorem met_of_category {index : Nat} {spec : CategorySpec} (hs : pack.categories[index]? = some spec)
    {text : String} (ht : text ∈ spec.parentId) : (Demand.parent index text).Met pack := by
  exact hm (_, .parent index text) (mem_demands_iff.2 (.inr (.inl ⟨spec, index, hs,
    List.mem_map.2 ⟨text, Option.mem_toList.2 ht, rfl⟩⟩)))

theorem met_of_collection {spec : CollectionSpec} (hs : spec ∈ pack.collections) :
    ∃ index, ∀ path demand, (path, demand) ∈ spec.demands index → demand.Met pack := by
  obtain ⟨index, hindex⟩ := List.mem_iff_getElem?.1 hs
  exact ⟨index, fun path demand hd =>
    hm (path, demand) (mem_demands_iff.2 (.inr (.inr (.inl ⟨spec, index, hindex, hd⟩))))⟩

theorem met_of_app {spec : AppSpec} (hs : spec ∈ pack.apps) :
    ∃ index, ∀ path demand, (path, demand) ∈ spec.demands index → demand.Met pack := by
  obtain ⟨index, hindex⟩ := List.mem_iff_getElem?.1 hs
  exact ⟨index, fun path demand hd =>
    hm (path, demand) (mem_demands_iff.2 (.inr (.inr (.inr (.inl ⟨spec, index, hindex, hd⟩)))))⟩

theorem met_of_document {spec : PackDocumentSpec} (hs : spec ∈ pack.documents) :
    ∃ index, ∀ path demand, (path, demand) ∈ pack.documentDemands index spec → demand.Met pack := by
  obtain ⟨index, hindex⟩ := List.mem_iff_getElem?.1 hs
  exact ⟨index, fun path demand hd =>
    hm (path, demand) (mem_demands_iff.2 (.inr (.inr (.inr (.inr ⟨spec, index, hindex, hd⟩)))))⟩

theorem usable_of_met {spec : CollectionSpec} (hs : spec ∈ pack.collections) :
    spec.schema.checkStructure = .ok () := by
  obtain ⟨index, hmet⟩ := met_of_collection hm hs
  exact hmet _ (.usable spec.schema) (List.mem_append_right _ (List.mem_cons_self ..))

theorem met_of_fixed {spec : CollectionSpec} (hs : spec ∈ pack.collections) {entry : String × String}
    (he : entry ∈ spec.schema.fixedCollectionIds) (hself : entry.2 ≠ selfCollection) :
    (Demand.reference .collection entry.2).Met pack := by
  obtain ⟨index, hmet⟩ := met_of_collection hm hs
  obtain ⟨⟨typeName, d⟩, htype, hentry⟩ := List.mem_flatMap.1 he
  obtain ⟨id, hid, rfl⟩ := List.mem_map.1 hentry
  obtain ⟨node, hnode, hfixed⟩ := List.mem_filterMap.1 hid
  cases node with
  | documentRef fixed =>
      cases hfixed
      exact hmet _ _ (List.mem_append_right _ (List.mem_cons_of_mem _
        (List.mem_flatMap.2 ⟨(typeName, d), htype, List.mem_filterMap.2 ⟨_, hnode, if_neg hself⟩⟩)))
  | _ => cases hfixed

theorem met_of_content {spec : PackDocumentSpec} (hs : spec ∈ pack.documents) {path : Path}
    {fixed : Option String} {members : List (String × Json)} {key text : String} {kind : Kind}
    (hh : pack.HoldsAt spec path (.documentRef fixed) (.object members))
    (hk : (key, kind) ∈ referenceKeys) (hl : members.lookup key = some (.string text)) :
    (Demand.reference kind text).Met pack := by
  obtain ⟨index, hmet⟩ := met_of_document hm hs
  have ⟨collection, _, hcollection, _⟩ := hh
  obtain ⟨p, -, -, hget⟩ := collectionOf?_eq_some_iff.1 hcollection
  have hstructure := usable_of_met hm (List.mem_of_getElem? hget)
  obtain ⟨visits, hvisits⟩ := Schema.exists_visitContent hstructure spec.content
  have hvisit := hh.mem_visits hcollection hvisits rfl Json.noConfusion
  have hdemand : (path ++ [.name key], Demand.reference kind text) ∈ visits.flatMap Visit.demands := by
    refine List.mem_flatMap.2 ⟨_, hvisit, List.mem_filterMap.2 ⟨(key, kind), hk, ?_⟩⟩
    simp only [hl]
  apply hmet (.name "documents" :: .index index :: .name "content" :: (path ++ [.name key]))
  apply List.mem_cons_of_mem
  simp only [hcollection, hvisits]
  exact List.mem_map.2 ⟨_, hdemand, rfl⟩

end Demands

/-- What the check of a pack without issues found out of its references: each names an entry or is an id,
parents come before their children, and the collections of documents are entries with usable schemas. -/
structure Checked (pack : Pack) : Prop where
  references : pack.References fun kind text => (Demand.reference kind text).Met pack
  parents : ∀ index spec, pack.categories[index]? = some spec → ∀ text ∈ spec.parentId,
    (Demand.parent index text).Met pack
  owners : ∀ spec ∈ pack.documents, pack.HasEntry .collection spec.collectionId
  usable : ∀ spec ∈ pack.collections, spec.schema.checkStructure = .ok ()

theorem checked_of_issues_eq_nil {maxEntities : Nat} (hi : pack.issues maxEntities = []) :
    pack.Checked := by
  have hm := issues_eq_nil_iff.1 hi
  have howners : ∀ spec ∈ pack.documents, pack.HasEntry .collection spec.collectionId := by
    intro spec hs
    obtain ⟨index, hmet⟩ := met_of_document hm hs
    exact hmet _ (.collection spec.collectionId) (List.mem_cons_self ..)
  refine ⟨⟨?_, ?_, ?_, ?_, ?_, ?_, ?_⟩, fun index spec hs text ht => met_of_category hm hs ht, howners,
    fun spec hs => usable_of_met hm hs⟩
  · intro spec hs text ht
    obtain ⟨index, hindex⟩ := List.mem_iff_getElem?.1 hs
    obtain ⟨hlt, -⟩ := List.getElem?_eq_some_iff.1 hindex
    refine (met_of_category hm hindex ht).imp_left ?_
    rintro ⟨p, hkind, hbefore, htext⟩
    exact ⟨p, hkind, Nat.lt_trans hbefore hlt, htext⟩
  · intro spec hs text ht
    obtain ⟨index, hmet⟩ := met_of_collection hm hs
    exact hmet _ _ (List.mem_append_left _ (List.mem_append_left _
      (List.mem_map.2 ⟨text, Option.mem_toList.2 ht, rfl⟩)))
  · intro spec hs text ht
    obtain ⟨index, hmet⟩ := met_of_collection hm hs
    exact hmet _ _ (List.mem_append_left _ (List.mem_append_right _
      (List.mem_map.2 ⟨text, Option.mem_toList.2 ht, rfl⟩)))
  · intro spec hs entry he
    exact or_iff_not_imp_left.2 (met_of_fixed hm hs he)
  · intro spec hs text ht
    obtain ⟨index, hmet⟩ := met_of_app hm hs
    obtain ⟨place, hplace⟩ := List.mem_iff_getElem?.1 ht
    exact hmet _ _ (List.mem_map.2 ⟨(text, place), List.mk_mem_zipIdx_iff_getElem?.2 hplace, rfl⟩)
  · exact fun spec hs => .inl (howners spec hs)
  · intro spec hs path fixed members key kind text hh hk hl
    exact met_of_content hm hs hh hk hl

/-- What two predicates say of all references together. -/
theorem References.and_imp {p q r : Kind → String → Prop} (h : pack.References p)
    (h' : pack.References q) (hr : ∀ kind text, p kind text → q kind text → r kind text) :
    pack.References r where
  parents spec hs text ht := hr _ _ (h.parents spec hs text ht) (h'.parents spec hs text ht)
  categories spec hs text ht := hr _ _ (h.categories spec hs text ht) (h'.categories spec hs text ht)
  defaultApps spec hs text ht := hr _ _ (h.defaultApps spec hs text ht) (h'.defaultApps spec hs text ht)
  fixed spec hs entry he := by
    rcases h.fixed spec hs entry he with hself | hp
    · exact .inl hself
    · exact (h'.fixed spec hs entry he).imp_right (hr _ _ hp)
  targets spec hs text ht := hr _ _ (h.targets spec hs text ht) (h'.targets spec hs text ht)
  owners spec hs := hr _ _ (h.owners spec hs) (h'.owners spec hs)
  content spec hs path fixed members key kind text hh hk hl :=
    hr _ _ (h.content spec hs path fixed members key kind text hh hk hl)
      (h'.content spec hs path fixed members key kind text hh hk hl)

/-- A pack of proto ids without issues refers to its own entries. -/
theorem closed_of_issues_eq_nil {maxEntities : Nat}
    (hr : pack.References fun _ text => ∃ p : ProtoId, text = p.text)
    (hi : pack.issues maxEntities = []) : pack.Closed := by
  have hchecked := checked_of_issues_eq_nil hi
  refine ⟨hchecked.references.and_imp hr fun _ _ => hasEntry_of_met, ?_, hchecked.usable⟩
  intro index spec hs text ht
  obtain ⟨q, hq⟩ := hr.parents spec (List.mem_of_getElem? hs) text ht
  rcases hchecked.parents index spec hs text ht with hbefore | ⟨id, hid⟩
  · exact hbefore
  · exact absurd (hid.symm.trans hq) (id.text_ne_protoId q)

/-- What a pack without issues says of itself holds of a closed one. -/
theorem Closed.checked (hc : pack.Closed) : pack.Checked where
  references := hc.references.and_imp hc.references fun _ _ h _ => .inl h
  parents index spec hs text ht := .inl (hc.parents index spec hs text ht)
  owners := hc.references.owners
  usable := hc.usable

end Pack

end ContentStore
