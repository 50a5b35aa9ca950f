import ContentStore.Proofs.Content.Substitution
import ContentStore.Proofs.Engine.SelfContained
import ContentStore.Proofs.Id.Denotes

/-!
# A pack with its ids resolved

The entries of a closed pack get distinct ids. A resolved schema is without faults, and resolved content
is valid, exactly where the pack says so of the schema and the content that stand in it.
-/

namespace ContentStore

theorem ProtoId.text_ne_self (p : ProtoId) : p.text ≠ selfCollection := by
  intro h
  have htext := congrArg String.toList h
  rw [p.text_toList] at htext
  cases htext

namespace IdMapping

variable {kind : Kind} {mapping : IdMapping} {listed : List (RealId kind)}

/-- The sign for a schema's own collection is left alone, and nothing else becomes it. -/
theorem resolve_eq_self_iff (h : mapping.Lists listed) {text : String} :
    mapping.resolve text = selfCollection ↔ text = selfCollection := by
  constructor
  · intro hself
    rcases resolve_cases h text with hsame | ⟨id, hid⟩
    · rw [← hsame, hself]
    · exact absurd (hid.symm.trans hself) id.text_ne_self
  · rintro rfl
    rcases resolve_cases h selfCollection with hsame | ⟨id, hid⟩
    · exact hsame
    · have hdenotes := (resolve_eq_iff h).1 hid
      generalize hself : selfCollection = text at hdenotes
      cases hdenotes with
      | @position p => exact absurd hself.symm p.text_ne_self
      | real => exact absurd hself.symm id.text_ne_self

end IdMapping

/-! ### Schemas -/

/-- A collection's id for its sign may be read before the other ids are resolved, as its proto id. -/
theorem Schema.resolveSelf_resolveCollections {mapping : IdMapping} {listed : List CollectionId}
    (h : mapping.Lists listed) {p : ProtoId} {own : CollectionId}
    (hp : mapping.resolve p.text = own.text) (schema : Schema) :
    (schema.resolveCollections mapping).resolveSelf own =
      (schema.readSelfAs p.text).resolveCollections mapping := by
  unfold resolveSelf resolveCollections readSelfAs
  rw [mapCollectionIds_mapCollectionIds, mapCollectionIds_mapCollectionIds]
  congr 1
  funext id
  simp only [Function.comp_apply, IdMapping.resolve_eq_self_iff h]
  by_cases hself : id = selfCollection <;> simp [hself, hp]

namespace Pack

variable {pack : Pack} {kind : Kind} {mapping : IdMapping} {listed : List (RealId kind)} {text : String}

/-- The proto id of an entry resolves to the id that was given to the entry. -/
theorem HasEntry.exists_id (h : pack.HasEntry kind text) (hl : mapping.Lists listed)
    (hlength : listed.length = pack.count kind) :
    ∃ (p : ProtoId) (id : RealId kind), p.kind = kind ∧ text = p.text ∧ listed[p.index]? = some id ∧
      mapping.resolve text = id.text := by
  obtain ⟨p, hkind, hlt, rfl⟩ := h
  rw [← hlength] at hlt
  have hget := List.getElem?_eq_getElem hlt
  exact ⟨p, _, hkind, rfl, hget, (IdMapping.resolve_eq_iff hl).2 (.position hkind hget)⟩

/-- Proto ids of different entries resolve to different ids. -/
theorem HasEntry.eq_of_resolve {other : String} (h : pack.HasEntry kind text)
    (hother : pack.HasEntry kind other) (hl : mapping.Lists listed)
    (hlength : listed.length = pack.count kind) (hnodup : listed.Nodup)
    (he : mapping.resolve text = mapping.resolve other) : text = other := by
  obtain ⟨p, id, hpKind, rfl, hp, hid⟩ := h.exists_id hl hlength
  obtain ⟨q, id', hqKind, rfl, hq, hid'⟩ := hother.exists_id hl hlength
  have hsame : id = id' := RealId.ext (by rw [← hid, ← hid', he])
  obtain ⟨hlt, -⟩ := List.getElem?_eq_some_iff.1 hp
  have hindex : p.index = q.index := (List.getElem?_inj hlt hnodup).1 (by rw [hp, hq, hsame])
  rw [ProtoId.ext (hpKind.trans hqKind.symm) hindex]

/-- A reference of a checked pack resolves to an id that was given to an entry, or it is an id. -/
theorem exists_resolved_of_met (h : (Demand.reference kind text).Met pack) (hl : mapping.Lists listed)
    (hlength : listed.length = pack.count kind) :
    ∃ id : RealId kind, mapping.resolve text = id.text ∧ (id ∈ listed ∨ text = id.text) := by
  rcases h with hentry | ⟨id, rfl⟩
  · obtain ⟨p, id, -, -, hget, hresolve⟩ := hentry.exists_id hl hlength
    exact ⟨id, hresolve, .inl (List.mem_of_getElem? hget)⟩
  · exact ⟨id, (IdMapping.resolve_eq_iff hl).2 .real, .inr rfl⟩

/-- The resolved schema of a collection of a checked pack fixes only ids of collections. -/
theorem Checked.shaped_fixed (hc : pack.Checked) {spec : CollectionSpec} (hs : spec ∈ pack.collections)
    {listed : List CollectionId} (hl : mapping.Lists listed)
    (hlength : listed.length = pack.count .collection) (own : CollectionId) :
    ∀ entry ∈ ((spec.schema.resolveCollections mapping).resolveSelf own).fixedCollectionIds,
      RealId.shaped .collection entry.2 = true := by
  unfold Schema.resolveSelf Schema.resolveCollections
  rw [Schema.mapCollectionIds_mapCollectionIds, Schema.fixedCollectionIds_mapCollectionIds,
    List.forall_mem_map]
  intro entry he
  simp only [Function.comp_apply, IdMapping.resolve_eq_self_iff hl]
  by_cases hself : entry.2 = selfCollection
  · rw [if_pos hself]
    exact own.valid
  · have hmet := (hc.references.fixed spec hs entry he).resolve_left hself
    obtain ⟨id, hid, -⟩ := exists_resolved_of_met hmet hl hlength
    rw [if_neg hself, hid]
    exact id.valid

theorem Checked.checkStructure_resolved (hc : pack.Checked) {spec : CollectionSpec}
    (hs : spec ∈ pack.collections) (mapping : IdMapping) (own : CollectionId) :
    ((spec.schema.resolveCollections mapping).resolveSelf own).checkStructure = .ok () := by
  unfold Schema.resolveSelf Schema.resolveCollections
  rw [Schema.checkStructure_mapCollectionIds, Schema.checkStructure_mapCollectionIds]
  exact hc.usable spec hs

/-- A collection of a closed pack has no faults in its resolved schema if its root is a struct. -/
theorem Closed.faultless_iff (hc : pack.Closed) {spec : CollectionSpec} (hs : spec ∈ pack.collections)
    {listed : List CollectionId} (hl : mapping.Lists listed)
    (hlength : listed.length = pack.count .collection) (own : CollectionId) :
    ((spec.schema.resolveCollections mapping).resolveSelf own).collectionFaults = .ok [] ↔
      ∃ properties nullable, spec.schema.resolvedRoot = .ok (.struct properties nullable) := by
  have hshaped := hc.checked.shaped_fixed hs hl hlength own
  have hstructure := hc.checked.checkStructure_resolved hs mapping own
  rw [Schema.collectionFaults_eq_nil_iff]
  unfold Schema.resolveSelf Schema.resolveCollections at *
  rw [Schema.struct_resolvedRoot_mapCollectionIds_iff, Schema.struct_resolvedRoot_mapCollectionIds_iff]
  constructor
  · exact fun h => h.2.1
  · exact fun h => ⟨hstructure, h, hshaped⟩

/-! ### Content -/

/-- A document of a pack with its collection. -/
structure Owns (pack : Pack) (spec : PackDocumentSpec) (p : ProtoId) (collection : CollectionSpec) :
    Prop where
  mem : spec ∈ pack.documents
  kind_eq : p.kind = .collection
  owner_eq : spec.collectionId = p.text
  get?_eq : pack.collections[p.index]? = some collection

variable {spec : PackDocumentSpec} {p : ProtoId} {collection : CollectionSpec}

/-- Every document of a checked pack has its collection there. -/
theorem Checked.exists_owns (hc : pack.Checked) (hs : spec ∈ pack.documents) :
    ∃ p collection, pack.Owns spec p collection := by
  obtain ⟨p, hkind, hlt, htext⟩ := hc.owners spec hs
  exact ⟨p, _, hs, hkind, htext, List.getElem?_eq_getElem hlt⟩

theorem Owns.collectionOf? (h : pack.Owns spec p collection) :
    pack.collectionOf? spec = some collection :=
  collectionOf?_eq_some_iff.2 ⟨p, h.kind_eq, h.owner_eq, h.get?_eq⟩

theorem Owns.validContent_iff (h : pack.Owns spec p collection) {validator : Validator} :
    pack.ValidContent validator spec ↔
      validator.validate (collection.schema.readSelfAs p.text) spec.content = .ok [] := by
  constructor
  · intro hvalid
    exact hvalid p collection h.kind_eq h.owner_eq h.get?_eq
  · intro hvalid q other _ hq hother
    cases ProtoId.text_injective (h.owner_eq.symm.trans hq)
    cases h.get?_eq.symm.trans hother
    exact hvalid

theorem Owns.checkStructure (h : pack.Owns spec p collection) (hc : pack.Checked) (f : String → String) :
    (collection.schema.mapCollectionIds f).checkStructure = .ok () := by
  rw [Schema.checkStructure_mapCollectionIds]
  exact hc.usable collection (List.mem_of_getElem? h.get?_eq)

/-- Whatever is mapped over the ids of the schema, the walk ends at the same positions. -/
theorem Owns.holdsAt_iff (h : pack.Owns spec p collection) {f : String → String} {root : Definition}
    (hroot : (collection.schema.mapCollectionIds f).root = .ok root) {path : Path} {d : Definition}
    {value : Json} :
    (collection.schema.mapCollectionIds f).Leaf root spec.content path d value ↔
      ∃ target, pack.HoldsAt spec path target value ∧ target.mapCollectionIds f = d := by
  rw [Schema.root_mapCollectionIds] at hroot
  obtain ⟨before, hbefore, rfl⟩ := map_eq_ok_iff.1 hroot
  constructor
  · intro hleaf
    obtain ⟨target, hleaf, htarget⟩ := hleaf.of_mapCollectionIds
    exact ⟨target, ⟨collection, before, h.collectionOf?, hbefore, hleaf⟩, htarget⟩
  · rintro ⟨target, ⟨other, otherRoot, hother, hroot, hleaf⟩, rfl⟩
    cases h.collectionOf?.symm.trans hother
    cases hbefore.symm.trans hroot
    exact hleaf.mapCollectionIds

/-- Resolved content of a closed pack is valid where the content is. -/
theorem Owns.validate_resolved_iff (h : pack.Owns spec p collection) (hc : pack.Closed)
    {resolution : Resolution} {listed : List CollectionId} (hl : resolution.collections.Lists listed)
    (hlength : listed.length = pack.count .collection) (hnodup : listed.Nodup) {content : Json}
    {validator : Validator}
    (hcontent : ((collection.schema.readSelfAs p.text).resolveCollections
      resolution.collections).resolveContent resolution spec.content = .ok content) :
    validator.validate ((collection.schema.readSelfAs p.text).resolveCollections
      resolution.collections) content = .ok [] ↔ pack.ValidContent validator spec := by
  have hmem := List.mem_of_getElem? h.get?_eq
  have hstructure : (collection.schema.readSelfAs p.text).checkStructure = .ok () :=
    h.checkStructure hc.checked _
  obtain ⟨⟨root, hroot⟩, -⟩ := Schema.checkStructure_eq_ok_iff.1 hstructure
  have hown : pack.HasEntry .collection p.text := h.owner_eq ▸ hc.references.owners spec h.mem
  have halike := Validator.validate_alike (v := validator) hstructure hroot hcontent ?_
  · rw [h.validContent_iff]
    exact halike.eq_nil_iff.symm
  -- Resolution need not be injective on texts, only on the proto ids of entries that are compared.
  · intro path id members text hleaf hlookup hresolve
    have hid : pack.HasEntry .collection id := by
      obtain ⟨typeName, hfixed⟩ := Schema.exists_fixed_of_leaf hroot hleaf
      unfold Schema.readSelfAs at hfixed
      rw [Schema.fixedCollectionIds_mapCollectionIds] at hfixed
      obtain ⟨entry, hentry, he⟩ := List.mem_map.1 hfixed
      obtain ⟨-, rfl⟩ := Prod.mk.inj he
      by_cases hself : entry.2 = selfCollection
      · simpa [hself] using hown
      · simpa [hself] using (hc.references.fixed collection hmem entry hentry).resolve_left hself
    have htext : pack.HasEntry .collection text := by
      obtain ⟨target, hholds, htarget⟩ := (h.holdsAt_iff hroot).1 hleaf
      cases target with
      | documentRef fixed =>
          exact hc.references.content spec h.mem path fixed members "collectionId" .collection text
            hholds (by simp [referenceKeys]) hlookup
      | _ => cases htarget
    exact hid.eq_of_resolve htext hl hlength hnodup hresolve

/-- What content refers to stands where the walk ends at document references. -/
theorem Owns.mem_references_iff (h : pack.Owns spec p collection) {f : String → String}
    {found : List Visit}
    (hfound : (collection.schema.mapCollectionIds f).visitContent spec.content = .ok found)
    {reference : DocumentReference} :
    reference ∈ found.filterMap Visit.documentReference? ↔ ∃ path fixed members,
      pack.HoldsAt spec path (.documentRef fixed) (.object members) ∧
      members.lookup "collectionId" = some (.string reference.collectionId) ∧
      members.lookup "documentId" = some (.string reference.documentId) := by
  obtain ⟨root, hroot, hwalk⟩ := Schema.visitContent_eq_ok_iff.1 hfound
  rw [List.mem_filterMap]
  constructor
  · rintro ⟨⟨d, path, value⟩, hvisit, hreference⟩
    obtain ⟨-, -, hleaf⟩ := (Schema.mem_visits_iff hwalk).1 hvisit
    obtain ⟨target, hholds, rfl⟩ := (h.holdsAt_iff hroot).1 hleaf
    obtain ⟨fixed, members, hd, hvalue, hlookups⟩ := Visit.documentReference?_eq_some_iff.1 hreference
    cases target with
    | documentRef fixed =>
        cases hvalue
        exact ⟨path, fixed, members, hholds, hlookups⟩
    | _ => cases hd
  · rintro ⟨path, fixed, members, hholds, hlookups⟩
    have hleaf := (h.holdsAt_iff hroot).2 ⟨_, hholds, rfl⟩
    have hvisit : (⟨.documentRef (fixed.map f), path, .object members⟩ : Visit) ∈ found :=
      (Schema.mem_visits_iff hwalk).2 ⟨rfl, Json.noConfusion, hleaf⟩
    exact ⟨_, hvisit, Visit.documentReference?_eq_some_iff.2 ⟨_, members, rfl, rfl, hlookups⟩⟩

/-- A text of a visited document reference is one of the pack's content. -/
theorem Owns.exists_holdsAt (h : pack.Owns spec p collection) {f : String → String}
    {found : List Visit}
    (hfound : (collection.schema.mapCollectionIds f).visitContent spec.content = .ok found)
    {visit : Visit} (hv : visit ∈ found) (hd : visit.isDocumentRef = true) {key text : String}
    (ht : visit.text? key = some text) : ∃ fixed members,
      pack.HoldsAt spec visit.path (.documentRef fixed) (.object members) ∧
      members.lookup key = some (.string text) := by
  obtain ⟨root, hroot, hwalk⟩ := Schema.visitContent_eq_ok_iff.1 hfound
  obtain ⟨-, -, hleaf⟩ := (Schema.mem_visits_iff hwalk).1 hv
  obtain ⟨target, hholds, htarget⟩ := (h.holdsAt_iff hroot).1 hleaf
  rw [Visit.isDocumentRef, ← htarget, Definition.dataType_mapCollectionIds] at hd
  obtain ⟨value, hvalue, htext⟩ := Option.bind_eq_some_iff.1 ht
  cases target with
  | documentRef fixed =>
      cases hmembers : visit.value with
      | object members =>
          rw [hmembers] at hholds hvalue
          refine ⟨fixed, members, hholds, ?_⟩
          cases value with
          | string found => cases htext; exact hvalue
          | _ => cases htext
      | _ => rw [hmembers] at hvalue; cases hvalue
  | _ => cases hd

/-- What resolved content of a checked pack refers to has the ids of entities. -/
theorem Owns.exists_ids_of_reference (h : pack.Owns spec p collection) (hc : pack.Checked)
    {resolution : Resolution} {collections : List CollectionId} {documents : List DocumentId}
    (hcollections : resolution.collections.Lists collections)
    (hcollectionsLength : collections.length = pack.count .collection)
    (hdocuments : resolution.documents.Lists documents)
    (hdocumentsLength : documents.length = pack.count .document) {f : String → String} {content : Json}
    (hcontent : (collection.schema.mapCollectionIds f).resolveContent resolution spec.content = .ok content)
    {visits : List Visit}
    (hvisits : (collection.schema.mapCollectionIds f).visitContent content = .ok visits)
    {reference : DocumentReference} (hr : reference ∈ visits.filterMap Visit.documentReference?) :
    (∃ id : CollectionId, reference.collectionId = id.text) ∧
      ∃ id : DocumentId, reference.documentId = id.text := by
  obtain ⟨found, hfound, hturned⟩ := Schema.visits_of_resolveContent hcontent hvisits
  rw [Resolution.references_of_turns hturned] at hr
  obtain ⟨before, hbefore, rfl⟩ := List.mem_map.1 hr
  obtain ⟨path, fixed, members, hholds, hcollection, hdocument⟩ :=
    (h.mem_references_iff hfound).1 hbefore
  have hmet := hc.references.content spec h.mem path fixed members
  obtain ⟨owner, howner, -⟩ := exists_resolved_of_met
    (hmet "collectionId" .collection _ hholds (by simp [referenceKeys]) hcollection) hcollections
    hcollectionsLength
  obtain ⟨target, htarget, -⟩ := exists_resolved_of_met
    (hmet "documentId" .document _ hholds (by simp [referenceKeys]) hdocument) hdocuments
    hdocumentsLength
  exact ⟨⟨owner, howner⟩, target, htarget⟩

/-- A reference to a document of the pack names the collection that the document names. -/
def Agrees (pack : Pack) (reference : DocumentReference) : Prop :=
  ∀ (p : ProtoId) (target : PackDocumentSpec), p.kind = .document → reference.documentId = p.text →
    pack.documents[p.index]? = some target → reference.collectionId = target.collectionId

/-- At a document reference of valid content stand the two texts of a reference. -/
theorem Owns.exists_reference (h : pack.Owns spec p collection) (hc : pack.Closed)
    {validator : Validator} (hvalid : pack.ValidContent validator spec) {path : Path}
    {fixed : Option String} {members : List (String × Json)}
    (hholds : pack.HoldsAt spec path (.documentRef fixed) (.object members)) :
    ∃ reference : DocumentReference,
      members.lookup "collectionId" = some (.string reference.collectionId) ∧
      members.lookup "documentId" = some (.string reference.documentId) := by
  have hissues := h.validContent_iff.1 hvalid
  have hstructure : (collection.schema.readSelfAs p.text).checkStructure = .ok () :=
    h.checkStructure hc.checked _
  obtain ⟨found, hfound⟩ := Schema.exists_visitContent hstructure spec.content
  obtain ⟨root, hroot, hwalk⟩ := Schema.visitContent_eq_ok_iff.1 hfound
  have hleaf := (h.holdsAt_iff hroot).2 ⟨_, hholds, rfl⟩
  have hvisit := (@Schema.mem_visits_iff _ _ _ _ hwalk ⟨_, path, .object members⟩).2
    ⟨rfl, Json.noConfusion, hleaf⟩
  have hnone := Validator.leafIssues_of_mem_visitContent hissues hfound _ hvisit
  obtain ⟨reference, hreference⟩ := Validator.exists_documentReference rfl hnone
  obtain ⟨_, _, -, hvalue, hlookups⟩ := Visit.documentReference?_eq_some_iff.1 hreference
  cases hvalue
  exact ⟨reference, hlookups⟩

/-- The references of valid content agree with the pack where its positions do. -/
theorem Owns.agreed_iff (h : pack.Owns spec p collection) (hc : pack.Closed) {validator : Validator}
    (hvalid : pack.ValidContent validator spec) {f : String → String} {found : List Visit}
    (hfound : (collection.schema.mapCollectionIds f).visitContent spec.content = .ok found) :
    (∀ reference ∈ found.filterMap Visit.documentReference?, pack.Agrees reference) ↔
      pack.AgreedReferences spec := by
  constructor
  · intro hall path fixed members q target hholds hkind hdocument htarget
    obtain ⟨reference, hcollection, hdocument'⟩ := h.exists_reference hc hvalid hholds
    have hmem := (h.mem_references_iff hfound).2
      ⟨path, fixed, members, hholds, hcollection, hdocument'⟩
    have htext : reference.documentId = q.text := by
      simpa [hdocument, eq_comm] using hdocument'
    rw [hcollection, hall reference hmem q target hkind htext htarget]
  · intro hall reference hmem q target hkind htext htarget
    obtain ⟨path, fixed, members, hholds, hcollection, hdocument⟩ := (h.mem_references_iff hfound).1 hmem
    have hagreed := hall path fixed members q target hholds hkind (htext ▸ hdocument) htarget
    simpa [hcollection] using hagreed

/-- Content of a self-contained pack refers to no stored file. -/
theorem Owns.storedFiles_eq_nil (h : pack.Owns spec p collection) (hself : pack.SelfContained)
    {f : String → String} {found : List Visit}
    (hfound : (collection.schema.mapCollectionIds f).visitContent spec.content = .ok found) :
    found.filterMap Visit.storedFileId? = [] := by
  obtain ⟨root, hroot, hwalk⟩ := Schema.visitContent_eq_ok_iff.1 hfound
  rw [List.filterMap_eq_nil_iff]
  intro visit hvisit
  rw [← Option.not_isSome_iff_eq_none, Option.isSome_iff_exists]
  rintro ⟨id, hid⟩
  obtain ⟨hfile, name, mimeType, hvalue⟩ := Visit.storedFileId?_eq_some.1 hid
  obtain ⟨-, -, hleaf⟩ := (Schema.mem_visits_iff hwalk).1 hvisit
  obtain ⟨target, hholds, htarget⟩ := (h.holdsAt_iff hroot).1 hleaf
  rw [Visit.isFile, ← htarget, Definition.dataType_mapCollectionIds] at hfile
  cases target with
  | file accept =>
      exact hself.noStoredFile spec h.mem visit.path accept visit.value id name mimeType hholds hvalue
  | _ => cases hfile

end Pack

end ContentStore
