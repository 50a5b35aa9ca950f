import ContentStore.Proofs.Content.Invariance

/-!
# Scanning after substitution

The scans of a schema and of content for ids come to the same places as the substitution, so that what a
scan finds afterwards is what it found before, with each id resolved. Where positions stand for ids of
entities, exactly the known proto ids are gone.
-/

namespace ContentStore

namespace Resolution

variable {resolution : Resolution}

def turnedId (resolution : Resolution) (id : IdReference) : IdReference :=
  { id with value :=
      match id.expected with
      | .collection => resolution.collections.resolve id.value
      | .document => resolution.documents.resolve id.value
      | _ => id.value }

theorem references_of_rewritten {before after : Visit}
    (h : Visit.Rewritten resolution.Turns before after) :
    after.references = before.references.map resolution.turnedId := by
  unfold Visit.references
  rw [isDocumentRef_of_rewritten h, h.path]
  cases hd : before.isDocumentRef with
  | false => rfl
  | true =>
      obtain ⟨hcollection, hdocument⟩ := text?_of_rewritten h hd
      simp only [referenceKeys, if_true, List.filterMap_cons, hcollection, hdocument]
      cases before.text? "collectionId" <;> cases before.text? "documentId" <;> rfl

theorem flatMap_references_of_rewritten {before after : List Visit}
    (h : List.Forall₂ (Visit.Rewritten resolution.Turns) before after) :
    after.flatMap Visit.references =
      (before.flatMap Visit.references).map resolution.turnedId := by
  induction h with
  | nil => rfl
  | cons hvisit _ ih =>
      simp only [List.flatMap_cons, List.map_append, references_of_rewritten hvisit, ih]

/-- The texts that document references hold for their documents. -/
theorem documentTexts_of_rewritten {before after : List Visit}
    (h : List.Forall₂ (Visit.Rewritten resolution.Turns) before after) :
    (after.filter Visit.isDocumentRef).filterMap (Visit.text? · "documentId") =
      ((before.filter Visit.isDocumentRef).filterMap (Visit.text? · "documentId")).map
        resolution.documents.resolve := by
  induction h with
  | nil => rfl
  | @cons visit visit' _ _ hvisit _ ih =>
      have hsame := isDocumentRef_of_rewritten hvisit
      cases hd : visit.isDocumentRef with
      | false =>
          rw [hd] at hsame
          simpa [List.filter_cons, hd, hsame] using ih
      | true =>
          rw [hd] at hsame
          obtain ⟨-, hdocument⟩ := text?_of_rewritten hvisit hd
          simp only [List.filter_cons, hd, hsame, if_true, List.filterMap_cons, hdocument]
          cases visit.text? "documentId" with
          | none => simpa using ih
          | some text => simpa using ih

end Resolution

namespace Schema

variable {schema : Schema} {resolution : Resolution} {content : Json}

theorem fixedCollectionIds_resolveCollections (schema : Schema) (mapping : IdMapping) :
    (schema.resolveCollections mapping).fixedCollectionIds =
      schema.fixedCollectionIds.map fun entry => (entry.1, mapping.resolve entry.2) :=
  schema.fixedCollectionIds_mapCollectionIds mapping.resolve

theorem mem_protoCollectionIds_iff (p : ProtoId) :
    p ∈ schema.protoCollectionIds.toList ↔
      p ∈ (schema.fixedCollectionIds.map Prod.snd).filterMap (ProtoId.ofKind? .collection) := by
  unfold protoCollectionIds
  rw [SortedSet.mem_toList_ofList, List.filterMap_map]
  rfl

theorem mem_protoCollectionIds_resolveCollections {mapping : IdMapping} (h : mapping.HoldsIds)
    (p : ProtoId) :
    p ∈ (schema.resolveCollections mapping).protoCollectionIds.toList ↔
      p ∈ schema.protoCollectionIds.toList ∧ mapping.get? p = none := by
  have htexts : (schema.resolveCollections mapping).fixedCollectionIds.map Prod.snd =
      (schema.fixedCollectionIds.map Prod.snd).map mapping.resolve := by
    rw [fixedCollectionIds_resolveCollections, List.map_map, List.map_map]
    rfl
  rw [mem_protoCollectionIds_iff, mem_protoCollectionIds_iff, htexts]
  exact IdMapping.mem_protoIds_resolve_iff h .collection _ p

/-- Content that can be walked has resolved content that is walked alike. -/
theorem exists_resolved_visits {found : List Visit} (h : schema.visitContent content = .ok found)
    (resolution : Resolution) :
    ∃ content' found', schema.resolveContent resolution content = .ok content' ∧
      schema.visitContent content' = .ok found' ∧
      List.Forall₂ (Visit.Rewritten resolution.Turns) found found' := by
  obtain ⟨⟨content', s⟩, hchanged⟩ := exists_changeContent_of_visitContent h
    (fun visit (_ : Unit) => (resolution.resolveVisit visit, ())) ()
  have hresolved : schema.resolveContent resolution content = .ok content' :=
    map_eq_ok_iff.2 ⟨_, hchanged, rfl⟩
  obtain ⟨root, before, hroot, hbefore, hrewrites⟩ := rewrites_of_resolveContent hresolved
  cases h.symm.trans hbefore
  obtain ⟨found', hfound', hturned⟩ :=
    hrewrites.exists_visitContent hroot resolution.turns_keepsNonnull h
  exact ⟨content', found', hresolved, hfound', hturned⟩

theorem contentReferences_of_resolved {references : List IdReference}
    (h : schema.contentReferences content = .ok references) (resolution : Resolution) :
    ∃ content', schema.resolveContent resolution content = .ok content' ∧
      schema.contentReferences content' = .ok (references.map resolution.turnedId) := by
  obtain ⟨found, hfound, rfl⟩ := map_eq_ok_iff.1 h
  obtain ⟨content', found', hresolved, hfound', hturned⟩ := exists_resolved_visits hfound resolution
  refine ⟨content', hresolved, map_eq_ok_iff.2 ⟨found', hfound', ?_⟩⟩
  exact Resolution.flatMap_references_of_rewritten hturned

theorem protoDocumentIds_of_visits {found : List Visit} (h : schema.visitContent content = .ok found) :
    schema.protoDocumentIds content = .ok (SortedSet.ofList
      (((found.filter Visit.isDocumentRef).filterMap (Visit.text? · "documentId")).filterMap
        (ProtoId.ofKind? .document))) := by
  rw [List.filterMap_filterMap]
  exact map_eq_ok_iff.2 ⟨found, h, rfl⟩

theorem protoDocumentIds_of_resolved (h : resolution.documents.HoldsIds) {ids : SortedSet ProtoId}
    (hids : schema.protoDocumentIds content = .ok ids) :
    ∃ content' ids', schema.resolveContent resolution content = .ok content' ∧
      schema.protoDocumentIds content' = .ok ids' ∧
      ∀ p, p ∈ ids'.toList ↔ p ∈ ids.toList ∧ resolution.documents.get? p = none := by
  obtain ⟨found, hfound, -⟩ := map_eq_ok_iff.1 hids
  obtain ⟨content', found', hresolved, hfound', hturned⟩ := exists_resolved_visits hfound resolution
  refine ⟨content', _, hresolved, protoDocumentIds_of_visits hfound', fun p => ?_⟩
  cases hids.symm.trans (protoDocumentIds_of_visits hfound)
  rw [SortedSet.mem_toList_ofList, SortedSet.mem_toList_ofList,
    Resolution.documentTexts_of_rewritten hturned]
  exact IdMapping.mem_protoIds_resolve_iff h .document _ p

/-- Scanning after substitution finds what scanning before it found, with every id resolved: in a schema
under the same type names, in content at the same paths with the same kinds, each in the same order. If
the mappings give ids of entities, the proto ids found afterwards are those that they do not know. -/
theorem scan_substituted (schema : Schema) (mapping : IdMapping) (resolution : Resolution)
    (content : Json) :
    (schema.resolveCollections mapping).fixedCollectionIds =
      schema.fixedCollectionIds.map (fun entry => (entry.1, mapping.resolve entry.2)) ∧
    (∀ references, schema.contentReferences content = .ok references →
      ∃ content', schema.resolveContent resolution content = .ok content' ∧
        schema.contentReferences content' = .ok (references.map resolution.turnedId)) ∧
    (mapping.HoldsIds → ∀ p,
      p ∈ (schema.resolveCollections mapping).protoCollectionIds.toList ↔
        p ∈ schema.protoCollectionIds.toList ∧ mapping.get? p = none) ∧
    (resolution.documents.HoldsIds → ∀ ids, schema.protoDocumentIds content = .ok ids →
      ∃ content' ids', schema.resolveContent resolution content = .ok content' ∧
        schema.protoDocumentIds content' = .ok ids' ∧
        ∀ p, p ∈ ids'.toList ↔ p ∈ ids.toList ∧ resolution.documents.get? p = none) :=
  ⟨schema.fixedCollectionIds_resolveCollections mapping,
    fun _ h => contentReferences_of_resolved h resolution,
    fun h => mem_protoCollectionIds_resolveCollections h,
    fun h _ => protoDocumentIds_of_resolved h⟩

/-- Where the first collection and the first document are known, a person with a friend in the second
collection still refers to that collection by its proto id, and to no document by one. -/
theorem scan_substituted_persons :
    let mapping := @IdMapping.ofIds .collection [⟨"Collection_a", by decide⟩]
    let resolution : Resolution :=
      { collections := mapping, documents := @IdMapping.ofIds .document [⟨"Document_b", by decide⟩] }
    let content := Validator.personWithFriendIn "ProtoCollection_1"
    (mapping.HoldsIds ∧ resolution.documents.HoldsIds) ∧
    (∀ p, p ∉ (Validator.persons.resolveCollections mapping).protoCollectionIds.toList) ∧
    (∃ content', Validator.persons.resolveContent resolution content = .ok content' ∧
      Validator.persons.contentReferences content' =
        .ok [⟨[.name "friend", .name "collectionId"], .collection, "ProtoCollection_1"⟩,
          ⟨[.name "friend", .name "documentId"], .document, "Document_b"⟩]) ∧
    ∃ content' ids, Validator.persons.resolveContent resolution content = .ok content' ∧
      Validator.persons.protoDocumentIds content' = .ok ids ∧ ∀ p, p ∉ ids.toList := by
  intro mapping resolution content
  have hmapping : mapping.HoldsIds := IdMapping.holdsIds_ofIds _
  have hdocuments : resolution.documents.HoldsIds := IdMapping.holdsIds_ofIds _
  obtain ⟨-, hreferences, hcollections, hids⟩ :=
    scan_substituted Validator.persons mapping resolution content
  have hfound : Validator.persons.contentReferences content =
      .ok [⟨[.name "friend", .name "collectionId"], .collection, "ProtoCollection_1"⟩,
        ⟨[.name "friend", .name "documentId"], .document, "ProtoDocument_0"⟩] := by
    decide +kernel
  have hknown : ∀ p ∈ Validator.persons.protoCollectionIds.toList, mapping.get? p ≠ none := by
    decide +kernel
  have hspelled : (Validator.persons.protoDocumentIds content).map SortedSet.toList =
      .ok [⟨.document, 0, rfl, by decide⟩] := by
    decide +kernel
  refine ⟨⟨hmapping, hdocuments⟩, ?_, ?_, ?_⟩
  · intro p hp
    obtain ⟨hbefore, hunknown⟩ := (hcollections hmapping p).1 hp
    exact hknown p hbefore hunknown
  · obtain ⟨content', hcontent, hafter⟩ := hreferences _ hfound
    refine ⟨content', hcontent, hafter.trans ?_⟩
    decide +kernel
  · obtain ⟨before, hbefore, hlist⟩ := map_eq_ok_iff.1 hspelled
    obtain ⟨content', ids, hcontent, hafter, hiff⟩ := hids hdocuments before hbefore
    refine ⟨content', ids, hcontent, hafter, fun p hp => ?_⟩
    obtain ⟨hp, hunknown⟩ := (hiff p).1 hp
    rw [hlist, List.mem_singleton] at hp
    subst hp
    revert hunknown
    decide +kernel

end Schema

end ContentStore
