import ContentStore.Proofs.Content.Conformance
import ContentStore.Proofs.Content.Substitution
import ContentStore.Proofs.Id.Mapping

/-!
# The check before and after substitution

Substituting ids in a schema and in its content makes no issue. It also hides none, if positions stand
for different collection ids and none of these is in use yet: then two texts are substituted alike only
if they are the same.
-/

namespace ContentStore

theorem Resolution.turns_mapCollectionIds_iff {resolution : Resolution} {d : Definition}
    {f : String → String} {value value' : Json} :
    resolution.Turns (d.mapCollectionIds f) value value' ↔ resolution.Turns d value value' := by
  cases d with
  | documentRef fixed => cases value <;> rfl
  | _ => rfl

namespace Schema

variable {schema : Schema} {root : Definition} {content : Json}

theorem exists_reference_of_leaf {references : List IdReference} {path : Path} {fixed : Option String}
    {members : List (String × Json)} {text : String} (hroot : schema.root = .ok root)
    (h : schema.contentReferences content = .ok references)
    (hleaf : schema.Leaf root content path (.documentRef fixed) (.object members))
    (hl : members.lookup "collectionId" = some (.string text)) :
    ∃ reference ∈ references, reference.expected = .collection ∧ reference.value = text := by
  obtain ⟨found, hfound, rfl⟩ := map_eq_ok_iff.1 h
  obtain ⟨root', hroot', hvisits⟩ := visitContent_eq_ok_iff.1 hfound
  cases hroot.symm.trans hroot'
  have hvisit : (⟨.documentRef fixed, path, .object members⟩ : Visit) ∈ found :=
    (mem_visits_iff hvisits).2 ⟨rfl, Json.noConfusion, hleaf⟩
  refine ⟨⟨path ++ [.name "collectionId"], .collection, text⟩, List.mem_flatMap.2 ⟨_, hvisit, ?_⟩,
    rfl, rfl⟩
  simp [Visit.references, Visit.isDocumentRef, Definition.dataType, referenceKeys, Visit.text?, Json.get?,
    hl, Json.string?]

end Schema

namespace Validator

variable {v : Validator} {schema : Schema} {resolution : Resolution} {content content' : Json}

/-- Outcomes of two checks are alike: issues of the same kinds at the same places, or the same error. -/
def AlikeOutcomes : Findings → Findings → Prop
  | .ok issues, .ok issues' => List.Forall₂ Issue.Alike issues issues'
  | .error e, .error e' => e = e'
  | _, _ => False

theorem AlikeFindings.outcomes {a b : Findings} (h : AlikeFindings a b) : AlikeOutcomes a b := by
  obtain ⟨issues, issues', rfl, rfl, halike⟩ := h
  exact halike

theorem validate_of_checkStructure {e : StructureError} (h : schema.checkStructure = .error e)
    (content : Json) : v.validate schema content = .error e := by
  simp [validate_eq, h, bind, Except.bind]

/-- In content without issues a reference names the collection that is fixed for it. -/
theorem fixed_eq_of_validate (hv : v.validate schema content = .ok []) {root : Definition}
    (hroot : schema.root = .ok root) {path : Path} {id text : String} {members : List (String × Json)}
    (hleaf : schema.Leaf root content path (.documentRef (some id)) (.object members))
    (hl : members.lookup "collectionId" = some (.string text)) : id = text := by
  obtain ⟨hs, -⟩ := validate_eq_nil.1 hv
  obtain ⟨found, hfound⟩ := Schema.exists_visitContent hs content
  obtain ⟨root', hroot', hvisits⟩ := Schema.visitContent_eq_ok_iff.1 hfound
  cases hroot.symm.trans hroot'
  have hvisit : (⟨.documentRef (some id), path, .object members⟩ : Visit) ∈ found :=
    (Schema.mem_visits_iff hvisits).2 ⟨rfl, Json.noConfusion, hleaf⟩
  have hissues : documentRefIssues (some id) (.object members) = [] :=
    leafIssues_of_mem_visitContent hv hfound _ hvisit
  have hconforms : v.Conforms schema (.documentRef (some id)) (.object members) :=
    documentRefIssues_eq_nil.1 hissues
  cases hconforms with
  | documentRef _ collection _ same =>
      cases hl.symm.trans collection
      exact (same id rfl).symm

/-- Content resolved along its schema has alike faults under the schema with resolved ids, if resolving
tells the collection ids in the content from the fixed ones at their positions. -/
theorem validate_resolved_alike {root : Definition} (hs : schema.checkStructure = .ok ())
    (hroot : schema.root = .ok root)
    (hc : schema.resolveContent resolution content = .ok content')
    (hids : ∀ path id members text,
      schema.Leaf root content path (.documentRef (some id)) (.object members) →
      members.lookup "collectionId" = some (.string text) →
      resolution.collections.resolve id = resolution.collections.resolve text → id = text) :
    AlikeFindings (v.validate schema content)
      (v.validate (schema.resolveCollections resolution.collections) content') := by
  obtain ⟨root', found, hroot', -, hrewrites⟩ := Schema.rewrites_of_resolveContent hc
  cases hroot.symm.trans hroot'
  refine validate_alike_of_rewrites hs hroot (hrewrites.mono ?_) hids
  exact fun _ _ _ _ _ => Resolution.turns_mapCollectionIds_iff.2

/-- Content without issues has none after the substitution. If positions stand for distinct collection ids
and none of these occurs in the schema or in the content, the same issues are found before and after it,
at the same places, and the same structure error if there is one. -/
theorem validate_substituted (v : Validator) (schema : Schema) (resolution : Resolution) (content : Json) :
    (v.validate schema content = .ok [] →
      ∃ content', schema.resolveContent resolution content = .ok content' ∧
        v.validate (schema.resolveCollections resolution.collections) content' = .ok []) ∧
    (resolution.collections.values.Nodup →
      (∀ entry ∈ schema.fixedCollectionIds, entry.2 ∉ resolution.collections.values) →
      (∀ references, schema.contentReferences content = .ok references →
        ∀ reference ∈ references, reference.expected = .collection →
          reference.value ∉ resolution.collections.values) →
      match schema.resolveContent resolution content with
      | .ok content' => AlikeOutcomes (v.validate schema content)
          (v.validate (schema.resolveCollections resolution.collections) content')
      | .error _ => ∃ e, v.validate schema content = .error e) := by
  cases hs : schema.checkStructure with
  | error e =>
      have hmapped : (schema.resolveCollections resolution.collections).checkStructure = .error e :=
        Schema.checkStructure_mapCollectionIds.trans hs
      rw [validate_of_checkStructure hs]
      refine ⟨(nomatch ·), fun _ _ _ => ?_⟩
      split
      · rw [validate_of_checkStructure hmapped]
        rfl
      · exact ⟨e, rfl⟩
  | ok u =>
      obtain ⟨⟨root, hroot⟩, -⟩ := Schema.checkStructure_eq_ok_iff.1 hs
      obtain ⟨content', hcontent⟩ : ∃ content', schema.resolveContent resolution content = .ok content' :=
        Schema.exists_resolveContent hs content
      obtain ⟨references, hreferences⟩ :
          ∃ references, schema.contentReferences content = .ok references := by
        obtain ⟨found, hfound⟩ := Schema.exists_visitContent hs content
        exact ⟨_, map_eq_ok_iff.2 ⟨found, hfound, rfl⟩⟩
      constructor
      · intro hvalid
        have halike := validate_resolved_alike (v := v) hs hroot hcontent
          fun _ _ _ _ hleaf hl _ => fixed_eq_of_validate hvalid hroot hleaf hl
        exact ⟨content', hcontent, halike.eq_nil_iff.1 hvalid⟩
      · intro hdistinct hschema hheld
        rw [hcontent]
        refine (validate_resolved_alike hs hroot hcontent ?_).outcomes
        intro path id members text hleaf hl hsame
        obtain ⟨typeName, hfixed⟩ := Schema.exists_fixed_of_leaf hroot hleaf
        obtain ⟨reference, hmem, hkind, rfl⟩ :=
          Schema.exists_reference_of_leaf hroot hreferences hleaf hl
        exact IdMapping.eq_of_resolve_eq hdistinct (hschema _ hfixed)
          (hheld references hreferences reference hmem hkind) hsame

/-- Persons whose friends are in the first collection of a pack. -/
def persons : Schema :=
  Schema.ofTypes "Person" [
    ("Person", ⟨.struct [("friend", .documentRef (some "ProtoCollection_0"))] SortedMap.empty, by
      simp [Definition.DistinctKeys, Definition.DistinctPropertyKeys, Entries.keys]⟩)]

def personWithFriendIn (collectionId : String) : Json :=
  .object [("friend", .object [("collectionId", .string collectionId),
    ("documentId", .string "ProtoDocument_0")])]

/-- A friend in the first collection is right before and after the substitution, one in the second
collection is wrong before and after it. -/
theorem substituted_persons :
    let v : Validator := { formats := .builtins }
    let resolution : Resolution := { collections := .ofList .collection ["Collection_a", "Collection_b"] }
    (v.validate persons (personWithFriendIn "ProtoCollection_0") = .ok [] ∧
      ∃ content', persons.resolveContent resolution (personWithFriendIn "ProtoCollection_0") = .ok content' ∧
        v.validate (persons.resolveCollections resolution.collections) content' = .ok []) ∧
    (resolution.collections.values.Nodup ∧
      (∀ entry ∈ persons.fixedCollectionIds, entry.2 ∉ resolution.collections.values) ∧
      (∀ references, persons.contentReferences (personWithFriendIn "ProtoCollection_1") = .ok references →
        ∀ reference ∈ references, reference.expected = .collection →
          reference.value ∉ resolution.collections.values)) ∧
    ∃ content', persons.resolveContent resolution (personWithFriendIn "ProtoCollection_1") = .ok content' ∧
      v.validate persons (personWithFriendIn "ProtoCollection_1") ≠ .ok [] ∧
      AlikeOutcomes (v.validate persons (personWithFriendIn "ProtoCollection_1"))
        (v.validate (persons.resolveCollections resolution.collections) content') := by
  intro v resolution
  have hvalid : v.validate persons (personWithFriendIn "ProtoCollection_0") = .ok [] := by
    decide +kernel
  have hwrong : v.validate persons (personWithFriendIn "ProtoCollection_1") ≠ .ok [] := by
    decide +kernel
  have hdistinct : resolution.collections.values.Nodup := by
    decide +kernel
  have hschema : ∀ entry ∈ persons.fixedCollectionIds, entry.2 ∉ resolution.collections.values := by
    decide +kernel
  have hreferences : persons.contentReferences (personWithFriendIn "ProtoCollection_1") =
      .ok [⟨[.name "friend", .name "collectionId"], .collection, "ProtoCollection_1"⟩,
        ⟨[.name "friend", .name "documentId"], .document, "ProtoDocument_0"⟩] := by
    decide +kernel
  have hheld : ∀ references, persons.contentReferences (personWithFriendIn "ProtoCollection_1") =
      .ok references → ∀ reference ∈ references, reference.expected = .collection →
        reference.value ∉ resolution.collections.values := by
    intro references h
    cases hreferences.symm.trans h
    decide +kernel
  have hright := (validate_substituted v persons resolution
    (personWithFriendIn "ProtoCollection_0")).1 hvalid
  have halike := (validate_substituted v persons resolution
    (personWithFriendIn "ProtoCollection_1")).2 hdistinct hschema hheld
  have hs : persons.checkStructure = .ok () := by
    decide +kernel
  obtain ⟨content', hcontent⟩ :
      ∃ content', persons.resolveContent resolution (personWithFriendIn "ProtoCollection_1") =
        .ok content' := Schema.exists_resolveContent hs _
  rw [hcontent] at halike
  exact ⟨⟨hvalid, hright⟩, ⟨hdistinct, hschema, hheld⟩, content', hcontent, hwrong, halike⟩

end Validator

end ContentStore
