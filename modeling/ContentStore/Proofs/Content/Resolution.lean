import ContentStore.Proofs.Content.Files

/-!
# Content with resolved references

Resolving the proto ids of content changes the document references in it and nothing else; its files stay
what they were.
-/

namespace ContentStore

namespace Resolution

/-- What resolving makes of a value at a visited position. -/
def Turns (resolution : Resolution) (d : Definition) (value value' : Json) : Prop :=
  value' = resolution.resolveVisit ⟨d, [], value⟩

variable {resolution : Resolution} {d : Definition} {value value' : Json}

theorem turns_keepsNonnull (resolution : Resolution) : KeepsNonnull resolution.Turns := by
  rintro d value _ hn rfl
  unfold resolveVisit
  split
  · exact Json.noConfusion
  · exact hn

/-- Only document references change. -/
theorem Turns.eq_of_not_documentRef (h : resolution.Turns d value value')
    (hd : d.dataType ≠ .documentRef) : value' = value := by
  rw [h]
  unfold resolveVisit
  cases d <;> first | rfl | exact absurd rfl hd

def turned (resolution : Resolution) (key : String) (value : Json) : Json :=
  match resolution.forKey? key, value with
  | some mapping, .string id => .string (mapping.resolve id)
  | _, value => value

theorem resolveMember_eq (resolution : Resolution) (member : String × Json) :
    resolution.resolveMember member = (member.1, resolution.turned member.1 member.2) := by
  obtain ⟨key, value⟩ := member
  unfold resolveMember turned
  cases resolution.forKey? key with
  | none => rfl
  | some mapping => cases value <;> rfl

theorem lookup_map_resolveMember (resolution : Resolution) (key : String)
    (members : List (String × Json)) :
    (members.map resolution.resolveMember).lookup key =
      (members.lookup key).map (resolution.turned key) := by
  rw [funext resolution.resolveMember_eq, Entries.lookup_map]

theorem keys_map_resolveMember (resolution : Resolution) (members : List (String × Json)) :
    Entries.keys (members.map resolution.resolveMember) = Entries.keys members := by
  simp [Entries.keys, resolveMember_eq]

theorem turned_eq_string_iff {key : String} {mapping : IdMapping} {id : String}
    (hk : resolution.forKey? key = some mapping) :
    resolution.turned key value = .string id ↔
      ∃ text, value = .string text ∧ mapping.resolve text = id := by
  cases value <;> simp [turned, hk]

/-- A resolved text under a key of a document reference comes from the text there. -/
theorem exists_text_of_lookup {key : String} {mapping : IdMapping} {id : String}
    {members : List (String × Json)} (hk : resolution.forKey? key = some mapping)
    (h : (members.map resolution.resolveMember).lookup key = some (.string id)) :
    ∃ text, members.lookup key = some (.string text) ∧ mapping.resolve text = id := by
  rw [lookup_map_resolveMember] at h
  obtain ⟨value, hl, hturned⟩ := Option.map_eq_some_iff.1 h
  obtain ⟨text, rfl, hid⟩ := (turned_eq_string_iff hk).1 hturned
  exact ⟨text, hl, hid⟩

theorem lookup_of_other_key {key : String} (hc : key ≠ "collectionId") (hd : key ≠ "documentId")
    (members : List (String × Json)) :
    (members.map resolution.resolveMember).lookup key = members.lookup key := by
  have hkey : resolution.forKey? key = none := by simp [forKey?, hc, hd]
  have hsame : resolution.turned key = id := by
    funext value
    simp [turned, hkey]
  rw [lookup_map_resolveMember, hsame, Option.map_id, id]

theorem file?_eq_of_turns {before after : Visit} (h : Visit.Rewritten resolution.Turns before after) :
    after.file? = before.file? := by
  obtain ⟨hdefinition, -, hrelated⟩ := h
  have hfile : after.isFile = before.isFile := by rw [Visit.isFile, Visit.isFile, hdefinition]
  cases hf : before.isFile with
  | false => simp [Visit.file?, hf, hfile]
  | true =>
      have hd : before.definition.dataType ≠ .documentRef := by
        rw [beq_iff_eq.1 hf]
        decide
      simp [Visit.file?, hf, hfile, hrelated.eq_of_not_documentRef hd]

theorem newFile?_eq_of_turns {before after : Visit} (h : Visit.Rewritten resolution.Turns before after) :
    before.newFile? = after.newFile? := by
  rw [Visit.newFile?, Visit.newFile?, file?_eq_of_turns h]

theorem storedFileId?_eq_of_turns {before after : Visit}
    (h : Visit.Rewritten resolution.Turns before after) :
    before.storedFileId? = after.storedFileId? := by
  rw [Visit.storedFileId?, Visit.storedFileId?, file?_eq_of_turns h]

def turnedReference (resolution : Resolution) (reference : DocumentReference) : DocumentReference where
  collectionId := resolution.collections.resolve reference.collectionId
  documentId := resolution.documents.resolve reference.documentId

theorem text?_of_turns {fixed : Option String} {key : String} {mapping : IdMapping}
    (hk : resolution.forKey? key = some mapping) (h : resolution.Turns (.documentRef fixed) value value')
    (path path' : Path) :
    Visit.text? ⟨.documentRef fixed, path', value'⟩ key =
      (Visit.text? ⟨.documentRef fixed, path, value⟩ key).map mapping.resolve := by
  cases h
  cases value with
  | object members =>
      simp only [Visit.text?, resolveVisit, Json.get?, lookup_map_resolveMember]
      cases members.lookup key with
      | none => rfl
      | some held => cases held <;> simp [turned, hk, Json.string?]
  | _ => rfl

theorem isDocumentRef_of_rewritten {before after : Visit} {r : Definition → Json → Json → Prop}
    (h : Visit.Rewritten r before after) : after.isDocumentRef = before.isDocumentRef := by
  rw [Visit.isDocumentRef, Visit.isDocumentRef, h.definition]

/-- The texts of a document reference after its ids are resolved. -/
theorem text?_of_rewritten {before after : Visit} (h : Visit.Rewritten resolution.Turns before after)
    (hd : before.isDocumentRef = true) :
    after.text? "collectionId" =
        (before.text? "collectionId").map resolution.collections.resolve ∧
      after.text? "documentId" = (before.text? "documentId").map resolution.documents.resolve := by
  obtain ⟨d, path, value⟩ := before
  obtain ⟨d', path', value'⟩ := after
  obtain ⟨hdefinition, -, hrelated⟩ := h
  cases hdefinition
  cases d with
  | documentRef fixed =>
      have hcollections : resolution.forKey? "collectionId" = some resolution.collections := rfl
      have hdocuments : resolution.forKey? "documentId" = some resolution.documents := rfl
      exact ⟨text?_of_turns hcollections hrelated path path',
        text?_of_turns hdocuments hrelated path path'⟩
  | _ => cases hd

/-- A position refers to a document after its ids are resolved where it did before. -/
theorem documentReference?_of_turns {before after : Visit}
    (h : Visit.Rewritten resolution.Turns before after) :
    after.documentReference? = before.documentReference?.map resolution.turnedReference := by
  unfold Visit.documentReference?
  rw [isDocumentRef_of_rewritten h]
  cases hd : before.isDocumentRef with
  | false => rfl
  | true =>
      obtain ⟨hcollection, hdocument⟩ := text?_of_rewritten h hd
      simp only [if_true, hcollection, hdocument, bind, Option.bind, pure]
      cases before.text? "collectionId" <;> cases before.text? "documentId" <;> rfl

/-- Resolved content refers to what the content refers to, with the texts resolved. -/
theorem references_of_turns {before after : List Visit}
    (h : List.Forall₂ (Visit.Rewritten resolution.Turns) before after) :
    after.filterMap Visit.documentReference? =
      (before.filterMap Visit.documentReference?).map resolution.turnedReference := by
  rw [List.map_filterMap]
  refine (filterMap_eq_of_forall₂ ?_ h).symm
  exact fun _ _ hvisit => (documentReference?_of_turns hvisit).symm

end Resolution

namespace Schema

variable {schema : Schema} {resolution : Resolution} {content content' : Json}

theorem rewrites_of_resolveContent (h : schema.resolveContent resolution content = .ok content') :
    ∃ root found, schema.root = .ok root ∧ schema.visitContent content = .ok found ∧
      Rewrites schema resolution.Turns root content content' := by
  obtain ⟨root, found, hroot, hv, hr⟩ := rewrites_of_mapVisited h
  exact ⟨root, found, hroot, hv, hr.mono fun _ _ _ _ _ ⟨_, hp⟩ => hp⟩

/-- The ids in content of a schema in order can be resolved. -/
theorem exists_resolveContent (hs : schema.checkStructure = .ok ()) (content : Json) :
    ∃ resolved, schema.resolveContent resolution content = .ok resolved := by
  obtain ⟨result, hresult⟩ := exists_changeContent hs content ()
  exact ⟨result.1, map_eq_ok_iff.2 ⟨result, hresult, rfl⟩⟩

/-- The walks over content before and after its resolution come to the same places. -/
theorem visits_of_resolveContent (h : schema.resolveContent resolution content = .ok content')
    {after : List Visit} (ha : schema.visitContent content' = .ok after) :
    ∃ before, schema.visitContent content = .ok before ∧
      List.Forall₂ (Visit.Rewritten resolution.Turns) before after := by
  obtain ⟨root, before, hroot, hbefore, hr⟩ := rewrites_of_resolveContent h
  obtain ⟨after', ha', hrewritten⟩ :=
    hr.exists_visitContent hroot resolution.turns_keepsNonnull hbefore
  cases ha.symm.trans ha'
  exact ⟨before, hbefore, hrewritten⟩

/-- Resolved content has the new files of the content. -/
theorem newFiles_of_resolveContent (h : schema.resolveContent resolution content = .ok content')
    {after : List Visit} (ha : schema.visitContent content' = .ok after) :
    ∃ before, schema.visitContent content = .ok before ∧
      before.filterMap Visit.newFile? = after.filterMap Visit.newFile? := by
  obtain ⟨before, hbefore, hturned⟩ := visits_of_resolveContent h ha
  refine ⟨before, hbefore, filterMap_eq_of_forall₂ ?_ hturned⟩
  exact fun _ _ hvisit => Resolution.newFile?_eq_of_turns hvisit

end Schema

end ContentStore
