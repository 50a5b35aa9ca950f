import ContentStore.Proofs.Content.Attachments
import ContentStore.Proofs.Content.Substitution

/-!
# Content that differs in the documents that it refers to

Two contents may be the same but for the ids of documents in their document references. Such contents are
valid together, hold the same files and refer to corresponding documents, and they stay so when the same
stored files are put in the places of their new ones.
-/

namespace ContentStore

def Json.mapText (f : String → String) : Json → Json
  | .string text => .string (f text)
  | value => value

/-- A document reference with the id of its document mapped; every other value as it was. -/
inductive Redirects (f : String → String) : Definition → Json → Json → Prop where
  | reference {fixed : Option String} {members changed : List (String × Json)}
      (keys : Entries.keys changed = Entries.keys members)
      (document : changed.lookup "documentId" = (members.lookup "documentId").map (Json.mapText f))
      (others : ∀ key, key ≠ "documentId" → changed.lookup key = members.lookup key) :
      Redirects f (.documentRef fixed) (.object members) (.object changed)
  | same {d : Definition} {value : Json}
      (other : d.dataType ≠ .documentRef ∨ ∀ members, value ≠ .object members) :
      Redirects f d value value

namespace Redirects

variable {f : String → String} {d : Definition} {value value' : Json}

theorem keepsNonnull (f : String → String) : KeepsNonnull (Redirects f) := by
  intro d value value' hn h
  cases h with
  | reference => exact Json.noConfusion
  | same => exact hn

theorem nonnull_of_nonnull (f : String → String) : KeepsNonnull fun d value value' =>
    Redirects f d value' value := by
  intro d value value' hn h
  cases h with
  | reference => exact Json.noConfusion
  | same => exact hn

theorem eq_of_not_documentRef (h : Redirects f d value value') (hd : d.dataType ≠ .documentRef) :
    value' = value := by
  cases h with
  | reference => exact absurd rfl hd
  | same => rfl

/-- The check of a document reference does not ask which document it goes to. -/
theorem leafIssues_eq {v : Validator} (h : Redirects f d value value') :
    v.leafIssues d value' = v.leafIssues d value := by
  cases h with
  | @reference fixed members changed keys document others =>
      have hcollection := others "collectionId" (by decide)
      have htext : Validator.textKeyIssues changed "documentId" =
          Validator.textKeyIssues members "documentId" := by
        unfold Validator.textKeyIssues
        rw [document]
        cases members.lookup "documentId" with
        | none => rfl
        | some found => cases found <;> rfl
      have htext' : Validator.textKeyIssues changed "collectionId" =
          Validator.textKeyIssues members "collectionId" := by
        unfold Validator.textKeyIssues
        rw [hcollection]
      simp only [Validator.leafIssues, Validator.documentRefIssues, Validator.documentKeys,
        List.flatMap_cons, List.flatMap_nil, htext, htext', Validator.unknownKeyIssues_congr keys,
        Validator.otherCollectionIssues, hcollection]
  | same => rfl

end Redirects

/-! ## Positions -/

def DocumentReference.redirect (f : String → String) (reference : DocumentReference) :
    DocumentReference :=
  { reference with documentId := f reference.documentId }

namespace Visit

variable {f : String → String} {before after : Visit}

theorem text?_of_redirected (h : Visit.Rewritten (Redirects f) before after)
    (hd : before.isDocumentRef = true) :
    after.text? "collectionId" = before.text? "collectionId" ∧
      after.text? "documentId" = (before.text? "documentId").map f := by
  obtain ⟨d, path, value⟩ := before
  obtain ⟨d', path', value'⟩ := after
  obtain ⟨hdefinition, -, hrelated⟩ := h
  simp only at hdefinition hrelated
  cases hrelated with
  | @reference fixed members changed keys document others =>
      simp only [text?, Json.get?, document, others "collectionId" (by decide)]
      refine ⟨trivial, ?_⟩
      cases members.lookup "documentId" with
      | none => rfl
      | some found => cases found <;> rfl
  | same other =>
      have hvalue : ∀ members, value ≠ .object members :=
        other.resolve_left fun hother => hother (beq_iff_eq.1 hd)
      have hnone : ∀ key, text? ⟨d, path, value⟩ key = none ∧ text? ⟨d', path', value⟩ key = none := by
        intro key
        cases value with
        | object members => exact absurd rfl (hvalue members)
        | _ => exact ⟨rfl, rfl⟩
      simp only [hnone, Option.map_none, and_self]

theorem documentReference?_of_redirected (h : Visit.Rewritten (Redirects f) before after) :
    after.documentReference? = before.documentReference?.map (DocumentReference.redirect f) := by
  unfold documentReference?
  rw [Resolution.isDocumentRef_of_rewritten h]
  cases hd : before.isDocumentRef with
  | false => rfl
  | true =>
      obtain ⟨hcollection, hdocument⟩ := text?_of_redirected h hd
      simp only [if_true, hcollection, hdocument, bind, Option.bind, pure]
      cases before.text? "collectionId" <;> cases before.text? "documentId" <;> rfl

theorem file?_of_redirected (h : Visit.Rewritten (Redirects f) before after) :
    after.file? = before.file? := by
  have hfile : after.isFile = before.isFile := by rw [isFile, isFile, h.definition]
  unfold file?
  rw [hfile]
  cases hf : before.isFile with
  | false => rfl
  | true =>
      have hd : before.definition.dataType ≠ .documentRef := by
        rw [beq_iff_eq.1 hf]
        decide
      rw [h.related.eq_of_not_documentRef hd]

theorem newFile?_of_redirected (h : Visit.Rewritten (Redirects f) before after) :
    after.newFile? = before.newFile? := by
  rw [newFile?, newFile?, file?_of_redirected h]

theorem storedFileId?_of_redirected (h : Visit.Rewritten (Redirects f) before after) :
    after.storedFileId? = before.storedFileId? := by
  rw [storedFileId?, storedFileId?, file?_of_redirected h]

end Visit

/-- Resolving an id in two steps and in one redirects where the documents are resolved otherwise. -/
theorem Resolution.redirected_mapped {first second atOnce : Resolution} {f : String → String}
    {visit : Visit}
    (hc : ∀ text, atOnce.collections.resolve text =
      second.collections.resolve (first.collections.resolve text))
    (hd : visit.isDocumentRef = true → ∀ text, visit.text? "documentId" = some text →
      atOnce.documents.resolve text = f (second.documents.resolve (first.documents.resolve text))) :
    Visit.Rewritten (Redirects f)
      ((visit.mapped first.resolveVisit).mapped second.resolveVisit)
      (visit.mapped atOnce.resolveVisit) := by
  obtain ⟨d, path, value⟩ := visit
  refine ⟨rfl, rfl, ?_⟩
  cases d with
  | documentRef fixed =>
      cases value with
      | object members =>
          refine .reference ?_ ?_ ?_
          · simp only [keys_map_resolveMember]
          · have htext := hd rfl
            simp only [Visit.text?, Json.get?] at htext
            simp only [lookup_map_resolveMember]
            cases hl : members.lookup "documentId" with
            | none => rfl
            | some found =>
                cases found with
                | string text =>
                    simp only [Option.map_some, turned, forKey?, Json.mapText]
                    simp [htext text (by simp [hl, Json.string?])]
                | _ => rfl
          · intro key hkey
            by_cases hcollection : key = "collectionId"
            · subst hcollection
              simp only [lookup_map_resolveMember]
              cases members.lookup "collectionId" with
              | none => rfl
              | some found => cases found <;> simp [turned, forKey?, hc]
            · simp only [lookup_of_other_key hcollection hkey]
      | _ => exact .same (.inr fun _ => Json.noConfusion)
  | _ => exact .same (.inl (by rintro ⟨⟩))

/-! ## Contents -/

namespace Rewrites

variable {schema : Schema} {f : String → String} {root : Definition} {content content' : Json}

/-- Redirected content is valid where the content is. -/
theorem validate_redirected_iff {v : Validator} (hroot : schema.root = .ok root)
    (h : Rewrites schema (Redirects f) root content content') :
    v.validate schema content' = .ok [] ↔ v.validate schema content = .ok [] := by
  rw [Validator.validate_eq_nil, Validator.validate_eq_nil]
  simp only [hroot, Except.ok.injEq, exists_eq_left']
  apply and_congr_right
  intro _
  constructor
  · refine Validator.admits_of_rewrites (Redirects.nonnull_of_nonnull f) ?_
      (h.symm (Redirects.keepsNonnull f))
    intro d value value' hredirects hissues
    rw [← hredirects.leafIssues_eq, hissues]
  · refine Validator.admits_of_rewrites (Redirects.keepsNonnull f) ?_ h
    intro d value value' hredirects hissues
    rw [hredirects.leafIssues_eq, hissues]

/-- Redirected contents stay so with the same files in the places of their new ones. -/
theorem redirected_placed (hroot : schema.root = .ok root)
    (h : Rewrites schema (Redirects f) root content content') {files : List StoredFile}
    {found : List Visit} (hv : schema.visitContent content = .ok found)
    (hf : files.map StoredFile.data = found.filterMap Visit.newFile?) {placed placed' : Json}
    {left left' : List Json}
    (hp : schema.changeContent placeFiles content (files.map StoredFile.reference) = .ok (placed, left))
    (hp' : schema.changeContent placeFiles content' (files.map StoredFile.reference) =
      .ok (placed', left')) :
    Rewrites schema (Redirects f) root placed placed' := by
  obtain ⟨found', hv', hrewritten⟩ := h.exists_visitContent hroot (Redirects.keepsNonnull f) hv
  have hf' : files.map StoredFile.data = found'.filterMap Visit.newFile? := by
    refine hf.trans (filterMap_eq_of_forall₂ ?_ hrewritten)
    exact fun _ _ hr => (Visit.newFile?_of_redirected hr).symm
  have hframe : Framed schema root placed placed' :=
    ((Schema.framed_of_placeFiles hroot hp hv hf).symm.trans
      (Framed.of_rewrites (Redirects.keepsNonnull f) h)).trans
      (Schema.framed_of_placeFiles hroot hp' hv' hf')
  refine hframe.rewrites_of_visitContent hroot (Schema.visitContent_of_changeContent hp hv)
    (Schema.visitContent_of_changeContent hp' hv') ?_
  refine Visit.rewritten_placeFiles (Redirects.keepsNonnull f) ?_ ?_ (List.forall₂_same.2 ?_)
  · exact fun visit hvisit => Schema.value_ne_null_of_mem_visitContent hv hvisit
  · exact hrewritten.imp fun _ _ hr => ⟨hr, Visit.newFile?_of_redirected hr⟩
  · intro reference hreference
    obtain ⟨file, -, rfl⟩ := List.mem_map.1 hreference
    refine ⟨Json.noConfusion, Json.noConfusion, fun d hd => .same (.inl ?_)⟩
    rw [hd]
    decide

end Rewrites

/-- Content whose ids are resolved in two steps is redirected to the content resolved at once. -/
theorem Schema.redirected_resolveContent {schema : Schema} {first second atOnce : Resolution}
    {f : String → String} {root : Definition} {handedIn middle content content' : Json}
    {found : List Visit} (hroot : schema.root = .ok root)
    (hv : schema.visitContent handedIn = .ok found)
    (hfirst : schema.resolveContent first handedIn = .ok middle)
    (hsecond : schema.resolveContent second middle = .ok content)
    (hatOnce : schema.resolveContent atOnce handedIn = .ok content')
    (hc : ∀ text, atOnce.collections.resolve text =
      second.collections.resolve (first.collections.resolve text))
    (hd : ∀ visit ∈ found, visit.isDocumentRef = true → ∀ text, visit.text? "documentId" = some text →
      atOnce.documents.resolve text = f (second.documents.resolve (first.documents.resolve text))) :
    Rewrites schema (Redirects f) root content content' := by
  have hnonnull : ∀ (resolution : Resolution) (visit : Visit), visit.value ≠ .null →
      resolution.resolveVisit visit ≠ .null := Resolution.resolveVisit_ne_null
  have hmiddle := visitContent_of_mapVisited hfirst hv (hnonnull first)
  have hcontent := visitContent_of_mapVisited hsecond hmiddle (hnonnull second)
  have hcontent' := visitContent_of_mapVisited hatOnce hv (hnonnull atOnce)
  have hframed : ∀ {resolution : Resolution} {before after : Json},
      schema.resolveContent resolution before = .ok after → Framed schema root before after := by
    intro resolution before after h
    obtain ⟨start, -, hstart, -, hrewrites⟩ := rewrites_of_resolveContent h
    cases hroot.symm.trans hstart
    exact .of_rewrites resolution.turns_keepsNonnull hrewrites
  have hframe : Framed schema root content content' :=
    ((hframed hfirst).trans (hframed hsecond)).symm.trans (hframed hatOnce)
  refine hframe.rewrites_of_visitContent hroot hcontent hcontent' ?_
  rw [List.map_map, List.forall₂_map_left_iff, List.forall₂_map_right_iff, List.forall₂_same]
  exact fun visit hvisit => Resolution.redirected_mapped hc (hd visit hvisit)

end ContentStore
