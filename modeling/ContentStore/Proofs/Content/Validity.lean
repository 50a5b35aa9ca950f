import ContentStore.Proofs.Content.Files
import ContentStore.Proofs.Content.Findings

/-!
# Content without issues

What it means for a value to have no issue, case by case. A rewriting that makes no issue at the visited
positions makes none anywhere.
-/

namespace ContentStore

namespace Validator

variable {v : Validator} {schema : Schema} {d : Definition} {value value' : Json}

/-- The check of a value finds nothing wrong. -/
def Admits (v : Validator) (schema : Schema) (d : Definition) (value : Json) : Prop :=
  v.findings schema value d = .ok []

private theorem map_under_eq_nil {segment : Segment} {findings : Findings} :
    findings.map (List.map (Issue.under segment)) = .ok [] ↔ findings = .ok [] := by
  simp [map_eq_ok_iff]

theorem unknownKeyIssues_eq_nil {declared : List String} {members : List (String × Json)} :
    unknownKeyIssues declared members = [] ↔ ∀ key ∈ Entries.keys members, key ∈ declared := by
  simp [unknownKeyIssues, Entries.keys]

/-- An object without issues has every declared member, without issues unless it is null and may be, and
no other member. -/
theorem admits_struct {properties : List (String × Definition)} {nullable : SortedSet String}
    (h : schema.resolve d = .ok (.struct properties nullable)) {members : List (String × Json)} :
    v.Admits schema d (.object members) ↔
      (∀ key part, (key, part) ∈ properties → ∃ value, members.lookup key = some value ∧
        ((value.isNull = true ∧ nullable.contains key = true) ∨ v.Admits schema part value)) ∧
      ∀ key ∈ Entries.keys members, key ∈ Entries.keys properties := by
  have hproperty : ∀ key part, v.propertyIssues schema members nullable (key, part) = .ok [] ↔
      ∃ value, members.lookup key = some value ∧
        ((value.isNull = true ∧ nullable.contains key = true) ∨ v.Admits schema part value) := by
    intro key part
    unfold propertyIssues Admits
    cases hl : members.lookup key with
    | none => simp
    | some value =>
        by_cases hn : (value.isNull && nullable.contains key) = true
        · simp [Bool.and_eq_true_iff.1 hn]
        · have hn' : ¬ (value.isNull = true ∧ nullable.contains key = true) := by
            simpa [Bool.and_eq_true_iff] using hn
          simp only [hn, Bool.false_eq_true, if_false, map_under_eq_nil, Option.some.injEq,
            exists_eq_left', hn', false_or]
  rw [Admits, findings_struct h, ← unknownKeyIssues_eq_nil]
  simp only [map_eq_ok_iff, List.append_eq_nil_iff, ← and_assoc, exists_and_right,
    exists_eq_right]
  rw [gather_eq_nil_iff]
  simp only [List.forall_mem_map, Prod.forall, hproperty]

theorem admits_list {element : Definition} (h : schema.resolve d = .ok (.list element))
    {items : List Json} :
    v.Admits schema d (.array items) ↔ ∀ item ∈ items, v.Admits schema element item := by
  rw [Admits, findings_list h, gather_eq_nil_iff]
  simp only [List.forall_mem_map, map_under_eq_nil, Admits]
  constructor
  · intro hall item hitem
    obtain ⟨place, hplace⟩ := List.mem_iff_getElem?.1 hitem
    exact hall (item, place) (List.mk_mem_zipIdx_iff_getElem?.2 hplace)
  · rintro hall ⟨item, place⟩ hmem
    exact hall item (List.fst_mem_of_mem_zipIdx hmem)

theorem admits_of_not_opens {target : Definition} (h : schema.resolve d = .ok target)
    (ho : target.opens value = false) : v.Admits schema d value ↔ v.leafIssues target value = [] := by
  rw [Admits, findings_of_not_opens h ho, Except.ok.injEq]

/-- A rewriting that makes no issue where it changes a value makes none. -/
theorem admits_of_rewrites {r : Definition → Json → Json → Prop} (hr : KeepsNonnull r)
    (hleaf : ∀ d value value', r d value value' → v.leafIssues d value = [] → v.leafIssues d value' = [])
    (h : Rewrites schema r d value value') (hv : v.Admits schema d value) :
    v.Admits schema d value' := by
  induction h with
  | null => exact hv
  | struct resolved keys declared _ ih =>
      obtain ⟨hparts, hunknown⟩ := (admits_struct resolved).1 hv
      refine (admits_struct resolved).2 ⟨?_, keys ▸ hunknown⟩
      intro key part hp
      obtain ⟨value, hl, hvalue⟩ := hparts key part hp
      obtain ⟨value', hl'⟩ := Entries.exists_lookup_of_keys_eq keys hl
      refine ⟨value', hl', ?_⟩
      rw [(declared key part value value' hp hl hl').isNull_eq hr]
      exact hvalue.imp_right (ih key part value value' hp hl hl')
  | list resolved length _ ih =>
      have hitems := (admits_list resolved).1 hv
      refine (admits_list resolved).2 fun item hitem => ?_
      obtain ⟨place, hplace⟩ := List.mem_iff_getElem?.1 hitem
      obtain ⟨hlt, -⟩ := List.getElem?_eq_some_iff.1 hplace
      have hbefore := List.getElem?_eq_getElem (length ▸ hlt)
      exact ih place _ item hbefore hplace (hitems _ (List.mem_of_getElem? hbefore))
  | visited resolved visited _ related =>
      rw [admits_of_not_opens resolved (Definition.opens_of_isVisited visited _)] at hv ⊢
      exact hleaf _ _ _ related hv
  | kept => exact hv

private theorem leafIssues_of_not_opens {target : Definition} {found : List Visit}
    (hr : schema.resolve d = .ok target) (ho : target.opens value = false) (hn : value ≠ .null)
    (hv : v.Admits schema d value) (h : schema.visits value d = .ok found) :
    ∀ visit ∈ found, v.leafIssues visit.definition visit.value = [] := by
  rw [Schema.visits_of_not_opens hr ho hn] at h
  cases h
  intro visit hvisit
  unfold Schema.visitsHere at hvisit
  split at hvisit
  · cases List.mem_singleton.1 hvisit
    exact (admits_of_not_opens hr ho).1 hv
  · cases hvisit

private theorem leafIssues_under {segment : Segment} {part : Except StructureError (List Visit)}
    {here : List Visit} (hp : part.map (List.map (Visit.under segment)) = .ok here)
    (h : ∀ found, part = .ok found →
      ∀ visit ∈ found, v.leafIssues visit.definition visit.value = []) :
    ∀ visit ∈ here, v.leafIssues visit.definition visit.value = [] := by
  obtain ⟨found, hfound, rfl⟩ := map_eq_ok_iff.1 hp
  exact List.forall_mem_map.2 (h found hfound)

/-- Where a value has no issue, none of its visited positions has one. -/
theorem leafIssues_of_mem_visits {found : List Visit} (hv : v.Admits schema d value)
    (h : schema.visits value d = .ok found) :
    ∀ visit ∈ found, v.leafIssues visit.definition visit.value = [] := by
  induction value using Json.treeInduction generalizing d found with
  | null =>
      cases (Schema.visits_null schema d).symm.trans h
      simp
  | array items ih =>
      obtain ⟨target, hr⟩ := Schema.exists_resolve_of_visits (by simp) h
      cases ho : target.opens (.array items) with
      | false => exact leafIssues_of_not_opens hr ho (by simp) hv h
      | true =>
          obtain ⟨element, rfl⟩ := Definition.eq_list_of_opens ho
          rw [Schema.visits_list hr] at h
          have hitems := (admits_list hr).1 hv
          refine gather_forall h fun part hpart here hhere => ?_
          obtain ⟨⟨item, place⟩, hmem, rfl⟩ := List.mem_map.1 hpart
          have hitem := List.fst_mem_of_mem_zipIdx hmem
          exact leafIssues_under hhere fun found hf => ih item hitem (hitems item hitem) hf
  | object members ih =>
      obtain ⟨target, hr⟩ := Schema.exists_resolve_of_visits (by simp) h
      cases ho : target.opens (.object members) with
      | false => exact leafIssues_of_not_opens hr ho (by simp) hv h
      | true =>
          obtain ⟨properties, nullable, rfl⟩ := Definition.eq_struct_of_opens ho
          rw [Schema.visits_struct hr] at h
          obtain ⟨hparts, -⟩ := (admits_struct hr).1 hv
          refine gather_forall h fun part hpart here hhere => ?_
          obtain ⟨⟨key, definition⟩, hmem, rfl⟩ := List.mem_map.1 hpart
          obtain ⟨member, hl, hmember⟩ := hparts key definition hmem
          simp only [Schema.propertyVisits, hl] at hhere
          refine leafIssues_under hhere fun found hf => ?_
          rcases hmember with ⟨hnull, -⟩ | hadmits
          · cases Json.isNull_iff.1 hnull
            cases (Schema.visits_null schema definition).symm.trans hf
            simp
          · exact ih _ (Entries.mem_of_lookup hl) hadmits hf
  | _ =>
      obtain ⟨target, hr⟩ := Schema.exists_resolve_of_visits (by simp) h
      exact leafIssues_of_not_opens hr (by cases target <;> rfl) (by simp) hv h

/-! ### References and files without issues -/

theorem exists_text_of_textKeyIssues {members : List (String × Json)} {key : String}
    (h : textKeyIssues members key = []) :
    ∃ text, (members.lookup key).bind Json.string? = some text := by
  unfold textKeyIssues at h
  cases hl : members.lookup key with
  | none => simp [hl] at h
  | some found =>
      cases found with
      | string text => exact ⟨text, rfl⟩
      | _ => simp [hl] at h

/-- A document reference without issues has the texts of the collection and the document. -/
theorem exists_documentReference {visit : Visit} (hd : visit.isDocumentRef = true)
    (h : v.leafIssues visit.definition visit.value = []) :
    ∃ reference, visit.documentReference? = some reference := by
  have hissues : ∃ fixed, documentRefIssues fixed visit.value = [] := by
    cases hdef : visit.definition with
    | documentRef fixed =>
        rw [hdef] at h
        exact ⟨fixed, h⟩
    | _ => simp [Visit.isDocumentRef, hdef, Definition.dataType] at hd
  obtain ⟨fixed, hissues⟩ := hissues
  cases hvalue : visit.value with
  | object members =>
      rw [hvalue] at hissues
      simp only [documentRefIssues, documentKeys, List.flatMap_cons, List.flatMap_nil,
        List.append_nil, List.append_eq_nil_iff] at hissues
      obtain ⟨⟨⟨hcollection, hdocument⟩, -⟩, -⟩ := hissues
      obtain ⟨collectionId, hc⟩ := exists_text_of_textKeyIssues hcollection
      obtain ⟨documentId, hdoc⟩ := exists_text_of_textKeyIssues hdocument
      refine ⟨⟨collectionId, documentId⟩, ?_⟩
      simp [Visit.documentReference?, hd, Visit.text?, hvalue, Json.get?, hc, hdoc]
  | _ => simp [hvalue, documentRefIssues] at hissues

/-- A file without issues is a stored or a new one. -/
theorem exists_fileValue {visit : Visit} (hf : visit.isFile = true)
    (h : v.leafIssues visit.definition visit.value = []) :
    ∃ file, FileValue.ofJson? visit.value = some file := by
  cases hdef : visit.definition with
  | file accept =>
      rw [hdef] at h
      cases hvalue : FileValue.ofJson? visit.value with
      | none => simp [leafIssues, fileIssues, hvalue] at h
      | some file => exact ⟨file, rfl⟩
  | _ => simp [Visit.isFile, hdef, Definition.dataType] at hf

theorem fileIssues_eq_of_same {accept : Option (SortedMap String (List String))} {file file' : FileValue}
    (h : FileValue.ofJson? value = some file) (h' : FileValue.ofJson? value' = some file')
    (hname : file'.name = file.name) (hmime : file'.mimeType = file.mimeType) :
    fileIssues accept value' = fileIssues accept value := by
  cases accept <;> simp [fileIssues, h, h', hname, hmime]

/-- The reference to a stored file is accepted where the new file was. -/
theorem leafIssues_of_placed {files : List StoredFile} (h : Placed files d value value')
    (hv : v.leafIssues d value = []) : v.leafIssues d value' = [] := by
  cases h with
  | same => exact hv
  | @reference path file _ new =>
      obtain ⟨hf, hnew⟩ := Visit.newFile?_eq_some.1 new
      cases d with
      | file accept =>
          have hsame : fileIssues accept file.reference = fileIssues accept value :=
            fileIssues_eq_of_same hnew (StoredFile.ofJson?_reference file) rfl rfl
          exact hsame.trans hv
      | _ => simp [Visit.isFile, Definition.dataType] at hf

/-! ### Content -/

theorem validate_of_root {root : Definition} (hs : schema.checkStructure = .ok ())
    (hroot : schema.root = .ok root) (content : Json) :
    v.validate schema content = v.findings schema content root := by
  simp [validate_eq, hs, hroot, bind, Except.bind]

theorem validate_eq_nil {content : Json} :
    v.validate schema content = .ok [] ↔
      schema.checkStructure = .ok () ∧ ∃ root, schema.root = .ok root ∧ v.Admits schema root content := by
  rw [validate_eq]
  unfold Admits
  cases schema.checkStructure with
  | error e => simp [bind, Except.bind]
  | ok u => cases schema.root <;> simp [bind, Except.bind]

/-- Valid content stays valid when stored files take the places of its new ones. -/
theorem validate_of_placed {files : List StoredFile} {root : Definition} {content content' : Json}
    (hroot : schema.root = .ok root) (h : Rewrites schema (Placed files) root content content')
    (hv : v.validate schema content = .ok []) : v.validate schema content' = .ok [] := by
  obtain ⟨hstructure, root', hroot', hadmits⟩ := validate_eq_nil.1 hv
  cases hroot.symm.trans hroot'
  exact validate_eq_nil.2 ⟨hstructure, root, hroot,
    admits_of_rewrites (Placed.keepsNonnull files) (fun _ _ _ => leafIssues_of_placed) h hadmits⟩

theorem leafIssues_of_mem_visitContent {content : Json} {found : List Visit}
    (hv : v.validate schema content = .ok []) (h : schema.visitContent content = .ok found) :
    ∀ visit ∈ found, v.leafIssues visit.definition visit.value = [] := by
  obtain ⟨-, root, hroot, hadmits⟩ := validate_eq_nil.1 hv
  obtain ⟨root', hroot', hwalk⟩ := Schema.visitContent_eq_ok_iff.1 h
  cases hroot.symm.trans hroot'
  exact leafIssues_of_mem_visits hadmits hwalk

end Validator

end ContentStore
