import ContentStore.Engine.Documents
import ContentStore.Proofs.Content.FileValue
import ContentStore.Proofs.Content.Outcomes

/-!
# Files put in place

Where content held a new file it refers to the stored one afterwards, which has the data of the new one.
All other visited values stay.
-/

namespace ContentStore

theorem FileValue.ofJson?_fileReference (id name mimeType : String) :
    FileValue.ofJson? (fileReference id name mimeType) = some (.stored id name mimeType) := by
  rfl

/-- What a stored file has from the new file in content: its name, its media type and its bytes. -/
def StoredFile.data (file : StoredFile) : String × String × List UInt8 :=
  (file.name, file.mimeType, file.content)

theorem StoredFile.ofJson?_reference (file : StoredFile) :
    FileValue.ofJson? file.reference = some (.stored file.id.text file.name file.mimeType) :=
  FileValue.ofJson?_fileReference _ _ _

namespace Visit

variable {visit : Visit}

/-- What a position refers to does not depend on where it is. -/
theorem documentReference?_congr {other : Visit} (hd : other.definition = visit.definition)
    (hv : other.value = visit.value) : other.documentReference? = visit.documentReference? := by
  cases visit
  cases other
  cases hd
  cases hv
  rfl

theorem text?_eq_some_iff {key text : String} :
    visit.text? key = some text ↔
      ∃ members, visit.value = .object members ∧ members.lookup key = some (.string text) := by
  unfold text? Json.get?
  cases visit.value with
  | object members =>
      cases hl : members.lookup key with
      | none => simp [hl]
      | some value => cases value <;> simp [hl, Json.string?]
  | _ => simp

/-- A document reference has the two texts. -/
theorem texts_of_documentReference? {reference : DocumentReference}
    (h : visit.documentReference? = some reference) :
    visit.text? "collectionId" = some reference.collectionId ∧
      visit.text? "documentId" = some reference.documentId := by
  unfold documentReference? at h
  split at h
  · simp only [bind, Option.bind_eq_some_iff] at h
    obtain ⟨collectionId, hc, documentId, hd, he⟩ := h
    cases he
    exact ⟨hc, hd⟩
  · cases h

/-- A position refers to a document where it is a document reference that holds the two texts. -/
theorem documentReference?_eq_some_iff {reference : DocumentReference} :
    visit.documentReference? = some reference ↔ ∃ fixed members,
      visit.definition = .documentRef fixed ∧ visit.value = .object members ∧
      members.lookup "collectionId" = some (.string reference.collectionId) ∧
      members.lookup "documentId" = some (.string reference.documentId) := by
  constructor
  · intro h
    obtain ⟨hc, hd⟩ := texts_of_documentReference? h
    obtain ⟨members, hvalue, hcollection⟩ := text?_eq_some_iff.1 hc
    obtain ⟨_, hvalue', hdocument⟩ := text?_eq_some_iff.1 hd
    cases hvalue.symm.trans hvalue'
    cases hdefinition : visit.definition with
    | documentRef fixed => exact ⟨fixed, members, rfl, hvalue, hcollection, hdocument⟩
    | _ => simp [documentReference?, isDocumentRef, hdefinition, Definition.dataType] at h
  · rintro ⟨fixed, members, hdefinition, hvalue, hcollection, hdocument⟩
    have hc : visit.text? "collectionId" = some reference.collectionId :=
      text?_eq_some_iff.2 ⟨members, hvalue, hcollection⟩
    have hd : visit.text? "documentId" = some reference.documentId :=
      text?_eq_some_iff.2 ⟨members, hvalue, hdocument⟩
    simp [documentReference?, isDocumentRef, hdefinition, Definition.dataType, hc, hd]

/-- The file that is stored has the bytes that stand in the content: the empty list that would stand for
bytes which cannot be read is never taken. -/
theorem newFile?_eq_some {name mimeType : String} {bytes : List UInt8} :
    visit.newFile? = some (name, mimeType, bytes) ↔
      visit.isFile = true ∧ FileValue.ofJson? visit.value =
        some (.new name mimeType (bytes.map fun byte => Json.ofNat byte.toNat)) := by
  unfold newFile? file?
  cases visit.isFile with
  | false => simp
  | true =>
      cases hfile : FileValue.ofJson? visit.value with
      | none => simp
      | some file =>
          cases file with
          | stored id name mimeType => simp
          | new name mimeType items =>
              obtain ⟨found, hfound⟩ := FileValue.bytes?_of_ofJson? hfile
              have hsame : items = bytes.map (fun byte => Json.ofNat byte.toNat) ↔ found = bytes := by
                rw [← FileValue.bytes?_new_eq_some_iff, hfound, Option.some.injEq]
              simp [hfound, hsame]

theorem storedFileId?_eq_some {id : String} :
    visit.storedFileId? = some id ↔ visit.isFile = true ∧
      ∃ name mimeType, FileValue.ofJson? visit.value = some (.stored id name mimeType) := by
  unfold storedFileId? file?
  cases visit.isFile with
  | false => simp
  | true =>
      cases FileValue.ofJson? visit.value with
      | none => simp
      | some file => cases file <;> simp

/-- A file is a new one or a stored one. -/
theorem newFile?_eq_none {file : FileValue} (hf : visit.isFile = true)
    (hv : FileValue.ofJson? visit.value = some file) (h : visit.newFile? = none) :
    ∃ id, visit.storedFileId? = some id := by
  cases file with
  | stored id name mimeType => exact ⟨id, storedFileId?_eq_some.2 ⟨hf, name, mimeType, hv⟩⟩
  | new name mimeType items => simp [newFile?, file?, hf, hv] at h

end Visit

/-- What stands in the place of a visited value once new files are stored: a reference to the stored one
of the given files, or the value itself where there is no new file. -/
inductive Placed (files : List StoredFile) (d : Definition) (value : Json) : Json → Prop where
  | reference {path : Path} {file : StoredFile} (mem : file ∈ files)
      (new : Visit.newFile? ⟨d, path, value⟩ = some file.data) : Placed files d value file.reference
  | same {path : Path} (noNew : Visit.newFile? ⟨d, path, value⟩ = none) : Placed files d value value

namespace Placed

variable {files : List StoredFile} {d : Definition} {value value' : Json}

theorem keepsNonnull (files : List StoredFile) : KeepsNonnull (Placed files) := by
  intro d value value' hn h
  cases h with
  | reference => exact Json.noConfusion
  | same => exact hn

/-- No new file is left in a place. -/
theorem newFile?_eq_none (h : Placed files d value value') (path : Path) :
    Visit.newFile? ⟨d, path, value'⟩ = none := by
  cases h with
  | @reference _ file _ _ =>
      cases hn : Visit.newFile? ⟨d, path, file.reference⟩ with
      | none => rfl
      | some data =>
          obtain ⟨-, hv⟩ := Visit.newFile?_eq_some.1 hn
          rw [StoredFile.ofJson?_reference] at hv
          cases hv
  | same noNew => exact noNew

theorem eq_of_not_isFile (h : Placed files d value value') (hd : d.dataType ≠ .file) :
    value' = value := by
  cases h with
  | reference _ new =>
      obtain ⟨hf, -⟩ := Visit.newFile?_eq_some.1 new
      simp [Visit.isFile, hd] at hf
  | same => rfl

end Placed

theorem placeFiles_of_none {visit : Visit} (h : visit.newFile? = none) (references : List Json) :
    placeFiles visit references = (visit.value, references) := by
  simp [placeFiles, h]

theorem placeFiles_of_some {visit : Visit} {data : String × String × List UInt8}
    (h : visit.newFile? = some data) (reference : Json) (rest : List Json) :
    placeFiles visit (reference :: rest) = (reference, rest) := by
  simp [placeFiles, h]

/-- Related visits stay related when related references are put in the places of their new files. -/
theorem Visit.rewritten_placeFiles {r : Definition → Json → Json → Prop} (hk : KeepsNonnull r)
    {visits others : List Visit} (hn : ∀ visit ∈ visits, visit.value ≠ .null)
    (h : List.Forall₂ (fun visit other =>
      Visit.Rewritten r visit other ∧ other.newFile? = visit.newFile?) visits others)
    {references references' : List Json}
    (hr : List.Forall₂ (fun reference other => reference ≠ .null ∧ other ≠ .null ∧
      ∀ d : Definition, d.dataType = .file → r d reference other) references references') :
    List.Forall₂ (Visit.Rewritten r) (replaced (Visitor.trace placeFiles visits references))
      (replaced (Visitor.trace placeFiles others references')) := by
  induction h generalizing references references' with
  | nil => exact .nil
  | @cons visit other visits others head _ ih =>
      obtain ⟨hrewritten, hnew⟩ := head
      obtain ⟨hvisit, hrest⟩ := List.forall_mem_cons.1 hn
      have hother : other.value ≠ .null := hk hvisit hrewritten.related
      -- Where no file is put, both positions keep their values.
      have hkept : placeFiles visit references = (visit.value, references) →
          placeFiles other references' = (other.value, references') →
          List.Forall₂ (Visit.Rewritten r)
            (replaced (Visitor.trace placeFiles (visit :: visits) references))
            (replaced (Visitor.trace placeFiles (other :: others) references')) := by
        intro hplace hplace'
        rw [Visitor.trace, Visitor.trace, hplace, hplace', replaced_cons hvisit, replaced_cons hother]
        exact .cons hrewritten (ih hrest hr)
      cases hdata : visit.newFile? with
      | none => exact hkept (placeFiles_of_none hdata _) (placeFiles_of_none (hnew.trans hdata) _)
      | some data =>
          cases hr with
          | nil => exact hkept (by simp [placeFiles, hdata]) (by simp [placeFiles, hnew.trans hdata])
          | cons hfirst hothers =>
              obtain ⟨hreference, hreference', hrelated⟩ := hfirst
              obtain ⟨hfile, -⟩ := newFile?_eq_some.1 hdata
              rw [Visitor.trace, Visitor.trace, placeFiles_of_some hdata,
                placeFiles_of_some (hnew.trans hdata), replaced_cons hreference,
                replaced_cons hreference']
              exact .cons ⟨hrewritten.definition, hrewritten.path, hrelated _ (beq_iff_eq.1 hfile)⟩
                (ih hrest hothers)

/-- Files that match the new files among visits, in order, are put in their places. -/
theorem placed_of_mem_trace {files : List StoredFile} {visits : List Visit}
    (h : files.map StoredFile.data = visits.filterMap Visit.newFile?) {visit : Visit} {value' : Json}
    (hm : (visit, value') ∈ Visitor.trace placeFiles visits (files.map StoredFile.reference)) :
    Placed files visit.definition visit.value value' := by
  induction visits generalizing files with
  | nil => cases hm
  | cons first rest ih =>
      cases hn : first.newFile? with
      | none =>
          rw [List.filterMap_cons_none hn] at h
          rw [Visitor.trace, placeFiles_of_none hn] at hm
          rcases List.mem_cons.1 hm with he | hm
          · cases he
            exact .same hn
          · exact ih h hm
      | some data =>
          rw [List.filterMap_cons_some hn] at h
          cases files with
          | nil => cases h
          | cons file files =>
              obtain ⟨hdata, hrest⟩ := List.cons.inj h
              rw [List.map_cons, Visitor.trace, placeFiles_of_some hn] at hm
              rcases List.mem_cons.1 hm with he | hm
              · cases he
                exact .reference (by simp) (hdata ▸ hn)
              · cases ih hrest hm with
                | reference mem new => exact .reference (List.mem_cons_of_mem _ mem) new
                | same noNew => exact .same noNew

/-- Whether a walk visited a value at some position of a definition. -/
def Visited (visits : List Visit) (d : Definition) (value : Json) : Prop :=
  ∃ path, (⟨d, path, value⟩ : Visit) ∈ visits

/-- Content with stored files in place of its new files has only those places rewritten. -/
theorem Schema.rewrites_of_placeFiles {schema : Schema} {content content' : Json}
    {files : List StoredFile} {left : List Json} {found : List Visit}
    (h : schema.changeContent placeFiles content (files.map StoredFile.reference) =
      .ok (content', left))
    (hv : schema.visitContent content = .ok found)
    (hf : files.map StoredFile.data = found.filterMap Visit.newFile?) :
    ∃ root, schema.root = .ok root ∧
      Rewrites schema (fun d value value' => Visited found d value ∧ Placed files d value value') root
        content content' := by
  obtain ⟨root, found', hroot, hv', -, hr⟩ := rewrites_of_changeContent h
  cases hv.symm.trans hv'
  exact ⟨root, hroot, hr.mono fun _ _ _ _ _ ⟨path, hm⟩ =>
    ⟨⟨path, Visitor.mem_of_mem_trace hm⟩, placed_of_mem_trace hf hm⟩⟩

/-- Content with stored files in place of its new files has the frame that it had. -/
theorem Schema.framed_of_placeFiles {schema : Schema} {content content' : Json}
    {files : List StoredFile} {left : List Json} {found : List Visit} {root : Definition}
    (hroot : schema.root = .ok root)
    (h : schema.changeContent placeFiles content (files.map StoredFile.reference) =
      .ok (content', left))
    (hv : schema.visitContent content = .ok found)
    (hf : files.map StoredFile.data = found.filterMap Visit.newFile?) :
    Framed schema root content content' := by
  obtain ⟨start, hstart, hr⟩ := Schema.rewrites_of_placeFiles h hv hf
  cases hroot.symm.trans hstart
  exact Framed.of_rewrites (fun _ _ _ hn hplaced => Placed.keepsNonnull files hn hplaced.2) hr

end ContentStore
