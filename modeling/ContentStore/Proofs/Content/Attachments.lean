import ContentStore.Proofs.Content.Conformance
import ContentStore.Proofs.Content.Resolution

/-!
# New files and the files stored for them

The walk that finds the new files of content and the walk that puts references in their places see the
same values in the same order. So the new files and the stored ones go together one by one, and nothing
but the places of new files and the ids of document references is different afterwards.
-/

namespace ContentStore

namespace Visit

/-- A file of this name, media type and bytes stands at the visited position and is not stored yet. -/
structure HoldsNewFile (visit : Visit) (name mimeType : String) (bytes : List UInt8) : Prop where
  isFile : visit.definition.dataType = .file
  written : (FileValue.new name mimeType (bytes.map fun byte => Json.ofNat byte.toNat)).WrittenAs
    visit.value

variable {visit : Visit}

theorem newFile?_eq_some_iff_holds {name mimeType : String} {bytes : List UInt8} :
    visit.newFile? = some (name, mimeType, bytes) ↔ visit.HoldsNewFile name mimeType bytes := by
  rw [newFile?_eq_some, FileValue.ofJson?_eq_some_iff, isFile, beq_iff_eq]
  constructor
  · intro h
    exact ⟨h.1, h.2⟩
  · intro h
    exact ⟨h.isFile, h.written⟩

theorem newFile?_eq_none_iff : visit.newFile? = none ↔
    ∀ name mimeType bytes, ¬ visit.HoldsNewFile name mimeType bytes := by
  simp only [Option.eq_none_iff_forall_ne_some, ← newFile?_eq_some_iff_holds, Prod.forall, ne_eq]

end Visit

/-- Visits of content as it was handed in, visits of the content that is stored, and the files stored for
it. Each new file gives way to a reference to the next of the stored files, which has its name, its media
type and its bytes; document references are resolved, and all other visited values are the same. -/
inductive Filled (resolution : Resolution) : List Visit → List Visit → List StoredFile → Prop
  | nil : Filled resolution [] [] []
  | file {visit : Visit} {file : StoredFile} {before after : List Visit} {files : List StoredFile}
      (holds : visit.HoldsNewFile file.name file.mimeType file.content)
      (rest : Filled resolution before after files) :
      Filled resolution (visit :: before)
        ({ visit with value := fileReference file.id.text file.name file.mimeType } :: after)
        (file :: files)
  | reference {visit : Visit} {before after : List Visit} {files : List StoredFile}
      (refers : visit.definition.dataType = .documentRef) (rest : Filled resolution before after files) :
      Filled resolution (visit :: before)
        ({ visit with value := resolution.resolveVisit visit } :: after) files
  | same {visit : Visit} {before after : List Visit} {files : List StoredFile}
      (noReference : visit.definition.dataType ≠ .documentRef)
      (noNew : ∀ name mimeType bytes, ¬ visit.HoldsNewFile name mimeType bytes)
      (rest : Filled resolution before after files) :
      Filled resolution (visit :: before) (visit :: after) files

namespace Resolution

variable {resolution : Resolution}

theorem resolveVisit_ne_null (resolution : Resolution) (visit : Visit) (hn : visit.value ≠ .null) :
    resolution.resolveVisit visit ≠ .null :=
  resolution.turns_keepsNonnull (d := visit.definition) hn rfl

theorem rewritten_mapped (resolution : Resolution) (visit : Visit) :
    Visit.Rewritten resolution.Turns visit (visit.mapped resolution.resolveVisit) :=
  ⟨rfl, rfl, rfl⟩

theorem newFile?_mapped (resolution : Resolution) (visit : Visit) :
    (visit.mapped resolution.resolveVisit).newFile? = visit.newFile? :=
  (newFile?_eq_of_turns (resolution.rewritten_mapped visit)).symm

theorem mapped_of_not_documentRef {visit : Visit} (hd : visit.definition.dataType ≠ .documentRef) :
    visit.mapped resolution.resolveVisit = visit := by
  have hsame := (resolution.rewritten_mapped visit).related.eq_of_not_documentRef hd
  obtain ⟨d, path, value⟩ := visit
  exact congrArg (Visit.mk d path) hsame

/-- What document references become depends on the collections and the documents alone. -/
theorem resolveVisit_congr {other : Resolution} (hc : other.collections = resolution.collections)
    (hd : other.documents = resolution.documents) : other.resolveVisit = resolution.resolveVisit := by
  have hkey : other.forKey? = resolution.forKey? := by
    unfold forKey?
    rw [hc, hd]
  have hmember : other.resolveMember = resolution.resolveMember := by
    unfold resolveMember
    rw [hkey]
  unfold resolveVisit
  rw [hmember]

@[simp] theorem resolve_empty (kind : Kind) (text : String) :
    (IdMapping.empty kind).resolve text = text := by
  unfold IdMapping.resolve
  cases ProtoId.ofKind? (IdMapping.empty kind).kind text with
  | none => rfl
  | some p =>
      by_cases hk : p.kind = (IdMapping.empty kind).kind <;>
        simp [IdMapping.get?, hk, IdMapping.empty, SortedMap.get?, SortedMap.empty]

/-- Without known positions nothing is replaced. -/
theorem resolveVisit_empty (visit : Visit) : ({} : Resolution).resolveVisit visit = visit.value := by
  have hmember : ({} : Resolution).resolveMember = id := by
    funext member
    obtain ⟨key, value⟩ := member
    rw [resolveMember_eq]
    by_cases hc : key = "collectionId"
    · cases value <;> simp [turned, forKey?, hc]
    · by_cases hd : key = "documentId"
      · cases value <;> simp [turned, forKey?, hd]
      · simp [turned, forKey?, hc, hd]
  unfold resolveVisit
  split
  · next hvalue => rw [hmember, List.map_id, hvalue]
  · rfl

theorem map_mapped_empty (visits : List Visit) :
    visits.map (Visit.mapped ({} : Resolution).resolveVisit) = visits := by
  have hid : Visit.mapped ({} : Resolution).resolveVisit = id := by
    funext visit
    simp only [Visit.mapped, resolveVisit_empty, id]
  rw [hid, List.map_id]

end Resolution

theorem Filled.congr {resolution other : Resolution} {before after : List Visit}
    {files : List StoredFile} (hc : other.collections = resolution.collections)
    (hd : other.documents = resolution.documents) (h : Filled resolution before after files) :
    Filled other before after files := by
  induction h with
  | nil => exact .nil
  | file holds _ ih => exact .file holds ih
  | reference refers _ ih =>
      rw [← Resolution.resolveVisit_congr hc hd]
      exact .reference refers ih
  | same noReference noNew _ ih => exact .same noReference noNew ih

/-- Putting references in the places of new files, of which there are as many as files, fills them. -/
theorem filled_of_placeFiles {resolution : Resolution} {visits : List Visit} {files : List StoredFile}
    (hn : ∀ visit ∈ visits, visit.value ≠ .null)
    (hf : files.map StoredFile.data = visits.filterMap Visit.newFile?) :
    Filled resolution visits (Visit.replaced (Visitor.trace placeFiles
      (visits.map (Visit.mapped resolution.resolveVisit)) (files.map StoredFile.reference))) files := by
  induction visits generalizing files with
  | nil =>
      cases files with
      | nil => exact .nil
      | cons file rest => cases hf
  | cons visit rest ih =>
      obtain ⟨hvisit, hrest⟩ := List.forall_mem_cons.1 hn
      have hmapped := resolution.newFile?_mapped visit
      cases hnew : visit.newFile? with
      | none =>
          rw [List.filterMap_cons_none hnew] at hf
          have hplace := placeFiles_of_none (hmapped.trans hnew) (files.map StoredFile.reference)
          have hput : (visit.mapped resolution.resolveVisit).value ≠ .null :=
            resolution.resolveVisit_ne_null visit hvisit
          rw [List.map_cons, Visitor.trace, hplace, Visit.replaced_cons hput]
          by_cases hd : visit.definition.dataType = .documentRef
          · exact .reference hd (ih hrest hf)
          · rw [Resolution.mapped_of_not_documentRef hd]
            exact .same hd (Visit.newFile?_eq_none_iff.1 hnew) (ih hrest hf)
      | some data =>
          rw [List.filterMap_cons_some hnew] at hf
          cases files with
          | nil => cases hf
          | cons file files =>
              obtain ⟨hdata, hothers⟩ := List.cons.inj hf
              have hplace := placeFiles_of_some (hmapped.trans hnew) file.reference
                (files.map StoredFile.reference)
              rw [List.map_cons, List.map_cons, Visitor.trace, hplace,
                Visit.replaced_cons Json.noConfusion]
              rw [← hdata] at hnew
              exact .file (Visit.newFile?_eq_some_iff_holds.1 hnew) (ih hrest hothers)

end ContentStore
