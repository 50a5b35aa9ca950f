import ContentStore.Proofs.Engine.Mirrors

/-!
# Documents with corresponding references

A document whose content is redirected along a renaming is created in a transaction that mirrors another
one exactly where the document is created in that one, with the same files and the redirected content.
-/

namespace ContentStore

variable {final base committed committed' : Tables} {ρ : Renaming} {now later : Supply}
  {work work' : Work}

/-- Pending documents whose ids are renamed. -/
def Pending.DocumentsRenamed (ρ : Renaming) (pending renamed : Pending) : Prop :=
  ∀ id, renamed.documents.lookup (ρ.document id) = pending.documents.lookup id

namespace Mirrors

variable {pending renamed : Pending} {ownId : DocumentId} {own : CollectionId}

theorem collectionId_eq (h : Mirrors final base ρ committed committed' now later work work')
    (hb : base.KeptBy ρ) (id : DocumentId) :
    Option.map Document.collectionId (work'.get? committed' .document (ρ.document id)) =
      Option.map Document.collectionId (work.get? committed .document id) := by
  obtain ⟨rows, renamed, hrows, hrenamed, hr⟩ := h.rows
  rw [Work.get?_eq_of_clear (h.unique .document (by decide)), hrows,
    Work.get?_eq_of_clear (h.unique' .document (by decide)), hrenamed]
  exact hr.collectionId_eq hb id

theorem ownerOf?_eq (h : Mirrors final base ρ committed committed' now later work work')
    (hb : base.KeptBy ρ) (hp : pending.DocumentsRenamed ρ renamed) (id : DocumentId) :
    work'.ownerOf? committed' renamed (ρ.document ownId) own (ρ.document id) =
      work.ownerOf? committed pending ownId own id := by
  unfold Work.ownerOf?
  by_cases hid : id = ownId
  · rw [hid, if_pos rfl, if_pos rfl]
  · have hmoved : ρ.document id ≠ ρ.document ownId := fun hsame => hid (ρ.document.injective hsame)
    rw [if_neg hmoved, if_neg hid, hp id]
    cases pending.documents.lookup id with
    | some collection => rfl
    | none => exact h.collectionId_eq hb id

/-- A redirected reference is found where the reference is. -/
theorem finds_eq (h : Mirrors final base ρ committed committed' now later work work')
    (hb : base.KeptBy ρ) (hp : pending.DocumentsRenamed ρ renamed) (reference : DocumentReference) :
    work'.finds committed' renamed (ρ.document ownId) own (reference.redirect (ρ.text .document)) =
      work.finds committed pending ownId own reference := by
  unfold Work.finds
  have hid := @Renaming.ofText?_text ρ .document reference.documentId
  rw [DocumentReference.redirect, hid]
  cases RealId.ofText? .document reference.documentId with
  | none => rfl
  | some id =>
      have howner : work'.ownerOf? committed' renamed (ρ.document ownId) own (ρ.of .document id) =
        work.ownerOf? committed pending ownId own id := h.ownerOf?_eq hb hp id
      simp only [Option.map_some, howner]

theorem findsFile_eq (h : Mirrors final base ρ committed committed' now later work work')
    (hb : base.KeptBy ρ) (text : String) :
    work'.findsFile committed' text = work.findsFile committed text := by
  unfold Work.findsFile
  cases RealId.ofText? .file text with
  | none => rfl
  | some id => exact h.isSome_get?_eq hb id

/-- All that redirected content refers to is found where all is found that the content refers to. -/
theorem found_iff (h : Mirrors final base ρ committed committed' now later work work')
    (hb : base.KeptBy ρ) (hp : pending.DocumentsRenamed ρ renamed) {visits others : List Visit}
    (hv : List.Forall₂ (Visit.Rewritten (Redirects (ρ.text .document))) visits others) :
    Operation.Found committed work pending ownId own visits ↔
      Operation.Found committed' work' renamed (ρ.document ownId) own others := by
  have hreferences : others.filterMap Visit.documentReference? =
      (visits.filterMap Visit.documentReference?).map
        (DocumentReference.redirect (ρ.text .document)) := by
    rw [List.map_filterMap]
    refine (filterMap_eq_of_forall₂ ?_ hv).symm
    exact fun _ _ hvisit => (Visit.documentReference?_of_redirected hvisit).symm
  have hfiles : others.filterMap Visit.storedFileId? = visits.filterMap Visit.storedFileId? := by
    refine (filterMap_eq_of_forall₂ ?_ hv).symm
    exact fun _ _ hvisit => (Visit.storedFileId?_of_redirected hvisit).symm
  rw [Operation.Found, Operation.Found, hreferences, hfiles, List.forall_mem_map]
  simp only [h.finds_eq hb hp, h.findsFile_eq hb]

end Mirrors

namespace Operation

/-! ### What a new document stores -/

def storeDocument (id : DocumentId) (collection : Collection) (content : Json) (visits : List Visit) :
    Operation Document := do
  let files ← filesToStore (visits.filterMap Visit.newFile?)
  files.forM fun file => @insert .file file
  let (content, _) ← ofExcept .brokenSchema
    (collection.schema.changeContent placeFiles content (files.map StoredFile.reference))
  let createdAt ← Operation.now
  @stage .document { id, collectionId := collection.id, content, createdAt }

/-- A document is created where its content passes the checks and what it brings is stored. -/
theorem returns_newDocument_iff_store {validator : Validator} {pending : Pending} {id : DocumentId}
    {collection : Collection} {content : Json} {visits : List Visit} {before after : Work}
    (hv : collection.schema.visitContent content = .ok visits) {document : Document} :
    Returns (newDocument validator pending id collection content) committed before document after ↔
      (validator.validate collection.schema content = .ok [] ∧
        Found committed before pending id collection.id visits) ∧
      Returns (storeDocument id collection content visits) committed before document after := by
  rw [returns_newDocument]
  simp only [storeDocument, returns_bind, returns_ofExcept, returns_now]
  constructor
  · rintro ⟨hvalid, others, hothers, hdocuments, hfiles, files, given, stored, placed, left, hgiven,
      hstored, hplaced, hdocument, hinsert⟩
    cases hv.symm.trans hothers
    exact ⟨⟨hvalid, hdocuments, hfiles⟩, files, given, hgiven, ⟨⟩, stored, hstored, (placed, left),
      stored, ⟨hplaced, rfl⟩, _, stored, ⟨rfl, rfl⟩, returns_stage.2 ⟨hdocument, hinsert⟩⟩
  · rintro ⟨⟨hvalid, hdocuments, hfiles⟩, files, given, hgiven, _, stored, hstored, ⟨placed, left⟩, _,
      ⟨hplaced, rfl⟩, _, _, ⟨rfl, rfl⟩, hstage⟩
    obtain ⟨hdocument, hinsert⟩ := returns_stage.1 hstage
    exact ⟨hvalid, visits, hv, hdocuments, hfiles, files, given, stored, placed, left, hgiven, hstored,
      hplaced, hdocument, hinsert⟩

theorem agrees_fresh (h : Mirrors final base ρ committed committed' now now work work') (kind : Kind) :
    Agrees (fresh kind) (fresh kind) committed committed' work work' fun id after id' after' =>
      id' = id ∧ Mirrors final base ρ committed committed' (now.skip 1) (now.skip 1) after after' := by
  refine .of_decides (decides_fresh kind) (decides_fresh kind) Iff.rfl ?_
  rintro _ _ _ _ ⟨rfl, rfl⟩ ⟨rfl, rfl⟩
  exact ⟨by rw [h.supply_eq, h.supply_eq'], h.skip 1⟩

theorem agrees_now (h : Mirrors final base ρ committed committed' now later work work') :
    Agrees Operation.now Operation.now committed committed' work work' fun time after time' after' =>
      time' = time ∧ Mirrors final base ρ committed committed' now later after after' := by
  have htime : work'.supply.now = work.supply.now := by
    rw [h.supply_eq, h.supply_eq', h.time_eq]
  refine .of_reads Function.surjective_id returns_now returns_now (fun time => ?_)
    fun time => ⟨rfl, h⟩
  rw [htime]
  exact Iff.rfl

/-- From the same supply the same files are made. -/
theorem agrees_filesToStore (h : Mirrors final base ρ committed committed' now now work work')
    (news : List (String × String × List UInt8)) :
    Agrees (filesToStore news) (filesToStore news) committed committed' work work'
      fun files after files' after' => files' = files ∧ files.map StoredFile.data = news ∧
        MirrorsSince final base ρ committed committed' now after after' := by
  induction news generalizing now work work' with
  | nil => exact .pure ⟨rfl, rfl, now, Nat.le_refl _, h⟩
  | cons new rest ih =>
      refine (agrees_fresh h .file).bind fun id middle id' middle' hfresh => ?_
      obtain ⟨rfl, hmiddle⟩ := hfresh
      refine (agrees_now hmiddle).bind fun time last time' last' hnow => ?_
      obtain ⟨rfl, hlast⟩ := hnow
      refine (ih hlast).bind fun files after files' after' hfiles => .pure ?_
      obtain ⟨rfl, hdata, hafter⟩ := hfiles
      exact ⟨rfl, by rw [List.map_cons, hdata, StoredFile.data], hafter.mono (Nat.le_add_right _ 1)⟩

section Document

variable {collection other : Collection} {root : Definition} {content content' : Json}
  {visits others : List Visit}

/-- What redirected content brings is stored with the document under its renamed id. -/
theorem agrees_storeDocument (h : Mirrors final base ρ committed committed' now now work work')
    (hb : base.KeptBy ρ) (id : DocumentId) (hid : other.id = collection.id)
    (hschema : other.schema = collection.schema)
    (hget : final.get? .collection collection.id = some collection)
    (hstructure : collection.schema.checkStructure = .ok ()) (hroot : collection.schema.root = .ok root)
    (hcontent : Rewrites collection.schema (Redirects (ρ.text .document)) root content content')
    (hv : collection.schema.visitContent content = .ok visits)
    (hr : List.Forall₂ (Visit.Rewritten (Redirects (ρ.text .document))) visits others) :
    Agrees (storeDocument id collection content visits)
      (storeDocument (ρ.document id) other content' others) committed committed' work work'
      fun _ after _ after' => MirrorsSince final base ρ committed committed' now after after' := by
  have hnew : others.filterMap Visit.newFile? = visits.filterMap Visit.newFile? := by
    refine (filterMap_eq_of_forall₂ ?_ hr).symm
    exact fun _ _ hvisit => (Visit.newFile?_of_redirected hvisit).symm
  unfold storeDocument
  rw [hnew, hid, hschema]
  refine (agrees_filesToStore h _).bind fun files given files' given' hfiles => ?_
  obtain ⟨rfl, hdata, later, hle, hgiven⟩ := hfiles
  have hinsert : Agrees (files'.forM fun file => @insert .file file)
      (files'.forM fun file => @insert .file file) committed committed' given given'
      fun _ after _ after' => Mirrors final base ρ committed committed' later later after after' :=
    .forM hgiven fun file _ _ _ hmiddle =>
      agrees_insert hmiddle hb (by decide) (.single_file final ρ file)
  refine hinsert.bind fun _ stored _ stored' hstored => ?_
  obtain ⟨⟨placed, left⟩, hplaced⟩ := Schema.exists_changeContent hstructure content
    (files'.map StoredFile.reference)
  obtain ⟨⟨placed', left'⟩, hplaced'⟩ := Schema.exists_changeContent hstructure content'
    (files'.map StoredFile.reference)
  have hredirected := hcontent.redirected_placed hroot hv hdata hplaced hplaced'
  have hplace : Agrees
      (ofExcept .brokenSchema (collection.schema.changeContent placeFiles content
        (files'.map StoredFile.reference)))
      (ofExcept .brokenSchema (collection.schema.changeContent placeFiles content'
        (files'.map StoredFile.reference))) committed committed' stored stored'
      fun a after b after' => (a = (placed, left) ∧ b = (placed', left')) ∧
        Mirrors final base ρ committed committed' later later after after' :=
    .ofExcept hplaced hplaced' ⟨⟨rfl, rfl⟩, hstored⟩
  refine hplace.bind fun a middle b middle' hmiddle => ?_
  obtain ⟨⟨rfl, rfl⟩, hmiddle⟩ := hmiddle
  refine (agrees_now hmiddle).bind fun time last time' last' hnow => ?_
  obtain ⟨rfl, hlast⟩ := hnow
  have hrenamed : Document.RenamedIn final ρ ⟨id, collection.id, placed, time'⟩
      ⟨ρ.document id, collection.id, placed', time'⟩ :=
    ⟨rfl, rfl, rfl, collection, root, hget, hroot, hredirected⟩
  exact (agrees_stage hlast hb (by decide) (.single_document hrenamed)).mono
    fun _ _ _ _ hafter => ⟨later, hle, hafter⟩

/-- A document of redirected content is created exactly where the document is. -/
theorem agrees_newDocument (h : Mirrors final base ρ committed committed' now now work work')
    (hb : base.KeptBy ρ) (validator : Validator) {pending renamed : Pending}
    (hp : pending.DocumentsRenamed ρ renamed) (id : DocumentId) (hid : other.id = collection.id)
    (hschema : other.schema = collection.schema)
    (hget : final.get? .collection collection.id = some collection)
    (hstructure : collection.schema.checkStructure = .ok ()) (hroot : collection.schema.root = .ok root)
    (hcontent : Rewrites collection.schema (Redirects (ρ.text .document)) root content content') :
    Agrees (newDocument validator pending id collection content)
      (newDocument validator renamed (ρ.document id) other content') committed committed' work work'
      fun _ after _ after' => MirrorsSince final base ρ committed committed' now after after' := by
  obtain ⟨visits, hv⟩ := Schema.exists_visitContent hstructure content
  obtain ⟨others, hv', hr⟩ := hcontent.exists_visitContent hroot (Redirects.keepsNonnull _) hv
  have hchecks : (validator.validate collection.schema content = .ok [] ∧
        Found committed work pending id collection.id visits) ↔
      validator.validate other.schema content' = .ok [] ∧
        Found committed' work' renamed (ρ.document id) other.id others := by
    rw [hschema, hid, hcontent.validate_redirected_iff hroot, h.found_iff hb hp hr]
  refine .of_checks (returns_newDocument_iff_store hv) (returns_newDocument_iff_store ?_) hchecks
    fun _ => agrees_storeDocument h hb id hid hschema hget hstructure hroot hcontent hv hr
  rw [hschema]
  exact hv'

end Document

end Operation

end ContentStore
