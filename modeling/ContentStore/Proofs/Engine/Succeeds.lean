import ContentStore.Proofs.Engine.Decides
import ContentStore.Proofs.Engine.Install
import ContentStore.Proofs.Store.Ample

/-!
# When the steps of an operation succeed

In a transaction that no write can fail in, an entity is created exactly where its own checks pass. Each
step says what it leaves staged.
-/

namespace ContentStore.Operation

variable {origin now : Supply} {committed : Tables} {before : Work} {rows : Tables}

/-! ### New ids and files -/

theorem decides_fresh (kind : Kind) :
    Decides (fresh kind) committed before True fun id after =>
      id = (before.supply.suffix before.supply.used).toId kind ∧ after = before.skip 1 where
  enough _ := ⟨_, _, returns_fresh.2 rfl⟩
  needed hr := by
    cases returns_fresh.1 hr
    exact ⟨trivial, rfl, rfl⟩

theorem decides_freshFor {α : Type} (kind : Kind) (as : List α) :
    Decides (freshFor kind as) committed before True fun ids after =>
      ids = before.supply.next kind as.length ∧ after = before.skip as.length := by
  induction as generalizing before with
  | nil => exact .pure ⟨rfl, rfl⟩
  | cons a rest ih =>
      refine (decides_fresh kind).after fun id middle hid => ?_
      refine ih.after fun ids after hids => .pure ?_
      obtain ⟨rfl, rfl⟩ := hid
      obtain ⟨rfl, rfl⟩ := hids
      exact ⟨rfl, by rw [Work.skip_skip, Nat.add_comm, List.length_cons]⟩

theorem decides_filesToStore (news : List (String × String × List UInt8)) :
    Decides (filesToStore news) committed before True fun files after =>
      files.map StoredFile.id = before.supply.next .file news.length ∧
        after = before.skip news.length := by
  induction news generalizing before with
  | nil => exact .pure ⟨rfl, rfl⟩
  | cons new rest ih =>
      refine (decides_fresh .file).after fun id middle hid => ?_
      have htime : Decides Operation.now committed middle True fun _ after => after = middle :=
        ⟨fun _ => ⟨_, _, returns_now.2 ⟨rfl, rfl⟩⟩, fun hr => ⟨trivial, (returns_now.1 hr).2.symm⟩⟩
      refine htime.after fun time same hsame => ?_
      refine ih.after fun files after hfiles => .pure ?_
      obtain ⟨rfl, rfl⟩ := hid
      subst hsame
      obtain ⟨hids, rfl⟩ := hfiles
      refine ⟨?_, by rw [Work.skip_skip, Nat.add_comm, List.length_cons]⟩
      rw [List.map_cons, hids]
      rfl

/-- Files under ids of their own are all inserted. -/
theorem decides_insertFiles (hn : origin.NewFor committed) {files : List StoredFile}
    (hb : before.Holds origin now rows)
    (hgave : ∀ file ∈ files, Supply.Gave origin before.supply .file file.id)
    (hfree : ∀ file ∈ files, before.staged.contains .file file.id = false)
    (hnodup : (files.map StoredFile.id).Nodup) :
    Decides (files.forM fun file => @insert .file file) committed before True fun _ after =>
      after.Holds origin now rows := by
  induction files generalizing before with
  | nil => exact .pure hb
  | cons file rest ih =>
      obtain ⟨hfirst, hrest⟩ := List.nodup_cons.1 hnodup
      obtain ⟨hinsert, hholds⟩ := hb.insert_file hn (hgave file (by simp)) (hfree file (by simp))
      have hstep : Decides (@insert .file file) committed before True fun _ after =>
          after = @Work.push .file before file := by
        refine ⟨fun _ => ⟨(), _, returns_insert.2 hinsert⟩, fun hr => ⟨trivial, ?_⟩⟩
        have hsame := hinsert.symm.trans (returns_insert.1 hr)
        cases hsame
        rfl
      rw [List.forM_eq_forM, List.forM_cons] at *
      refine hstep.after fun _ middle hmiddle => ?_
      subst hmiddle
      refine ih hholds (fun other ho => hgave other (by simp [ho])) (fun other ho => ?_) hrest
      rw [Work.push, Tables.push_eq_append, Tables.contains_append, hfree other (by simp [ho]),
        Bool.false_or, Bool.eq_false_iff]
      intro hcontains
      obtain ⟨found, hfound, hid⟩ := Tables.contains_iff.1 hcontains
      cases List.mem_singleton.1 (@Tables.rows_single_self .file file ▸ hfound)
      exact hfirst (List.mem_map.2 ⟨other, ho, hid.symm⟩)

/-! ### Entities -/

/-- An operation that ends with the insertion of a row succeeds where what comes before does. -/
theorem decides_of_insert (kind : Kind) (row : Entity kind) (p : Prop) (hn : origin.NewFor committed)
    (hb : before.Holds origin now rows) (hk : kind ≠ .file) (hgave : Supply.Gave origin now kind row.id)
    (hfree : row.id ∉ (rows.rows kind).map Entity.id) {operation : Operation (Entity kind)}
    (h : ∀ {a after}, Returns operation committed before a after ↔
      p ∧ a = row ∧ before.insert committed a = (.ok (), after)) :
    Decides operation committed before p fun a after =>
      a = row ∧ after.Holds origin now (rows.push row) := by
  obtain ⟨hinsert, hholds⟩ := hb.insert hn hk hgave hfree
  constructor
  · intro hp
    exact ⟨row, before.push row, h.2 ⟨hp, rfl, hinsert⟩⟩
  · intro a after hr
    obtain ⟨hp, rfl, hafter⟩ := h.1 hr
    cases hinsert.symm.trans hafter
    exact ⟨hp, rfl, hholds⟩

theorem decides_newCategory (hn : origin.NewFor committed) (hb : before.Holds origin now rows)
    (name icon : String) (parentId : Option CollectionCategoryId) :
    Decides (newCategory name icon parentId) committed before
      (∀ found, parentId = some found →
        (before.get? committed .collectionCategory found).isSome = true)
      fun category after => after.Holds origin now (@Tables.push rows .collectionCategory category) := by
  obtain ⟨category, work, hcreate, hholds⟩ := hb.createCategory hn name icon parentId
  constructor
  · intro hparent
    exact ⟨category, work, returns_newCategory.2 ⟨hparent, hcreate⟩⟩
  · intro created after hr
    obtain ⟨hparent, hcreated⟩ := returns_newCategory.1 hr
    cases hcreate.symm.trans hcreated
    exact ⟨hparent, hholds⟩

/-- Whether everything is found that content with the given visits refers to. -/
def Found (committed : Tables) (before : Work) (pending : Pending) (id : DocumentId)
    (own : CollectionId) (visits : List Visit) : Prop :=
  (∀ reference ∈ visits.filterMap Visit.documentReference?,
    before.finds committed pending id own reference = true) ∧
  ∀ text ∈ visits.filterMap Visit.storedFileId?, before.findsFile committed text = true

/-- A document is created exactly where its content is valid and all that it refers to is found. -/
theorem decides_newDocument (hn : origin.NewFor committed) (hb : before.Holds origin now rows)
    (validator : Validator) (pending : Pending) {id : DocumentId} (collection : Collection)
    (content : Json) (hgave : Supply.Gave origin now .document id)
    (hfree : id ∉ rows.documents.map Document.id) :
    Decides (newDocument validator pending id collection content) committed before
      (validator.validate collection.schema content = .ok [] ∧
        ∀ visits, collection.schema.visitContent content = .ok visits →
          Found committed before pending id collection.id visits)
      fun document after =>
        document.id = id ∧ after.Holds origin now (@Tables.push rows .document document) := by
  have hstored : ∀ {news : Nat} {files : List StoredFile} {given : Work},
      files.map StoredFile.id = before.supply.next .file news → given = before.skip news →
      Decides (files.forM fun file => @insert .file file) committed given True
        fun _ after => after.Holds origin now rows := by
    rintro news files _ hids rfl
    have hmem : ∀ file ∈ files, file.id ∈ before.supply.next .file news :=
      fun file hfile => hids ▸ List.mem_map_of_mem hfile
    refine decides_insertFiles hn (hb.skip news) (fun file hfile => ?_) (fun file hfile => ?_) ?_
    · exact hb.ample.gave_next (hmem file hfile)
    · exact hb.ample.not_contains_next hn (hmem file hfile)
    · rw [hids]
      exact Supply.nodup_next (hb.ample.suffix_eq ▸ hn.distinct) .file news
  have hinsert : ∀ {stored : Work} {document : Document}, stored.Holds origin now rows →
      document.id = id → @Work.insert stored committed .document document =
          (.ok (), @Work.push .document stored document) ∧
        (@Work.push .document stored document).Holds origin now
          (@Tables.push rows .document document) := by
    rintro stored document hholds rfl
    exact hholds.insert hn (by decide) hgave hfree
  constructor
  · rintro ⟨hvalid, hfound⟩
    obtain ⟨hstructure, -⟩ := Validator.validate_eq_nil.1 hvalid
    obtain ⟨visits, hvisits⟩ := Schema.exists_visitContent hstructure content
    obtain ⟨hdocuments, hfiles⟩ := hfound visits hvisits
    have hgiving := @decides_filesToStore committed before (visits.filterMap Visit.newFile?)
    obtain ⟨files, given, hgiven⟩ := hgiving.enough trivial
    obtain ⟨-, hids, hskip⟩ := hgiving.needed hgiven
    have hstoring := hstored hids hskip
    obtain ⟨_, stored, hinserted⟩ := hstoring.enough trivial
    obtain ⟨-, hholds⟩ := hstoring.needed hinserted
    obtain ⟨⟨placed, left⟩, hplaced⟩ : ∃ result, collection.schema.changeContent placeFiles content
        (files.map StoredFile.reference) = .ok result :=
      Schema.exists_changeContent hstructure content _
    let document : Document := {
      id, collectionId := collection.id, content := placed, createdAt := stored.supply.now }
    obtain ⟨hrow, -⟩ := @hinsert stored document hholds rfl
    exact ⟨document, _, returns_newDocument.2 ⟨hvalid, visits, hvisits, hdocuments, hfiles, files, given,
      stored, placed, left, hgiven, hinserted, hplaced, rfl, hrow⟩⟩
  · intro document after hr
    obtain ⟨hvalid, visits, hvisits, hdocuments, hfiles, files, given, stored, placed, left, hgiven,
      hinserted, hplaced, hdocument, hrow⟩ := returns_newDocument.1 hr
    obtain ⟨-, hids, hskip⟩ := (decides_filesToStore _).needed hgiven
    obtain ⟨-, hholds⟩ := (hstored hids hskip).needed hinserted
    have hid : document.id = id := by rw [hdocument]
    obtain ⟨hpushed, hafter⟩ := hinsert hholds hid
    cases hpushed.symm.trans hrow
    refine ⟨⟨hvalid, fun others hothers => ?_⟩, hid, hafter⟩
    cases hvisits.symm.trans hothers
    exact ⟨hdocuments, hfiles⟩

/-! ### Resolved references -/

theorem decides_resolveId {kind : Kind} {mapping : IdMapping} {text : String} {id : RealId kind}
    (h : mapping.resolve text = id.text) :
    Decides (resolveId kind mapping text) committed before True fun found after =>
      found = id ∧ after = before where
  enough _ := ⟨id, before, returns_resolveId.2 ⟨h, rfl⟩⟩
  needed hr := by
    obtain ⟨hfound, rfl⟩ := returns_resolveId.1 hr
    exact ⟨trivial, RealId.ext (hfound.symm.trans h), rfl⟩

theorem decides_loadCollection {id : CollectionId} {collection : Collection}
    (h : before.get? committed .collection id = some collection) :
    Decides (loadCollection id) committed before True fun found after =>
      found = collection ∧ after = before where
  enough _ := ⟨collection, before, returns_loadCollection.2 ⟨h, rfl⟩⟩
  needed hr := by
    obtain ⟨hfound, rfl⟩ := returns_loadCollection.1 hr
    cases h.symm.trans hfound
    exact ⟨trivial, rfl, rfl⟩

theorem decides_ofExcept {ε α : Type} {wrap : ε → EngineError} {x : Except ε α} {a : α} (h : x = .ok a) :
    Decides (ofExcept wrap x) committed before True fun found after => found = a ∧ after = before where
  enough _ := ⟨a, before, returns_ofExcept.2 ⟨h, rfl⟩⟩
  needed hr := by
    obtain ⟨hfound, rfl⟩ := returns_ofExcept.1 hr
    cases h.symm.trans hfound
    exact ⟨trivial, rfl, rfl⟩

/-- References that all resolve to ids of which a fact holds. -/
theorem decides_resolveAll {kind : Kind} {mapping : IdMapping} {fact : RealId kind → Prop}
    {texts : List String} (h : ∀ text ∈ texts, ∃ id, fact id ∧ mapping.resolve text = id.text) :
    Decides (texts.mapM (resolveId kind mapping)) committed before True fun ids after =>
      (texts.map mapping.resolve = ids.map RealId.text ∧ ∀ id ∈ ids, fact id) ∧ after = before := by
  refine (Decides.mapM (p := fun _ => True) (fun done ids middle =>
    (done.map mapping.resolve = ids.map RealId.text ∧ ∀ id ∈ ids, fact id) ∧ middle = before)
    ⟨⟨rfl, by simp⟩, rfl⟩ ?_).mono (by simp) fun _ _ h => h
  intro done text rest ids middle hsplit hknown
  obtain ⟨⟨htexts, hlisted⟩, rfl⟩ := hknown
  obtain ⟨id, hid, hresolve⟩ := h text (by simp [hsplit])
  refine (decides_resolveId hresolve).mono Iff.rfl ?_
  rintro _ _ ⟨rfl, rfl⟩
  refine ⟨⟨by simp [htexts, hresolve], ?_⟩, rfl⟩
  simpa [or_imp, forall_and] using ⟨hlisted, hid⟩

/-- An optional reference that resolves to an id of which a fact holds if it is there. -/
theorem decides_resolveOptional {kind : Kind} {mapping : IdMapping} {fact : RealId kind → Prop}
    {text : Option String} (h : ∀ found ∈ text, ∃ id, fact id ∧ mapping.resolve found = id.text) :
    Decides (resolveOptional kind mapping text) committed before True fun id after =>
      (∀ found, id = some found → fact found) ∧ after = before := by
  cases text with
  | none => exact .pure ⟨by simp, rfl⟩
  | some text =>
      obtain ⟨id, hid, hresolve⟩ := h text rfl
      refine (decides_resolveId hresolve).after fun found after hfound => .pure ?_
      obtain ⟨rfl, rfl⟩ := hfound
      exact ⟨by simpa using hid, rfl⟩

end ContentStore.Operation
