import ContentStore.Proofs.Engine.PackContent
import ContentStore.Proofs.Engine.Succeeds

/-!
# When the entries of a pack are created

The entries of a closed pack are given distinct new ids. What they refer to is pending or was created
before, so that an entry is created exactly where what the pack says of it alone allows it.
-/

namespace ContentStore

/-- Distinct ids that were given for the entries of a pack. -/
structure PackIds.Issued (origin now : Supply) (pack : Pack) (ids : PackIds) : Prop where
  collections : origin.Issued now (pack.count .collection) ids.collections
  apps : origin.Issued now (pack.count .app) ids.apps
  documents : origin.Issued now (pack.count .document) ids.documents

def PackIds.given (supply : Supply) (pack : Pack) : PackIds where
  collections := supply.next .collection pack.collections.length
  apps := (supply.skip pack.collections.length).next .app pack.apps.length
  documents := ((supply.skip pack.collections.length).skip pack.apps.length).next .document
    pack.documents.length

/-- A collection of a pack under its id, with its schema resolved. -/
def CollectionSpec.Resolved (ids : PackIds) (entry : CollectionId × CollectionSpec)
    (collection : Collection) : Prop :=
  collection.id = entry.1 ∧
    collection.schema =
      (entry.2.schema.resolveCollections (IdMapping.ofIds ids.collections)).resolveSelf entry.1

theorem Pack.HasEntry.exists_mem {pack : Pack} {kind : Kind} {text : String} {mapping : IdMapping}
    {listed : List (RealId kind)} (h : pack.HasEntry kind text) (hl : mapping.Lists listed)
    (hlength : listed.length = pack.count kind) : ∃ id ∈ listed, mapping.resolve text = id.text := by
  obtain ⟨p, id, -, -, hget, hresolve⟩ := h.exists_id hl hlength
  exact ⟨id, List.mem_of_getElem? hget, hresolve⟩

namespace Operation

variable {origin now : Supply} {committed : Tables} {before : Work} {pack : Pack} {ids : PackIds}
  {pending : Pending} {known : IdMapping} {categories : List CollectionCategory}

/-! ### Ids and categories -/

theorem decides_idsFor_given (pack : Pack) :
    Decides (idsFor pack) committed before True fun ids after =>
      ids = .given before.supply pack ∧
        after = ((before.skip pack.collections.length).skip pack.apps.length).skip
          pack.documents.length := by
  refine (decides_freshFor .collection pack.collections).after fun collections first hcollections => ?_
  refine (decides_freshFor .app pack.apps).after fun apps second happs => ?_
  refine (decides_freshFor .document pack.documents).after fun documents third hdocuments => .pure ?_
  obtain ⟨rfl, rfl⟩ := hcollections
  obtain ⟨rfl, rfl⟩ := happs
  obtain ⟨rfl, rfl⟩ := hdocuments
  exact ⟨rfl, rfl⟩

theorem decides_idsFor (hn : origin.NewFor committed) (hb : before.Ample origin)
    (hs : before.staged = {}) (pack : Pack) :
    Decides (idsFor pack) committed before True fun ids after =>
      ids.Issued origin after.supply pack ∧ after.Holds origin after.supply {} := by
  refine (decides_idsFor_given pack).mono Iff.rfl ?_
  rintro _ _ ⟨rfl, rfl⟩
  have hfirst := hb.skip pack.collections.length
  have hsecond := hfirst.skip pack.apps.length
  have hthird := hsecond.skip pack.documents.length
  refine ⟨⟨?_, ?_, ?_⟩, hthird, Nat.le_refl _, [], hs⟩
  · refine (hb.issued_next hn.distinct .collection pack.collections.length).mono ?_
    simp only [Work.skip, Supply.skip]
    omega
  · refine (hfirst.issued_next hn.distinct .app pack.apps.length).mono ?_
    simp only [Work.skip, Supply.skip]
    omega
  · exact hsecond.issued_next hn.distinct .document pack.documents.length

theorem decides_pendingFor
    (howners : ∀ spec ∈ pack.documents, pack.HasEntry .collection spec.collectionId)
    (hlength : ids.collections.length = pack.count .collection) :
    Decides (pendingFor pack ids (resolutionBy ids)) committed before True fun pending after =>
      PackPending pack ids pending ∧ after = before := by
  have hresolved : ∀ text ∈ pack.documents.map PackDocumentSpec.collectionId,
      ∃ id ∈ ids.collections, (IdMapping.ofIds ids.collections).resolve text = id.text := by
    rw [List.forall_mem_map]
    intro spec hs
    exact (howners spec hs).exists_mem (IdMapping.lists_ofIds _) hlength
  rw [pendingFor_eq]
  refine (decides_resolveAll hresolved).after fun owners after hfound => .pure ?_
  obtain ⟨⟨htexts, -⟩, rfl⟩ := hfound
  refine ⟨⟨rfl, rfl, owners, rfl, ?_⟩, rfl⟩
  rw [← htexts, List.map_map]
  rfl

/-- Categories whose parents come before them are all created. -/
theorem decides_newPackCategories (hn : origin.NewFor committed) {mapping : IdMapping}
    {done : List CollectionCategory} {specs : List CategorySpec}
    (hl : mapping.Lists (done.map CollectionCategory.id))
    (hb : before.Holds origin now { categories := done })
    (hp : ∀ place spec, specs[place]? = some spec → ∀ text ∈ spec.parentId,
      ∃ p : ProtoId, p.kind = .collectionCategory ∧ p.index < done.length + place ∧ text = p.text) :
    Decides (newPackCategories mapping done.length specs) committed before True fun result after =>
      ∃ categories : List CollectionCategory, categories.length = done.length + specs.length ∧
        result.2.Lists (categories.map CollectionCategory.id) ∧
        after.Holds origin now { categories } := by
  -- The mapping lists the categories in `done`, so each parent resolves before its child is created.
  induction specs generalizing mapping done before with
  | nil => exact .pure ⟨done, rfl, hl, hb⟩
  | cons spec rest ih =>
      have hparent : ∀ text ∈ spec.parentId,
          ∃ id ∈ done.map CollectionCategory.id, mapping.resolve text = id.text := by
        intro text ht
        obtain ⟨p, hkind, hlt, rfl⟩ := hp 0 spec rfl text ht
        have hget := List.getElem?_eq_getElem (l := done.map CollectionCategory.id) (by simpa using hlt)
        exact ⟨_, List.getElem_mem _, (IdMapping.resolve_eq_iff hl).2 (.position hkind hget)⟩
      refine (decides_resolveOptional hparent).after fun parent middle hmiddle => ?_
      obtain ⟨hlisted, rfl⟩ := hmiddle
      have hseen : ∀ found, parent = some found →
          (middle.get? committed .collectionCategory found).isSome = true := by
        intro found hfound
        obtain ⟨category, hcategory, rfl⟩ := List.mem_map.1 (hlisted found hfound)
        exact Option.isSome_iff_exists.2 ⟨_, hb.get? (by decide) hcategory⟩
      refine ((decides_newCategory hn hb spec.name spec.icon parent).mono (by simpa using hseen)
        fun _ _ h => h).after fun category next hnext => ?_
      have hlength : (done ++ [category]).length = done.length + 1 := by simp
      have hlists := hl.insert category.id
      rw [List.length_map] at hlists
      have hparents : ∀ place other, rest[place]? = some other → ∀ text ∈ other.parentId,
          ∃ p : ProtoId, p.kind = .collectionCategory ∧
            p.index < (done ++ [category]).length + place ∧ text = p.text := by
        intro place other hother text ht
        obtain ⟨p, hkind, hlt, htext⟩ := hp (place + 1) other hother text ht
        exact ⟨p, hkind, by omega, htext⟩
      have hrest := ih (by simpa using hlists) hnext hparents
      rw [hlength] at hrest
      refine hrest.after fun result after hresult => .pure ?_
      obtain ⟨categories, hcount, hknown, hholds⟩ := hresult
      refine ⟨categories, ?_, hknown, hholds⟩
      rw [hcount, List.length_cons]
      omega

/-! ### Collections and apps -/

/-- The settings of a closed pack resolve to a category that is there and to an app of the pack. -/
theorem decides_resolveSettings (hc : pack.Closed) (hids : ids.Issued origin now pack)
    (hknown : known.Lists (categories.map CollectionCategory.id))
    (hlength : categories.length = pack.categories.length) {spec : CollectionSpec}
    (hs : spec ∈ pack.collections) :
    Decides (resolveSettings (ids.resolution known) spec.settings) committed before True
      fun settings after =>
        ((∀ found, settings.categoryId = some found →
            found ∈ categories.map CollectionCategory.id) ∧
          ∀ found, settings.defaultAppId = some found → found ∈ ids.apps) ∧ after = before := by
  have hcategory : ∀ text ∈ spec.settings.categoryId,
      ∃ id ∈ categories.map CollectionCategory.id, known.resolve text = id.text := by
    intro text ht
    exact (hc.references.categories spec hs text ht).exists_mem hknown
      (by rw [List.length_map, hlength]; rfl)
  have happ : ∀ text ∈ spec.settings.defaultAppId,
      ∃ id ∈ ids.apps, (IdMapping.ofIds ids.apps).resolve text = id.text := by
    intro text ht
    exact (hc.references.defaultApps spec hs text ht).exists_mem (IdMapping.lists_ofIds _)
      hids.apps.length_eq
  refine (decides_resolveOptional hcategory).after fun category middle hmiddle => ?_
  refine (decides_resolveOptional happ).after fun app after hafter => .pure ?_
  obtain ⟨hcategory, rfl⟩ := hmiddle
  obtain ⟨happ, rfl⟩ := hafter
  exact ⟨⟨hcategory, happ⟩, rfl⟩

/-- A collection is created exactly where the root of its schema is a struct. -/
theorem decides_newPackCollection (hn : origin.NewFor committed) (hc : pack.Closed)
    (hids : ids.Issued origin now pack) (hpending : PackPending pack ids pending)
    (hknown : known.Lists (categories.map CollectionCategory.id))
    (hlength : categories.length = pack.categories.length) {done : List Collection}
    (hb : before.Holds origin now { categories, collections := done }) {id : CollectionId}
    {spec : CollectionSpec} (hid : id ∈ ids.collections) (hs : spec ∈ pack.collections)
    (hfree : id ∉ done.map Collection.id) :
    Decides (newPackCollection pending (ids.resolution known) id spec) committed before
      (∃ properties nullable, spec.schema.resolvedRoot = .ok (.struct properties nullable))
      fun collection after => CollectionSpec.Resolved ids (id, spec) collection ∧
        after.Holds origin now { categories, collections := done ++ [collection] } := by
  refine (decides_resolveSettings hc hids hknown hlength hs).after fun settings middle hsettings => ?_
  obtain ⟨⟨hcategory, happ⟩, rfl⟩ := hsettings
  have hseen : (∀ found, settings.categoryId = some found →
      (middle.get? committed .collectionCategory found).isSome = true) ∧
      ∀ found, settings.defaultAppId = some found →
        found ∈ pending.apps ∨ (middle.get? committed .app found).isSome = true := by
    constructor
    · intro found hfound
      obtain ⟨category, hmem, rfl⟩ := List.mem_map.1 (hcategory found hfound)
      exact Option.isSome_iff_exists.2 ⟨_, hb.get? (by decide) hmem⟩
    · intro found hfound
      rw [hpending.apps_eq]
      exact .inl (happ found hfound)
  let collection : Collection := {
    id, settings
    schema := (spec.schema.resolveCollections (IdMapping.ofIds ids.collections)).resolveSelf id
    versionSettings := spec.versionSettings
    createdAt := middle.supply.now }
  have hfaultless := hc.faultless_iff hs (IdMapping.lists_ofIds ids.collections)
    hids.collections.length_eq id
  refine (decides_of_insert .collection collection (collection.schema.collectionFaults = .ok []) hn hb
    (by decide) (hids.collections.gave id hid) hfree ?_).mono hfaultless ?_
  · intro created after
    rw [returns_newCollection]
    constructor
    · rintro ⟨hfaults, -, -, hcreated, hinsert⟩
      exact ⟨hfaults, hcreated, hinsert⟩
    · rintro ⟨hfaults, rfl, hinsert⟩
      exact ⟨hfaults, hseen.1, hseen.2, rfl, hinsert⟩
  · rintro _ after ⟨rfl, hholds⟩
    exact ⟨⟨rfl, rfl⟩, hholds⟩

/-- An app of a closed pack is created. -/
theorem decides_newPackApp (hn : origin.NewFor committed) (hc : pack.Closed)
    (hids : ids.Issued origin now pack) (hpending : PackPending pack ids pending)
    {rows : Tables} (hb : before.Holds origin now rows) {id : AppId} {spec : AppSpec}
    (hid : id ∈ ids.apps) (hs : spec ∈ pack.apps) (hfree : id ∉ rows.apps.map App.id) :
    Decides (newPackApp pending (ids.resolution known) id spec) committed before True
      fun app after => app.id = id ∧ after.Holds origin now (@Tables.push rows .app app) := by
  have htargets : ∀ text ∈ spec.targets,
      ∃ id ∈ ids.collections, (IdMapping.ofIds ids.collections).resolve text = id.text := by
    intro text ht
    exact (hc.references.targets spec hs text ht).exists_mem (IdMapping.lists_ofIds _)
      hids.collections.length_eq
  refine (decides_resolveAll htargets).after fun targets middle hmiddle => ?_
  obtain ⟨⟨-, hlisted⟩, rfl⟩ := hmiddle
  have hseen : ∀ target ∈ targets,
      target ∈ pending.collections ∨ (middle.get? committed .collection target).isSome = true := by
    rw [hpending.collections_eq]
    exact fun target ht => .inl (hlisted target ht)
  let app : App := {
    id, appType := spec.appType, name := spec.name, targets, files := spec.files
    createdAt := middle.supply.now }
  refine (decides_of_insert .app app True hn hb (by decide) (hids.apps.gave id hid) hfree ?_).mono
    Iff.rfl ?_
  · intro created after
    rw [returns_newApp]
    constructor
    · rintro ⟨-, hcreated, hinsert⟩
      exact ⟨trivial, hcreated, hinsert⟩
    · rintro ⟨-, rfl, hinsert⟩
      exact ⟨hseen, rfl, hinsert⟩
  · rintro _ after ⟨rfl, hholds⟩
    exact ⟨rfl, hholds⟩

end Operation

/-! ### Documents -/

namespace Work

variable {work : Work} {committed : Tables} {pending : Pending} {ownId : DocumentId}
  {own : CollectionId}

/-- Where the new document itself is pending, the collection of every pending document is as announced. -/
theorem ownerOf?_of_lookup (hown : pending.documents.lookup ownId = some own) {id : DocumentId}
    {owner : CollectionId} (h : pending.documents.lookup id = some owner) :
    work.ownerOf? committed pending ownId own id = some owner := by
  unfold ownerOf?
  by_cases hid : id = ownId
  · subst hid
    rw [if_pos rfl, ← hown, h]
  · rw [if_neg hid]
    simp only [h]

end Work

namespace PackPending

variable {origin now : Supply} {committed : Tables} {work : Work} {pack : Pack} {ids : PackIds}
  {pending : Pending} {known : IdMapping}

/-- A document of the pack is pending in the collection that its entry names. -/
theorem lookup (h : PackPending pack ids pending) (hids : ids.Issued origin now pack) {index : Nat}
    {id : DocumentId} {spec : PackDocumentSpec} (hid : ids.documents[index]? = some id)
    (hs : pack.documents[index]? = some spec) :
    ∃ owner, pending.documents.lookup id = some owner ∧
      (IdMapping.ofIds ids.collections).resolve spec.collectionId = owner.text := by
  obtain ⟨owners, hpending, htexts⟩ := h.documents
  have hplace := congrArg (fun texts => texts[index]?) htexts
  simp only [List.getElem?_map, hs, Option.map_some] at hplace
  obtain ⟨owner, howner, htext⟩ := Option.map_eq_some_iff.1 hplace.symm
  rw [hpending]
  exact ⟨owner, lookup_zip hids.documents.nodup hid howner, htext.symm⟩

/-- The document of a resolved reference is found in the named collection where the pack says so. -/
theorem finds_iff (h : PackPending pack ids pending) (hids : ids.Issued origin now pack)
    {ownId : DocumentId} {own : CollectionId} (hown : pending.documents.lookup ownId = some own)
    {reference : DocumentReference} (hcollection : pack.HasEntry .collection reference.collectionId)
    (hdocument : pack.HasEntry .document reference.documentId) (hc : pack.Closed) :
    work.finds committed pending ownId own ((ids.resolution known).turnedReference reference) = true ↔
      pack.Agrees reference := by
  obtain ⟨p, id, hkind, hp, hget, hresolve⟩ :=
    hdocument.exists_id (IdMapping.lists_ofIds ids.documents) hids.documents.length_eq
  obtain ⟨hlt, -⟩ := List.getElem?_eq_some_iff.1 hget
  rw [hids.documents.length_eq] at hlt
  have htarget := List.getElem?_eq_getElem (l := pack.documents) hlt
  obtain ⟨owner, hlookup, howner⟩ := h.lookup hids hget htarget
  have hfinds : work.finds committed pending ownId own
      ((ids.resolution known).turnedReference reference) = true ↔
      owner.text = (IdMapping.ofIds ids.collections).resolve reference.collectionId := by
    have hid : ((ids.resolution known).turnedReference reference).documentId = id.text := hresolve
    unfold Work.finds
    rw [hid, RealId.ofText?_text]
    simp only [Work.ownerOf?_of_lookup hown hlookup, Option.any_some, beq_iff_eq]
    rfl
  rw [hfinds, ← howner]
  constructor
  · intro hsame q target _ hq hother
    cases ProtoId.text_injective (hp.symm.trans hq)
    cases htarget.symm.trans hother
    have hentry := hc.references.owners _ (List.mem_of_getElem? htarget)
    exact (hentry.eq_of_resolve hcollection (IdMapping.lists_ofIds _) hids.collections.length_eq
      hids.collections.nodup hsame).symm
  · intro hagrees
    rw [hagrees p _ hkind hp htarget]

/-- All that resolved content refers to is found exactly where the references of the content agree with
the pack. -/
theorem found_iff (h : PackPending pack ids pending) (hids : ids.Issued origin now pack)
    (hc : pack.Closed) (hself : pack.SelfContained) {spec : PackDocumentSpec} {p : ProtoId}
    {collection : CollectionSpec} (howns : pack.Owns spec p collection) {ownId : DocumentId}
    {own : CollectionId} (hown : pending.documents.lookup ownId = some own) {validator : Validator}
    (hvalid : pack.ValidContent validator spec) {content : Json} {visits : List Visit}
    (hcontent : ((collection.schema.readSelfAs p.text).resolveCollections
      (ids.resolution known).collections).resolveContent (ids.resolution known) spec.content = .ok content)
    (hvisits : ((collection.schema.readSelfAs p.text).resolveCollections
      (ids.resolution known).collections).visitContent content = .ok visits) :
    Operation.Found committed work pending ownId own visits ↔ pack.AgreedReferences spec := by
  obtain ⟨found, hfound, hturned⟩ := Schema.visits_of_resolveContent hcontent hvisits
  unfold Schema.resolveCollections Schema.readSelfAs at hfound
  rw [Schema.mapCollectionIds_mapCollectionIds] at hfound
  have hreferences := Resolution.references_of_turns hturned
  have hfiles : visits.filterMap Visit.storedFileId? = [] := by
    rw [← howns.storedFiles_eq_nil hself hfound]
    refine (filterMap_eq_of_forall₂ ?_ hturned).symm
    exact fun _ _ hvisit => Resolution.storedFileId?_eq_of_turns hvisit
  rw [Operation.Found, hfiles, hreferences, List.forall_mem_map, ← howns.agreed_iff hc hvalid hfound]
  simp only [List.not_mem_nil, false_imp_iff, implies_true, and_true]
  apply forall₂_congr
  intro reference hmem
  obtain ⟨path, fixed, members, hholds, hcollection, hdocument⟩ :=
    (howns.mem_references_iff hfound).1 hmem
  apply h.finds_iff hids hown _ _ hc
  · exact hc.references.content spec howns.mem path fixed members "collectionId" .collection _ hholds
      (by simp [referenceKeys]) hcollection
  · exact hc.references.content spec howns.mem path fixed members "documentId" .document _ hholds
      (by simp [referenceKeys]) hdocument

end PackPending

namespace Operation

variable {origin now : Supply} {committed : Tables} {before : Work} {pack : Pack} {ids : PackIds}
  {pending : Pending} {known : IdMapping} {rows : Tables}

/-- The collection of a document of the pack among those that were created. -/
theorem exists_resolved (hlength : ids.collections.length = pack.count .collection)
    {collections : List Collection}
    (hrows : List.Forall₂ (CollectionSpec.Resolved ids) (ids.collections.zip pack.collections)
      collections) {spec : PackDocumentSpec} {p : ProtoId} {collection : CollectionSpec}
    (howns : pack.Owns spec p collection) {owner : CollectionId}
    (howner : (IdMapping.ofIds ids.collections).resolve spec.collectionId = owner.text) :
    ∃ stored, collections[p.index]? = some stored ∧ stored.id = owner ∧ stored.schema =
      (collection.schema.readSelfAs p.text).resolveCollections (IdMapping.ofIds ids.collections) := by
  have hlists := IdMapping.lists_ofIds ids.collections
  rw [howns.owner_eq] at howner
  have hentry : pack.HasEntry .collection p.text :=
    Pack.hasEntry_text_iff.2 ⟨howns.kind_eq, (List.getElem?_eq_some_iff.1 howns.get?_eq).1⟩
  obtain ⟨q, id, -, hq, hget, hid⟩ := hentry.exists_id hlists hlength
  cases ProtoId.text_injective hq
  obtain rfl : owner = id := RealId.ext (howner.symm.trans hid)
  have hzip : (ids.collections.zip pack.collections)[p.index]? = some (owner, collection) :=
    List.getElem?_zip_eq_some.2 ⟨hget, howns.get?_eq⟩
  obtain ⟨stored, hplace, hstored, hschema⟩ := exists_getElem?_of_forall₂ hrows hzip
  refine ⟨stored, hplace, hstored, hschema.trans ?_⟩
  exact Schema.resolveSelf_resolveCollections hlists howner collection.schema

/-- A document is created exactly where its content is valid in the pack and agrees with it. -/
theorem decides_newPackDocument (hn : origin.NewFor committed) (hc : pack.Closed)
    (hself : pack.SelfContained) (hids : ids.Issued origin now pack)
    (hpending : PackPending pack ids pending) (hb : before.Holds origin now rows)
    (hrows : List.Forall₂ (CollectionSpec.Resolved ids) (ids.collections.zip pack.collections)
      rows.collections) {index : Nat} {id : DocumentId} {spec : PackDocumentSpec}
    (hid : ids.documents[index]? = some id) (hs : pack.documents[index]? = some spec)
    (hfree : id ∉ rows.documents.map Document.id) (validator : Validator) :
    Decides (newPackDocument validator pending (ids.resolution known) id spec) committed before
      (pack.ValidContent validator spec ∧ pack.AgreedReferences spec) fun document after =>
        document.id = id ∧ after.Holds origin now (@Tables.push rows .document document) := by
  have hmem := List.mem_of_getElem? hs
  obtain ⟨p, collection, howns⟩ := hc.checked.exists_owns hmem
  obtain ⟨owner, hlookup, howner⟩ := hpending.lookup hids hid hs
  obtain ⟨stored, hplace, rfl, hschema⟩ := exists_resolved hids.collections.length_eq hrows howns howner
  have hstructure : stored.schema.checkStructure = .ok () := by
    rw [hschema, Schema.resolveCollections, Schema.checkStructure_mapCollectionIds]
    exact howns.checkStructure hc.checked _
  obtain ⟨content, hcontent⟩ :
      ∃ content, stored.schema.resolveContent (ids.resolution known) spec.content = .ok content :=
    Schema.exists_resolveContent hstructure spec.content
  have hload : before.get? committed .collection stored.id = some stored :=
    hb.get? (by decide) (List.mem_of_getElem? hplace)
  refine (decides_resolveId howner).after fun found middle hmiddle => ?_
  obtain ⟨rfl, rfl⟩ := hmiddle
  refine (decides_loadCollection hload).after fun loaded next hnext => ?_
  obtain ⟨rfl, rfl⟩ := hnext
  refine (decides_ofExcept hcontent).after fun resolved last hlast => ?_
  obtain ⟨rfl, rfl⟩ := hlast
  have hgave := hids.documents.gave id (List.mem_of_getElem? hid)
  refine (decides_newDocument hn hb validator pending loaded resolved hgave hfree).mono ?_
    fun _ _ h => h
  have hlists : (ids.resolution known).collections.Lists ids.collections :=
    IdMapping.lists_ofIds ids.collections
  have hresolved : loaded.schema = (collection.schema.readSelfAs p.text).resolveCollections
      (ids.resolution known).collections := hschema
  rw [hresolved] at hcontent ⊢
  rw [howns.validate_resolved_iff hc hlists hids.collections.length_eq hids.collections.nodup hcontent]
  apply and_congr_right
  intro hvalid
  have hfound : ∀ visits, ((collection.schema.readSelfAs p.text).resolveCollections
      (ids.resolution known).collections).visitContent resolved = .ok visits →
      (Found committed last pending id loaded.id visits ↔ pack.AgreedReferences spec) :=
    fun visits => hpending.found_iff hids hc hself howns hlookup hvalid hcontent
  constructor
  · intro hall
    obtain ⟨visits, hvisits⟩ := Schema.exists_visitContent (hresolved ▸ hstructure) resolved
    exact (hfound visits hvisits).1 (hall visits hvisits)
  · intro hagreed visits hvisits
    exact (hfound visits hvisits).2 hagreed

end Operation

end ContentStore
