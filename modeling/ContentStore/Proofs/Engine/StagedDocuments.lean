import ContentStore.Proofs.Engine.Exact
import ContentStore.Proofs.Engine.PackBase

/-!
# The documents of a pack, created later

Where a pack stands without its documents, these can be made from what the pack says of them, the ids of
the collections that stand in the places of their proto ids. Each of them is then created exactly where
the installation of the whole pack creates it.
-/

namespace ContentStore

namespace Pack

/-- A document to be created in a collection made from a pack, as the pack describes it. References to
documents stay as they are. -/
def stagedSpec? (base : PackInstallation) (spec : PackDocumentSpec) : Option DocumentSpec := do
  let p ← ProtoId.ofKind? .collection spec.collectionId
  let collection ← base.collections[p.index]?
  let resolution : Resolution := { collections := .ofIds (base.ids .collection) }
  let content ← (collection.schema.resolveContent resolution spec.content).toOption
  return { collectionId := collection.id, content }

/-- The documents of a pack, to be created where the pack stands without them. -/
def stagedOn (pack : Pack) (base : PackInstallation) : Option (List DocumentSpec) :=
  pack.documents.mapM (stagedSpec? base)

/-- A document of a pack that can be created in its collection, which is stored. -/
structure Stages (pack : Pack) (stored : Tables) (collections : IdMapping) (spec : PackDocumentSpec)
    (staged : DocumentSpec) (p : ProtoId) (owner : CollectionSpec) (collection : Collection) : Prop where
  owns : pack.Owns spec p owner
  collectionId_eq : collections.resolve spec.collectionId = staged.collectionId.text
  get?_eq : stored.get? .collection staged.collectionId = some collection
  schema_eq : collection.schema = (owner.schema.readSelfAs p.text).resolveCollections collections
  usable : collection.schema.checkStructure = .ok ()
  content_eq : collection.schema.resolveContent { collections } spec.content = .ok staged.content

variable {pack : Pack} {ids : PackIds} {base : PackInstallation} {stored : Tables}

/-- Every document of a pack can be created where its collections stand. -/
theorem exists_stagedOn
    (howners : ∀ spec ∈ pack.documents, pack.HasEntry .collection spec.collectionId)
    (husable : ∀ spec ∈ pack.collections, spec.schema.checkStructure = .ok ())
    (hlength : ids.collections.length = pack.count .collection)
    (hrows : List.Forall₂ (CollectionSpec.Resolved ids) (ids.collections.zip pack.collections)
      base.collections)
    (hstored : ∀ collection ∈ base.collections,
      stored.get? .collection collection.id = some collection) :
    ∃ specs, pack.stagedOn base = some specs ∧
      List.Forall₂ (fun spec staged => ∃ p owner collection, pack.Stages stored
        (.ofIds ids.collections) spec staged p owner collection) pack.documents specs := by
  have hids : base.ids .collection = ids.collections :=
    map_eq_of_zip hlength (hrows.imp fun _ _ hresolved => hresolved.1)
  refine exists_mapM_eq_some fun spec hs => ?_
  obtain ⟨p, hkind, hlt, htext⟩ := howners spec hs
  have howns : pack.Owns spec p pack.collections[p.index] :=
    ⟨hs, hkind, htext, List.getElem?_eq_getElem hlt⟩
  obtain ⟨owner, -, howner⟩ := (howners spec hs).exists_mem (IdMapping.lists_ofIds _) hlength
  obtain ⟨collection, hplace, rfl, hschema⟩ := Operation.exists_resolved hlength hrows howns howner
  have hstructure : collection.schema.checkStructure = .ok () := by
    rw [hschema, Schema.resolveCollections, Schema.checkStructure_mapCollectionIds,
      Schema.readSelfAs, Schema.checkStructure_mapCollectionIds]
    exact husable _ (List.getElem_mem hlt)
  obtain ⟨content, hcontent⟩ : ∃ content, collection.schema.resolveContent
      { collections := .ofIds ids.collections } spec.content = .ok content :=
    Schema.exists_resolveContent hstructure spec.content
  refine ⟨⟨collection.id, content⟩, ?_, p, _, collection, howns, howner,
    hstored collection (List.mem_of_getElem? hplace), hschema, hstructure, hcontent⟩
  simp [stagedSpec?, ProtoId.ofKind?_eq_some_iff.2 ⟨htext, hkind⟩, hplace, hids, hcontent,
    Except.toOption]

end Pack

namespace Operation

section Staged

variable {rows committed committed' : Tables} {ρ : Renaming} {now : Supply} {work work' : Work}
  {pack : Pack} {pending renamed : Pending} {ids : PackIds} {known : IdMapping}
  {documents : List DocumentId} {spec : PackDocumentSpec} {staged : DocumentSpec} {p : ProtoId}
  {owner : CollectionSpec} {collection : Collection}

/-- What a document of a pack refers to resolves at once to what it resolves to in two steps, renamed. -/
theorem resolve_documents (hdocuments : ids.documents = documents.map ρ.document) {text : String}
    (ht : ρ.Leaves .document text) :
    (ids.resolution known).documents.resolve text =
      ρ.text .document
        ((IdMapping.ofIds documents).resolve ((IdMapping.empty .document).resolve text)) := by
  have hl : (ids.resolution known).documents.Lists (documents.map (ρ.of .document)) := by
    have hlists := IdMapping.lists_ofIds ids.documents
    rw [hdocuments] at hlists
    rw [PackIds.resolution, resolutionBy, hdocuments]
    exact hlists
  rw [Resolution.resolve_empty, Renaming.resolve_eq (IdMapping.lists_ofIds documents) hl ht]

/-- A document of a pack is created in a transaction of its own exactly where the installation of the
pack creates it. -/
theorem agrees_newPackDocument (h : Mirrors committed rows ρ committed committed' now now work work')
    (hb : rows.KeptBy ρ) (validator : Validator) (hp : pending.DocumentsRenamed ρ renamed)
    (hs : pack.Stages committed (.ofIds ids.collections) spec staged p owner collection)
    (hdocuments : ids.documents = documents.map ρ.document)
    (hleaves : ∀ path fixed members text, pack.HoldsAt spec path (.documentRef fixed) (.object members) →
      members.lookup "documentId" = some (.string text) → ρ.Leaves .document text) (id : DocumentId) :
    Agrees
      (newResolvedDocument validator pending { documents := .ofIds documents } id staged.collectionId
        staged.content)
      (newPackDocument validator renamed (ids.resolution known) (ρ.document id) spec)
      committed committed' work work' fun _ after _ after' =>
        MirrorsSince committed rows ρ committed committed' now after after' := by
  have hid : collection.id = staged.collectionId := Tables.id_of_get? hs.get?_eq
  have hload : work.get? committed .collection staged.collectionId = some collection := by
    rw [Work.get?_eq_of_clear (h.unique .collection (by decide)), Tables.get?_append, hs.get?_eq,
      Option.some_or]
  obtain ⟨other, hother, hsame, hschema⟩ := h.schema_eq hload
  obtain ⟨content, hcontent⟩ :
      ∃ content, collection.schema.resolveContent { documents := .ofIds documents } staged.content =
        .ok content := Schema.exists_resolveContent hs.usable staged.content
  obtain ⟨content', hcontent'⟩ :
      ∃ content', collection.schema.resolveContent (ids.resolution known) spec.content =
        .ok content' := Schema.exists_resolveContent hs.usable spec.content
  obtain ⟨⟨root, hroot⟩, -⟩ := Schema.checkStructure_eq_ok_iff.1 hs.usable
  obtain ⟨found, hfound⟩ := Schema.exists_visitContent hs.usable spec.content
  have hredirected : Rewrites collection.schema (Redirects (ρ.text .document)) root content content' := by
    refine Schema.redirected_resolveContent hroot hfound hs.content_eq hcontent hcontent'
      (fun text => (Resolution.resolve_empty ..).symm) fun visit hvisit hd text ht => ?_
    rw [hs.schema_eq, Schema.resolveCollections, Schema.readSelfAs,
      Schema.mapCollectionIds_mapCollectionIds] at hfound
    obtain ⟨fixed, members, hholds, hlookup⟩ := hs.owns.exists_holdsAt hfound hvisit hd ht
    exact resolve_documents hdocuments (hleaves _ fixed members text hholds hlookup)
  refine .after_right (decides_resolveId hs.collectionId_eq) fun _ work' hresolved => ?_
  obtain ⟨rfl, rfl⟩ := hresolved
  refine (Agrees.of_decides (decides_loadCollection hload) (decides_loadCollection hother) Iff.rfl
    fun _ _ _ _ hx hy => And.intro hx hy).bind fun collection work other work' hloaded => ?_
  obtain ⟨⟨rfl, rfl⟩, rfl, rfl⟩ := hloaded
  have hresolve : Agrees
      (ofExcept .brokenSchema (collection.schema.resolveContent { documents := .ofIds documents }
        staged.content))
      (ofExcept .brokenSchema (other.schema.resolveContent (ids.resolution known) spec.content))
      committed committed' work work' fun a after b after' => (a = content ∧ b = content') ∧
        Mirrors committed rows ρ committed committed' now now after after' := by
    rw [hschema]
    exact .ofExcept hcontent hcontent' ⟨⟨rfl, rfl⟩, h⟩
  refine hresolve.bind fun _ middle _ middle' hm => ?_
  obtain ⟨⟨rfl, rfl⟩, hm⟩ := hm
  exact agrees_newDocument hm hb validator hp id hsame hschema (hid ▸ hs.get?_eq) hs.usable hroot
    hredirected

/-- The documents that are pending are the same in both ways, under renamed ids. -/
theorem documentsRenamed_of_stages {base : PackBase} (h : PackPending pack base.ids base.pending)
    (hdocuments : base.ids.documents = documents.map ρ.document) {stored : Tables}
    {specs : List DocumentSpec}
    (hs : List.Forall₂ (fun spec staged => ∃ p owner collection, pack.Stages stored
      (.ofIds base.ids.collections) spec staged p owner collection) pack.documents specs) :
    Pending.DocumentsRenamed ρ { documents := documents.zip (specs.map DocumentSpec.collectionId) }
      base.pending := by
  obtain ⟨owners, hpending, howners⟩ := h.documents
  have htexts : pack.documents.map (fun spec =>
        (resolutionBy base.ids).collections.resolve spec.collectionId) =
      (specs.map DocumentSpec.collectionId).map RealId.text := by
    rw [← List.forall₂_eq_eq_eq, List.map_map, List.forall₂_map_left_iff, List.forall₂_map_right_iff]
    exact hs.imp fun _ _ ⟨_, _, _, hstages⟩ => hstages.collectionId_eq
  have hsame : owners = specs.map DocumentSpec.collectionId :=
    List.map_injective_iff.2 (fun _ _ => RealId.ext) (howners.symm.trans htexts)
  intro id
  rw [hpending, hdocuments, hsame]
  exact lookup_map_zip ρ.document.injective documents _ id

/-- The documents of a pack are created in a transaction of their own exactly where the installation of
the pack creates them. -/
theorem agrees_newPackDocuments
    (h : Mirrors committed rows ρ committed committed' now now work work') (hb : rows.KeptBy ρ)
    (validator : Validator) {base : PackBase} (hp : PackPending pack base.ids base.pending)
    (hdocuments : base.ids.documents = documents.map ρ.document) {specs : List DocumentSpec}
    (hs : List.Forall₂ (fun spec staged => ∃ p owner collection, pack.Stages committed
      (.ofIds base.ids.collections) spec staged p owner collection) pack.documents specs)
    (hleaves : ∀ spec ∈ pack.documents, ∀ path fixed members text,
      pack.HoldsAt spec path (.documentRef fixed) (.object members) →
      members.lookup "documentId" = some (.string text) → ρ.Leaves .document text) :
    Agrees
      (newDocuments validator { documents := documents.zip (specs.map DocumentSpec.collectionId) }
        { documents := .ofIds documents } (documents.zip specs))
      (newPackDocuments validator pack base) committed committed' work work' fun _ after _ after' =>
        MirrorsSince committed rows ρ committed committed' now after after' := by
  have hpending := documentsRenamed_of_stages hp hdocuments hs
  have hentries := forall₂_zip_map ρ.document hs documents
  rw [← hdocuments] at hentries
  refine Agrees.mapM hentries ⟨now, Nat.le_refl _, h⟩ ?_
  rintro ⟨id, staged⟩ ⟨_, spec⟩ middle middle' ⟨rfl, p, owner, collection, hstages⟩ ⟨later, hle, hm⟩
  exact (agrees_newPackDocument hm hb validator hpending hstages hdocuments
    (hleaves spec hstages.owns.mem) id).mono fun _ _ _ _ hafter => hafter.mono hle

end Staged

end Operation

end ContentStore
