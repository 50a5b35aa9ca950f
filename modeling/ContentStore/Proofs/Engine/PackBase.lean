import ContentStore.Proofs.Engine.MirroredDocuments
import ContentStore.Proofs.Engine.PackSteps

/-!
# A pack up to its documents

A pack is installed in two steps: what its documents rely on comes first, then they are created. The
first step mirrors the installation of the pack without its documents. Only the ids of the categories
differ, since those of the documents have been taken before them.
-/

namespace ContentStore

def Pack.withoutDocuments (pack : Pack) : Pack :=
  { pack with documents := [] }

def Pack.supplyForCategories (pack : Pack) (supply : Supply) : Supply :=
  (supply.skip pack.collections.length).skip pack.apps.length

def Pack.supplyForDocuments (pack : Pack) (supply : Supply) : Supply :=
  (pack.supplyForCategories supply).skip pack.categories.length

/-- What is there when the documents of a pack are about to be created. -/
structure PackBase where
  ids : PackIds
  pending : Pending
  known : IdMapping
  categories : List CollectionCategory
  collections : List Collection
  apps : List App

def PackBase.installed (base : PackBase) (documents : List Document) : PackInstallation where
  categories := base.categories
  collections := base.collections
  apps := base.apps
  documents := documents

/-- Resolutions by the same collections and apps, the categories of the one renamed in the other. -/
structure Resolution.CategoriesRenamed (ρ : Renaming) (resolution renamed : Resolution) : Prop where
  collections_eq : renamed.collections = resolution.collections
  apps_eq : renamed.apps = resolution.apps
  categories : ∃ ids : List CollectionCategoryId,
    resolution.categories.Lists ids ∧ renamed.categories.Lists (ids.map ρ.category)

/-- A renaming leaves alone what the categories, collections and apps of a pack refer to. -/
structure Renaming.LeavesBase (ρ : Renaming) (pack : Pack) : Prop where
  parents : ∀ spec ∈ pack.categories, ∀ text ∈ spec.parentId, ρ.Leaves .collectionCategory text
  categories : ∀ spec ∈ pack.collections, ∀ text ∈ spec.settings.categoryId,
    ρ.Leaves .collectionCategory text

namespace Operation

/-! ### The two steps -/

def newPackBase (pack : Pack) : Operation PackBase := do
  let ids ← idsFor pack
  let pending ← pendingFor pack ids (resolutionBy ids)
  let (categories, known) ← newPackCategories (resolutionBy ids).categories 0 pack.categories
  let collections ← (ids.collections.zip pack.collections).mapM fun (id, spec) =>
    newPackCollection pending (ids.resolution known) id spec
  let apps ← (ids.apps.zip pack.apps).mapM fun (id, spec) =>
    newPackApp pending (ids.resolution known) id spec
  return { ids, pending, known, categories, collections, apps }

def newPackDocuments (validator : Validator) (pack : Pack) (base : PackBase) :
    Operation (List Document) :=
  (base.ids.documents.zip pack.documents).mapM fun (id, spec) =>
    newPackDocument validator base.pending (base.ids.resolution base.known) id spec

theorem newPack_eq (validator : Validator) (pack : Pack) :
    newPack validator pack = do
      let base ← newPackBase pack
      let documents ← newPackDocuments validator pack base
      return base.installed documents := by
  simp only [newPackBase, bind_assoc, pure_bind]
  rfl

variable {committed : Tables} {before after : Work} {pack : Pack} {validator : Validator}
  {base : PackBase}

theorem returns_newPack {installed : PackInstallation} :
    Returns (newPack validator pack) committed before installed after ↔
      ∃ base middle documents, Returns (newPackBase pack) committed before base middle ∧
        Returns (newPackDocuments validator pack base) committed middle documents after ∧
        installed = base.installed documents := by
  simp only [newPack_eq, returns_bind, returns_pure]
  constructor
  · rintro ⟨base, middle, hbase, documents, _, hdocuments, rfl, rfl⟩
    exact ⟨base, middle, documents, hbase, hdocuments, rfl⟩
  · rintro ⟨base, middle, documents, hbase, hdocuments, rfl⟩
    exact ⟨base, middle, hbase, documents, after, hdocuments, rfl, rfl⟩

/-- Without documents nothing is left to do after the first step. -/
theorem returns_newPack_withoutDocuments {installed : PackInstallation} :
    Returns (newPack validator pack.withoutDocuments) committed before installed after ↔
      ∃ base, Returns (newPackBase pack.withoutDocuments) committed before base after ∧
        installed = base.installed [] := by
  have hnone : ∀ base : PackBase, newPackDocuments validator pack.withoutDocuments base = pure [] := by
    intro base
    rw [newPackDocuments, Pack.withoutDocuments, List.zip_nil_right, List.mapM_nil]
  simp only [returns_newPack, hnone, returns_pure]
  constructor
  · rintro ⟨base, _, _, hbase, ⟨rfl, rfl⟩, rfl⟩
    exact ⟨base, hbase, rfl⟩
  · rintro ⟨base, hbase, rfl⟩
    exact ⟨base, after, [], hbase, ⟨rfl, rfl⟩, rfl⟩

/-- The collections of the first step stand under the ids that were given first, with their schemas
resolved by these. -/
theorem resolved_of_newPackBase (h : Returns (newPackBase pack) committed before base after) :
    base.ids = .given before.supply pack ∧ PackPending pack base.ids base.pending ∧
      List.Forall₂ (CollectionSpec.Resolved base.ids) (base.ids.collections.zip pack.collections)
        base.collections := by
  simp only [newPackBase, returns_bind, returns_pure] at h
  obtain ⟨ids, given, hids, pending, _, hpending, result, _, -, collections, _, hcollections, apps, _,
    -, rfl, -⟩ := h
  obtain ⟨-, rfl, -⟩ := (decides_idsFor_given pack).needed hids
  obtain ⟨hawaits, rfl⟩ := returns_pendingFor hpending
  refine ⟨rfl, hawaits, forall₂_of_returns_mapM ?_ hcollections⟩
  rintro ⟨id, spec⟩ before collection after hr
  simp only [newPackCollection, returns_bind, returns_newCollection] at hr
  obtain ⟨settings, _, -, -, -, -, rfl, -⟩ := hr
  exact ⟨rfl, rfl⟩

/-! ### Mirrored steps -/

section Mirrored

variable {final rows committed' : Tables} {ρ : Renaming} {now later : Supply} {work work' : Work}
  {resolution renamed : Resolution} {pending pending' : Pending}

theorem agrees_resolveCategory
    (h : Mirrors final rows ρ committed committed' now later work work') {mapping mapping' : IdMapping}
    {ids : List CollectionCategoryId} (hl : mapping.Lists ids) (hl' : mapping'.Lists (ids.map ρ.category))
    {text : Option String} (ht : ∀ found ∈ text, ρ.Leaves .collectionCategory found) :
    Agrees (resolveOptional .collectionCategory mapping text)
      (resolveOptional .collectionCategory mapping' text) committed committed' work work'
      fun id after id' after' => id' = id.map ρ.category ∧
        Mirrors final rows ρ committed committed' now later after after' :=
  .of_reads ρ.category.optionCongr.surjective returns_resolveOptional returns_resolveOptional
    (Renaming.map_resolve_eq_iff hl hl' ht) fun _ => ⟨rfl, h⟩

/-- Settings are resolved to the same ones but for the id of the category. -/
theorem agrees_resolveSettings
    (h : Mirrors final rows ρ committed committed' now later work work')
    (hr : resolution.CategoriesRenamed ρ renamed) {spec : SettingsSpec}
    (hs : ∀ text ∈ spec.categoryId, ρ.Leaves .collectionCategory text) :
    Agrees (resolveSettings resolution spec) (resolveSettings renamed spec) committed committed' work
      work' fun settings after settings' after' => settings' = settings.rename ρ ∧
        Mirrors final rows ρ committed committed' now later after after' := by
  obtain ⟨-, happs, ids, hl, hl'⟩ := hr
  refine (agrees_resolveCategory h hl hl' hs).bind fun category middle category' middle' hm => ?_
  obtain ⟨rfl, hm⟩ := hm
  have happ : Agrees (resolveOptional .app resolution.apps spec.defaultAppId)
      (resolveOptional .app renamed.apps spec.defaultAppId) committed committed' middle middle'
      fun id after id' after' => id' = id ∧
        Mirrors final rows ρ committed committed' now later after after' := by
    rw [happs]
    exact .of_reads Function.surjective_id returns_resolveOptional returns_resolveOptional
      (fun _ => Iff.rfl) fun _ => ⟨rfl, hm⟩
  refine happ.bind fun app after app' after' ha => .pure ?_
  obtain ⟨rfl, ha⟩ := ha
  exact ⟨rfl, ha⟩

/-- Categories made of the next ids are created together, if the renaming leads from the ones to the
others. -/
theorem agrees_newPackCategories
    (h : Mirrors final rows ρ committed committed' now later work work') (hb : rows.KeptBy ρ)
    {specs : List CategorySpec}
    (hnext : ∀ n < specs.length, ρ.category ((now.suffix (now.used + n)).toId .collectionCategory) =
      (later.suffix (later.used + n)).toId .collectionCategory)
    (hs : ∀ spec ∈ specs, ∀ text ∈ spec.parentId, ρ.Leaves .collectionCategory text)
    {mapping mapping' : IdMapping} {ids : List CollectionCategoryId} (hl : mapping.Lists ids)
    (hl' : mapping'.Lists (ids.map ρ.category)) :
    Agrees (newPackCategories mapping ids.length specs) (newPackCategories mapping' ids.length specs)
      committed committed' work work' fun result after result' after' =>
        (∃ ids : List CollectionCategoryId,
          result.2.Lists ids ∧ result'.2.Lists (ids.map ρ.category)) ∧
        Mirrors final rows ρ committed committed' (now.skip specs.length) (later.skip specs.length)
          after after' := by
  -- The mappings list the categories before, under renamed ids on the one side.
  induction specs generalizing mapping mapping' ids now later work work' with
  | nil => exact .pure ⟨⟨ids, hl, hl'⟩, h⟩
  | cons spec rest ih =>
      refine (agrees_resolveCategory h hl hl' (hs spec (by simp))).bind
        fun parent middle parent' middle' hm => ?_
      obtain ⟨rfl, hm⟩ := hm
      refine (agrees_newCategory hm hb (hnext 0 (by simp)) spec.name spec.icon parent).bind
        fun category next category' next' hnew => ?_
      obtain ⟨rfl, hnew⟩ := hnew
      have hids : (category.rename ρ).id = ρ.category category.id := rfl
      have hlists := hl.insert category.id
      have hlists' := hl'.insert (category.rename ρ).id
      rw [List.length_map, hids, ← List.map_singleton (f := ρ.category), ← List.map_append] at hlists'
      have hrest := ih hnew (fun n hn => ?_) (fun other ho => hs other (by simp [ho])) hlists hlists'
      · rw [List.length_append, List.length_singleton] at hrest
        refine hrest.bind fun result after result' after' hresult => .pure ?_
        obtain ⟨hknown, hafter⟩ := hresult
        rw [Supply.skip_skip, Supply.skip_skip, Nat.add_comm 1] at hafter
        exact ⟨hknown, hafter⟩
      · have hlater := hnext (n + 1) (by simpa using hn)
        rw [← Nat.add_assoc, ← Nat.add_assoc, Nat.add_right_comm, Nat.add_right_comm later.used] at hlater
        exact hlater

theorem agrees_newPackCollection
    (h : Mirrors final rows ρ committed committed' now later work work') (hb : rows.KeptBy ρ)
    (hr : resolution.CategoriesRenamed ρ renamed) (happs : pending'.apps = pending.apps)
    (id : CollectionId) {spec : CollectionSpec}
    (hs : ∀ text ∈ spec.settings.categoryId, ρ.Leaves .collectionCategory text) :
    Agrees (newPackCollection pending resolution id spec) (newPackCollection pending' renamed id spec)
      committed committed' work work' fun _ after _ after' =>
        Mirrors final rows ρ committed committed' now later after after' := by
  refine (agrees_resolveSettings h hr hs).bind fun settings middle settings' middle' hm => ?_
  obtain ⟨rfl, hm⟩ := hm
  rw [hr.collections_eq]
  exact agrees_newCollection hm hb happs id settings _ _

theorem agrees_newPackApp
    (h : Mirrors final rows ρ committed committed' now later work work') (hb : rows.KeptBy ρ)
    (hr : resolution.CategoriesRenamed ρ renamed)
    (hcollections : pending'.collections = pending.collections) (id : AppId) (spec : AppSpec) :
    Agrees (newPackApp pending resolution id spec) (newPackApp pending' renamed id spec)
      committed committed' work work' fun _ after _ after' =>
        Mirrors final rows ρ committed committed' now later after after' := by
  have htargets : Agrees (spec.targets.mapM (resolveId .collection resolution.collections))
      (spec.targets.mapM (resolveId .collection renamed.collections)) committed committed' work work'
      fun targets after targets' after' => targets' = targets ∧
        Mirrors final rows ρ committed committed' now later after after' := by
    rw [hr.collections_eq]
    exact .of_reads Function.surjective_id returns_mapM_resolveId returns_mapM_resolveId
      (fun _ => Iff.rfl) fun _ => ⟨rfl, h⟩
  refine htargets.bind fun targets middle targets' middle' hm => ?_
  obtain ⟨rfl, hm⟩ := hm
  exact agrees_newApp hm hb hcollections id _ _ _ _

/-- Without its documents a pack is created up to them where it is created up to its documents, if the
renaming leads over the ids that these have taken. -/
theorem agrees_newPackBase {supply : Supply} (hb : committed.KeptBy ρ)
    (howners : ∀ spec ∈ pack.documents, pack.HasEntry .collection spec.collectionId)
    (hleaves : ρ.LeavesBase pack)
    (hnext : ∀ n < pack.categories.length,
      ρ.category (((pack.supplyForCategories supply).suffix
          ((pack.supplyForCategories supply).used + n)).toId .collectionCategory) =
        ((pack.supplyForCategories supply).suffix
          ((pack.supplyForCategories supply).used + pack.documents.length + n)).toId
            .collectionCategory) :
    Agrees (newPackBase pack.withoutDocuments) (newPackBase pack) committed committed
      (Work.start none supply) (Work.start none supply) fun _ after _ after' =>
        Mirrors {} committed ρ committed committed (pack.supplyForDocuments supply)
          ((pack.supplyForDocuments supply).skip pack.documents.length) after after' := by
  have hnone : ∀ spec ∈ pack.withoutDocuments.documents,
      pack.withoutDocuments.HasEntry .collection spec.collectionId := nofun
  refine (Agrees.of_decides (decides_idsFor_given _) (decides_idsFor_given _) Iff.rfl
    fun _ _ _ _ hids hids' => And.intro hids hids').bind fun ids given ids' given' hgiven => ?_
  obtain ⟨⟨rfl, rfl⟩, rfl, rfl⟩ := hgiven
  refine (Agrees.of_decides (decides_pendingFor hnone (Supply.length_next ..))
    (decides_pendingFor howners (Supply.length_next ..)) Iff.rfl
    fun _ _ _ _ hp hp' => And.intro hp hp').bind fun pending _ pending' _ hpending => ?_
  obtain ⟨⟨hpending, rfl⟩, hpending', rfl⟩ := hpending
  have happs : pending'.apps = pending.apps := by
    rw [hpending.apps_eq, hpending'.apps_eq]
    rfl
  have hcollections : pending'.collections = pending.collections := by
    rw [hpending.collections_eq, hpending'.collections_eq]
    rfl
  have hstart : Mirrors {} committed ρ committed committed (pack.supplyForCategories supply)
      ((pack.supplyForCategories supply).skip pack.documents.length)
      ((((Work.start none supply).skip pack.collections.length).skip pack.apps.length).skip 0)
      ((((Work.start none supply).skip pack.collections.length).skip pack.apps.length).skip
        pack.documents.length) :=
    ⟨rfl, rfl, rfl, rfl, rfl, Tables.unique_empty _, Tables.unique_empty _, {}, {}, rfl, rfl,
      .empty _ _⟩
  have hcategories := agrees_newPackCategories hstart hb hnext hleaves.parents
    (IdMapping.lists_empty _) (IdMapping.lists_empty _)
  refine hcategories.bind fun result categorized result' categorized' hresult => ?_
  obtain ⟨hknown, hcategorized⟩ := hresult
  rw [Supply.skip_comm] at hcategorized
  have hresolution : ((PackIds.given supply pack.withoutDocuments).resolution
      result.2).CategoriesRenamed ρ ((PackIds.given supply pack).resolution result'.2) :=
    ⟨rfl, rfl, hknown⟩
  have hentries : List.Forall₂ (fun entry other => entry = other ∧ entry.2 ∈ pack.collections)
      ((PackIds.given supply pack).collections.zip pack.collections)
      ((PackIds.given supply pack).collections.zip pack.collections) :=
    List.forall₂_same.2 fun entry he => ⟨rfl, (List.of_mem_zip he).2⟩
  have hmade := Agrees.mapM hentries hcategorized fun entry other middle middle' hentry hm => by
    obtain ⟨rfl, hspec⟩ := hentry
    exact agrees_newPackCollection hm hb hresolution happs entry.1 (hleaves.categories entry.2 hspec)
  refine hmade.bind fun collections made collections' made' hmade => ?_
  have hentries : List.Forall₂ Eq ((PackIds.given supply pack).apps.zip pack.apps)
      ((PackIds.given supply pack).apps.zip pack.apps) := List.forall₂_same.2 fun _ _ => rfl
  have happlied := Agrees.mapM hentries hmade fun entry other middle middle' hentry hm => by
    subst hentry
    exact agrees_newPackApp hm hb hresolution hcollections entry.1 entry.2
  exact happlied.bind fun apps after apps' after' hafter => .pure hafter

end Mirrored

end Operation

end ContentStore
