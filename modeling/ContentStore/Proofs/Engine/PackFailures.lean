import ContentStore.Proofs.Engine.Exact
import ContentStore.Proofs.Engine.Failures
import ContentStore.Proofs.Engine.PackSteps

/-!
# What can still go wrong with a checked pack

A pack without issues fails to be installed only for what its check does not ask: a schema whose root is
no struct, an id in the pack that no committed row has, content that is not valid or refers to what is not
there, and refusals of the store.
-/

namespace ContentStore

/-- A text stands in a pack where the pack names a category, an app or a collection that must exist. -/
inductive Pack.Names (pack : Pack) : Kind → String → Prop where
  | parent {spec : CategorySpec} {text : String} (entry : spec ∈ pack.categories)
      (named : text ∈ spec.parentId) : pack.Names .collectionCategory text
  | category {spec : CollectionSpec} {text : String} (entry : spec ∈ pack.collections)
      (named : text ∈ spec.settings.categoryId) : pack.Names .collectionCategory text
  | defaultApp {spec : CollectionSpec} {text : String} (entry : spec ∈ pack.collections)
      (named : text ∈ spec.settings.defaultAppId) : pack.Names .app text
  | target {spec : AppSpec} {text : String} (entry : spec ∈ pack.apps)
      (named : text ∈ spec.targets) : pack.Names .collection text

/-- A text is an id that stands in a pack and that no committed row of the kind has. -/
def Pack.Misses (pack : Pack) (committed : Tables) (kind : Kind) (text : String) : Prop :=
  ∃ id : RealId kind, text = id.text ∧ pack.Names kind text ∧ committed.contains kind id = false

/-- The errors that are left for the installation of a pack whose check found no issue. -/
def Pack.Remaining (pack : Pack) (committed : Tables) : EngineError → Prop
  | .packNotValid _ | .invalidId _ | .brokenSchema _ | .batchTooLarge _ _ => False
  | .collectionSchemaNotValid issues => ∃ issue, issues = [issue] ∧ issue.path = [.name "rootType"]
  | .categoryNotFound text => pack.Misses committed .collectionCategory text
  | .appNotFound text => pack.Misses committed .app text
  | .collectionNotFound text => pack.Misses committed .collection text
  | .referencedDocumentsNotFound references => ∀ reference ∈ references,
      ¬ ProtoId.Placeholder reference.collectionId ∧ ¬ ProtoId.Placeholder reference.documentId
  | .documentContentNotValid _ _ | .filesNotFound _ | .refused _ => True

/-- A reference resolves to an id that was given to an entry, or to an id that stands in the pack. -/
theorem Pack.exists_resolved_or_standing {pack : Pack} {kind : Kind} {mapping : IdMapping}
    {listed : List (RealId kind)} {text : String} {p : String → Prop}
    (h : (Demand.reference kind text).Met pack) (hl : mapping.Lists listed)
    (hlength : listed.length = pack.count kind) (hp : p text) :
    ∃ id, (id ∈ listed ∨ p id.text) ∧ mapping.resolve text = id.text := by
  obtain ⟨id, hid, hgiven⟩ := exists_resolved_of_met h hl hlength
  refine ⟨id, hgiven.imp_right ?_, hid⟩
  rintro rfl
  exact hp

/-- A parent resolves to a category that was made before, or to an id that stands in the pack. -/
theorem Pack.exists_parent_or_standing {pack : Pack} {index : Nat} {text : String} {mapping : IdMapping}
    {made : List CollectionCategoryId} {p : String → Prop} (h : (Demand.parent index text).Met pack)
    (hl : mapping.Lists made) (hlength : made.length = index) (hp : p text) :
    ∃ id, (id ∈ made ∨ p id.text) ∧ mapping.resolve text = id.text := by
  rcases h with ⟨q, hkind, hlt, rfl⟩ | ⟨id, rfl⟩
  · rw [← hlength] at hlt
    have hget := List.getElem?_eq_getElem hlt
    exact ⟨_, .inl (List.getElem_mem _), (IdMapping.resolve_eq_iff hl).2 (.position hkind hget)⟩
  · exact ⟨id, .inr hp, (IdMapping.resolve_eq_iff hl).2 .real⟩

/-! ### Rows that stay staged -/

namespace Work

variable {committed : Tables} {start middle work : Work} {kind : Kind} {id : RealId kind} {e : Entity kind}

/-- A work has the staged rows of another one, in front of its own. -/
def Extends (work start : Work) : Prop :=
  ∃ added, work.staged = start.staged ++ added

theorem Extends.refl (work : Work) : work.Extends work :=
  ⟨{}, by simp⟩

theorem Extends.trans (h : work.Extends middle) (h' : middle.Extends start) : work.Extends start := by
  obtain ⟨added, hadded⟩ := h
  obtain ⟨first, hfirst⟩ := h'
  exact ⟨first ++ added, by rw [hadded, hfirst, Tables.append_assoc]⟩

theorem extends_of_adding {fact : Tables → Tables → Prop} (h : Adding committed start work fact) :
    work.Extends start := by
  obtain ⟨added, hadded, -⟩ := h
  exact ⟨added, hadded⟩

theorem Extends.get?_eq_some (h : work.Extends start) (hs : start.staged.get? kind id = some e) :
    work.get? committed kind id = some e := by
  obtain ⟨added, hadded⟩ := h
  rw [get?, hadded, Tables.get?_append, hs, Option.some_or, Option.some_or]

theorem Extends.contains (h : work.Extends start) (hs : start.staged.contains kind id = true) :
    work.staged.contains kind id = true := by
  obtain ⟨added, hadded⟩ := h
  rw [hadded, Tables.contains_append, hs, Bool.true_or]

theorem contains_eq_false_of_get? (h : work.get? committed kind id = none) :
    committed.contains kind id = false := by
  obtain ⟨-, hcommitted⟩ := Option.or_eq_none_iff.1 h
  simpa [Tables.contains] using hcommitted

/-- The categories that a work has made are staged in it. -/
def Stages (work : Work) (categories : List CollectionCategory) : Prop :=
  ∀ category ∈ categories, work.staged.contains .collectionCategory category.id = true

variable {categories : List CollectionCategory} {category : CollectionCategory}

theorem Stages.extend (h : start.Stages categories) (he : work.Extends start) :
    work.Stages categories :=
  fun made hmade => he.contains (h made hmade)

theorem Stages.not_mem_of_get? (h : work.Stages categories) {id : CollectionCategoryId}
    (hnone : work.get? committed .collectionCategory id = none) :
    id ∉ categories.map CollectionCategory.id := by
  intro hmem
  obtain ⟨made, hmade, rfl⟩ := List.mem_map.1 hmem
  have hcontains := h made hmade
  have hstaged : work.staged.get? .collectionCategory made.id = none := (Option.or_eq_none_iff.1 hnone).1
  rw [Tables.contains, hstaged] at hcontains
  cases hcontains

theorem Stages.createCategory {name icon : String} {parentId : Option CollectionCategoryId}
    (h : start.Stages categories)
    (hc : start.createCategory name icon parentId = (.ok category, work)) :
    work.Stages (categories ++ [category]) := by
  have hstaged : work.staged = start.staged ++ @Tables.single .collectionCategory category := by
    unfold Work.createCategory at hc
    split at hc
    · cases hc
    · cases hc
      exact @Tables.push_eq_append .collectionCategory _ _
  have hextends : work.Extends start := ⟨_, hstaged⟩
  intro made hmade
  rcases List.mem_append.1 hmade with hold | hnew
  · exact hextends.contains (h made hold)
  · obtain rfl := List.mem_singleton.1 hnew
    have hrow : made ∈ work.staged.rows .collectionCategory := by simp [hstaged]
    exact Tables.contains_iff.2 ⟨made, hrow, rfl⟩

end Work

theorem Tables.Clear.get?_eq_some {committed staged : Tables} {kind : Kind} {e : Entity kind}
    (h : Clear committed staged kind) (he : e ∈ staged.rows kind) :
    staged.get? kind e.id = some e :=
  get?_of_clear.find?_of_nodup h.2 he

namespace Operation

variable {committed : Tables} {before : Work} {pack : Pack} {ids : PackIds} {pending : Pending}
  {known : IdMapping} {categories : List CollectionCategory}

/-- Entries created one after another, under what was staged before the first of them and stays. -/
theorem EndsIn.mapM_zip {α β γ : Type} {f : α → β → Operation γ} {errors : EngineError → Prop}
    {fact : α → β → Tables → γ → Tables → Prop} {start : Work} {as : List α} {bs : List β}
    (hb : before.Extends start)
    (hf : ∀ a, ∀ b ∈ bs, ∀ middle, middle.Extends start →
      EndsIn (f a b) committed middle errors fun _ _ => True)
    (ha : ∀ a b, Adds (f a b) (fact a b)) :
    EndsIn ((as.zip bs).mapM fun (a, b) => f a b) committed before errors
      fun _ after => after.Extends start := by
  refine EndsIn.mapM_keeping (·.Extends start) hb fun entry hentry middle hmiddle => ?_
  have hends := hf entry.1 entry.2 (List.of_mem_zip hentry).2 middle hmiddle
  refine hends.returning fun c after hr => ?_
  have hadding := ha entry.1 entry.2 committed middle c after hr
  exact (Work.extends_of_adding hadding).trans hmiddle

/-! ### Ids and categories -/

theorem endsIn_idsFor {errors : EngineError → Prop} (pack : Pack) :
    EndsIn (idsFor pack) committed before errors fun ids after =>
      ids.Fit pack ∧ after.staged = before.staged := by
  have hends : EndsIn (idsFor pack) committed before errors fun _ _ => True := by
    refine (EndsIn.of_decides (decides_freshFor .collection pack.collections)).bind fun _ _ _ => ?_
    refine (EndsIn.of_decides (decides_freshFor .app pack.apps)).bind fun _ _ _ => ?_
    exact (EndsIn.of_decides (decides_freshFor .document pack.documents)).answer fun _ _ _ => trivial
  exact hends.returning fun _ _ hr => returns_idsFor hr

/-- A category whose parents come before it, or are ids, fails only for a parent that is an id. -/
theorem endsIn_newPackCategories {mapping : IdMapping} (done : List CollectionCategory)
    {specs : List CategorySpec} (hl : mapping.Lists (done.map CollectionCategory.id))
    (hb : before.Stages done) (hs : ∀ spec ∈ specs, spec ∈ pack.categories)
    (hp : ∀ place spec, specs[place]? = some spec → ∀ text ∈ spec.parentId,
      (Demand.parent (done.length + place) text).Met pack) :
    EndsIn (newPackCategories mapping done.length specs) committed before (pack.Remaining committed)
      fun _ _ => True := by
  -- The mapping lists the categories in `done`, which are all staged, so no parent among them is missing.
  induction specs generalizing mapping done before with
  | nil => exact .pure trivial
  | cons spec rest ih =>
      have hparent : ∀ text ∈ spec.parentId, ∃ id, (id ∈ done.map CollectionCategory.id ∨
          id.text ∈ spec.parentId) ∧ mapping.resolve text = id.text := by
        intro text ht
        exact Pack.exists_parent_or_standing (p := (· ∈ spec.parentId)) (hp 0 spec rfl text ht) hl
          (by simp) ht
      refine (EndsIn.of_decides (decides_resolveOptional hparent)).bind fun parent middle hmiddle => ?_
      obtain ⟨hlisted, rfl⟩ := hmiddle
      have herrors : ∀ e, CategoryError committed middle parent e → pack.Remaining committed e := by
        intro e he
        cases he with
        | parent named missing =>
            have hstanding := (hlisted _ named).resolve_left (hb.not_mem_of_get? missing)
            exact ⟨_, rfl, .parent (hs spec (by simp)) hstanding, Work.contains_eq_false_of_get? missing⟩
        | refused => trivial
      refine ((endsIn_newCategory spec.name spec.icon parent).mono herrors fun _ _ h => h).bind
        fun category next hnext => ?_
      have hlists := hl.insert category.id
      rw [List.length_map] at hlists
      have hlength : (done ++ [category]).length = done.length + 1 := by simp
      have hparents : ∀ place other, rest[place]? = some other → ∀ text ∈ other.parentId,
          (Demand.parent ((done ++ [category]).length + place) text).Met pack := by
        intro place other hother text ht
        rw [hlength, Nat.add_right_comm]
        exact hp (place + 1) other hother text ht
      have hrest := ih (done ++ [category]) (by simpa using hlists) (hb.createCategory hnext)
        (fun other ho => hs other (by simp [ho])) hparents
      rw [hlength] at hrest
      exact hrest.answer fun _ _ _ => trivial

/-- The entries of a pack have their ids, and its categories are known. -/
structure Prepared (pack : Pack) (ids : PackIds) (pending : Pending) (known : IdMapping)
    (categories : List CollectionCategory) : Prop where
  fit : ids.Fit pack
  awaits : PackPending pack ids pending
  lists : known.Lists (categories.map CollectionCategory.id)
  length_eq : categories.length = pack.categories.length

/-! ### Collections -/

/-- The settings of a collection resolve, to what the pack makes or to ids that stand in the pack. -/
theorem endsIn_resolveSettings {errors : EngineError → Prop} (hc : pack.Checked)
    (hp : Prepared pack ids pending known categories) {spec : CollectionSpec}
    (hs : spec ∈ pack.collections) :
    EndsIn (resolveSettings (ids.resolution known) spec.settings) committed before errors
      fun settings after =>
        ((∀ id, settings.categoryId = some id → id ∈ categories.map CollectionCategory.id ∨
            id.text ∈ spec.settings.categoryId) ∧
          ∀ id, settings.defaultAppId = some id → id ∈ ids.apps ∨
            id.text ∈ spec.settings.defaultAppId) ∧ after = before := by
  have hcategory : ∀ text ∈ spec.settings.categoryId,
      ∃ id, (id ∈ categories.map CollectionCategory.id ∨ id.text ∈ spec.settings.categoryId) ∧
        known.resolve text = id.text := by
    intro text ht
    exact Pack.exists_resolved_or_standing (p := (· ∈ spec.settings.categoryId))
      (hc.references.categories spec hs text ht) hp.lists
      (by rw [List.length_map, hp.length_eq]; rfl) ht
  have happ : ∀ text ∈ spec.settings.defaultAppId,
      ∃ id, (id ∈ ids.apps ∨ id.text ∈ spec.settings.defaultAppId) ∧
        (IdMapping.ofIds ids.apps).resolve text = id.text := by
    intro text ht
    exact Pack.exists_resolved_or_standing (p := (· ∈ spec.settings.defaultAppId))
      (hc.references.defaultApps spec hs text ht) (IdMapping.lists_ofIds ids.apps) hp.fit.apps ht
  refine (EndsIn.of_decides (decides_resolveOptional hcategory)).bind fun category middle hmiddle => ?_
  refine (EndsIn.of_decides (decides_resolveOptional happ)).bind fun app after hafter => .pure ?_
  obtain ⟨hcategory, rfl⟩ := hmiddle
  obtain ⟨happ, rfl⟩ := hafter
  exact ⟨⟨hcategory, happ⟩, rfl⟩

theorem endsIn_newPackCollection (hc : pack.Checked) (hp : Prepared pack ids pending known categories)
    (hb : before.Stages categories) (id : CollectionId) {spec : CollectionSpec}
    (hs : spec ∈ pack.collections) :
    EndsIn (newPackCollection pending (ids.resolution known) id spec) committed before
      (pack.Remaining committed) fun _ _ => True := by
  refine (endsIn_resolveSettings hc hp hs).bind fun settings middle hsettings => ?_
  obtain ⟨⟨hcategory, happ⟩, rfl⟩ := hsettings
  refine (endsIn_newCollection pending id settings _ spec.versionSettings).mono ?_ fun _ _ _ => trivial
  -- The check saw the schema with its references in place: all that it has not asked is the root.
  obtain ⟨root, -, hfaults⟩ := Schema.collectionFaults_of_shaped
    (hc.checkStructure_resolved hs (IdMapping.ofIds ids.collections) id)
    (hc.shaped_fixed hs (IdMapping.lists_ofIds ids.collections) hp.fit.collections id)
  rintro e he
  cases he with
  | broken unusable => cases hfaults.symm.trans unusable
  | faulty found some =>
      cases hfaults.symm.trans found
      split at some
      · exact absurd rfl some
      · next hroot => exact ⟨_, by rw [if_neg hroot]; rfl, rfl⟩
  | category named missing =>
      have hstanding := (hcategory _ named).resolve_left (hb.not_mem_of_get? missing)
      exact ⟨_, rfl, .category hs hstanding, Work.contains_eq_false_of_get? missing⟩
  | app named notPending missing =>
      rw [hp.awaits.apps_eq] at notPending
      have hstanding := (happ _ named).resolve_left notPending
      exact ⟨_, rfl, .defaultApp hs hstanding, Work.contains_eq_false_of_get? missing⟩
  | refused => trivial

/-- The collections of a checked pack, each staged under its id with its schema resolved. -/
theorem endsIn_newPackCollections (hc : pack.Checked) (hp : Prepared pack ids pending known categories)
    (hb : before.Stages categories) (hu : Tables.Unique committed before.staged) :
    EndsIn ((ids.collections.zip pack.collections).mapM fun (id, spec) =>
        newPackCollection pending (ids.resolution known) id spec) committed before
      (pack.Remaining committed) fun collections after =>
        List.Forall₂ (CollectionSpec.Resolved ids) (ids.collections.zip pack.collections) collections ∧
          ∀ collection ∈ collections,
            after.staged.get? .collection collection.id = some collection := by
  have hends : EndsIn ((ids.collections.zip pack.collections).mapM fun (id, spec) =>
      newPackCollection pending (ids.resolution known) id spec) committed before
      (pack.Remaining committed) fun _ after => after.Extends before :=
    EndsIn.mapM_zip (.refl before)
      (fun id spec hs middle hmiddle => endsIn_newPackCollection hc hp (hb.extend hmiddle) id hs)
      (newPackCollection_adds pending _)
  refine hends.returning fun collections after hr => ?_
  obtain ⟨added, hadded, hunique, hfact⟩ := Adds.mapM (fun entry _ => newPackCollection_adds pending
    (ids.resolution known) entry.1 entry.2) committed before collections after hr
  have hafter := hunique hu
  obtain ⟨hinstalled, hrows, -⟩ := AddsEach.of_single .collection (hfact {} (by simpa using hafter))
  refine ⟨hinstalled.imp fun entry collection h => ⟨h.added.id_eq, h.added.schema_eq⟩, ?_⟩
  intro collection hmem
  refine (hafter .collection (by decide)).get?_eq_some ?_
  rw [hadded, Tables.rows_append, hrows]
  exact List.mem_append_right _ hmem

/-! ### Apps and documents -/

theorem endsIn_newPackApp (hc : pack.Checked) (hp : Prepared pack ids pending known categories)
    (id : AppId) {spec : AppSpec} (hs : spec ∈ pack.apps) :
    EndsIn (newPackApp pending (ids.resolution known) id spec) committed before
      (pack.Remaining committed) fun _ _ => True := by
  have htargets : ∀ text ∈ spec.targets, ∃ id, (id ∈ ids.collections ∨ id.text ∈ spec.targets) ∧
      (IdMapping.ofIds ids.collections).resolve text = id.text := by
    intro text ht
    exact Pack.exists_resolved_or_standing (p := (· ∈ spec.targets))
      (hc.references.targets spec hs text ht) (IdMapping.lists_ofIds ids.collections)
      hp.fit.collections ht
  refine (EndsIn.of_decides (decides_resolveAll htargets)).bind fun targets middle hmiddle => ?_
  obtain ⟨⟨-, hfound⟩, rfl⟩ := hmiddle
  refine (endsIn_newApp pending id spec.appType spec.name targets spec.files).mono ?_
    fun _ _ _ => trivial
  rintro e he
  cases he with
  | target named notPending missing =>
      rw [hp.awaits.collections_eq] at notPending
      have hstanding := (hfound _ named).resolve_left notPending
      exact ⟨_, rfl, .target hs hstanding, Work.contains_eq_false_of_get? missing⟩
  | refused => trivial

theorem endsIn_newPackApps (hc : pack.Checked) (hp : Prepared pack ids pending known categories) :
    EndsIn ((ids.apps.zip pack.apps).mapM fun (id, spec) =>
        newPackApp pending (ids.resolution known) id spec) committed before
      (pack.Remaining committed) fun _ after => after.Extends before :=
  EndsIn.mapM_zip (.refl before) (fun id _ hs _ _ => endsIn_newPackApp hc hp id hs)
    (newPackApp_adds pending _)

theorem endsIn_newPackDocument (hc : pack.Checked) (hp : Prepared pack ids pending known categories)
    {collections : List Collection}
    (hresolved : List.Forall₂ (CollectionSpec.Resolved ids) (ids.collections.zip pack.collections)
      collections)
    (hseen : ∀ collection ∈ collections,
      before.get? committed .collection collection.id = some collection) (validator : Validator)
    (id : DocumentId) {spec : PackDocumentSpec} (hs : spec ∈ pack.documents) :
    EndsIn (newPackDocument validator pending (ids.resolution known) id spec) committed before
      (pack.Remaining committed) fun _ _ => True := by
  obtain ⟨p, collection, howns⟩ := hc.exists_owns hs
  have hlists := IdMapping.lists_ofIds ids.collections
  obtain ⟨owner, -, howner⟩ := (hc.owners spec hs).exists_mem hlists hp.fit.collections
  obtain ⟨stored, hplace, rfl, hschema⟩ := exists_resolved hp.fit.collections hresolved howns howner
  have hmapped : stored.schema = collection.schema.mapCollectionIds
      ((IdMapping.ofIds ids.collections).resolve ∘
        fun id => if id = selfCollection then p.text else id) :=
    hschema.trans (Schema.mapCollectionIds_mapCollectionIds ..)
  have hstructure : stored.schema.checkStructure = .ok () := hmapped ▸ howns.checkStructure hc _
  obtain ⟨content, hcontent⟩ :
      ∃ content, stored.schema.resolveContent (ids.resolution known) spec.content = .ok content :=
    Schema.exists_resolveContent hstructure spec.content
  refine (EndsIn.of_decides (decides_resolveId howner)).bind fun found middle hmiddle => ?_
  obtain ⟨rfl, rfl⟩ := hmiddle
  have hstored := List.mem_of_getElem? hplace
  refine (EndsIn.of_decides (decides_loadCollection (hseen stored hstored))).bind
    fun loaded next hnext => ?_
  obtain ⟨rfl, rfl⟩ := hnext
  refine (EndsIn.of_decides (decides_ofExcept hcontent)).bind fun resolved last hlast => ?_
  obtain ⟨rfl, rfl⟩ := hlast
  refine (endsIn_newDocument validator pending id loaded resolved).mono ?_ fun _ _ _ => trivial
  rintro e he
  cases he with
  | broken unusable => exact unusable hstructure
  | references walked held lost =>
      intro reference hmem
      rw [hmapped] at hcontent walked
      obtain ⟨⟨owner, howner⟩, target, htarget⟩ := howns.exists_ids_of_reference hc hlists
        hp.fit.collections (IdMapping.lists_ofIds ids.documents) hp.fit.documents hcontent walked
        (held reference hmem)
      rw [howner, htarget]
      exact ⟨owner.not_placeholder, target.not_placeholder⟩
  | notValid => trivial
  | files => trivial
  | refused => trivial

/-- The documents of a checked pack, after its collections were staged with their schemas resolved. -/
theorem endsIn_newPackDocuments (hc : pack.Checked)
    (hp : Prepared pack ids pending known categories) {collections : List Collection} {start : Work}
    (hresolved : List.Forall₂ (CollectionSpec.Resolved ids) (ids.collections.zip pack.collections)
      collections)
    (hloaded : ∀ collection ∈ collections,
      start.staged.get? .collection collection.id = some collection)
    (hb : before.Extends start) (validator : Validator) :
    EndsIn ((ids.documents.zip pack.documents).mapM fun (id, spec) =>
        newPackDocument validator pending (ids.resolution known) id spec) committed before
      (pack.Remaining committed) fun _ after => after.Extends start := by
  refine EndsIn.mapM_zip hb (fun id spec hs middle hmiddle => ?_)
    (newPackDocument_adds validator pending _)
  -- The collections stay as they were staged, so that a document finds the schema that was resolved.
  have hfound : ∀ collection ∈ collections,
      middle.get? committed .collection collection.id = some collection :=
    fun collection hmem => hmiddle.get?_eq_some (hloaded collection hmem)
  exact endsIn_newPackDocument hc hp hresolved hfound validator id hs

/-! ### Packs -/

theorem endsIn_packCategories (hc : pack.Checked) (hb : before.staged = {}) :
    EndsIn (newPackCategories (.empty .collectionCategory) 0 pack.categories) committed before
      (pack.Remaining committed) fun result after =>
        result.2.Lists (result.1.map CollectionCategory.id) ∧
        result.1.length = pack.categories.length ∧ after.Stages result.1 ∧
        Tables.Unique committed after.staged := by
  have hends : EndsIn (newPackCategories (.empty .collectionCategory) 0 pack.categories) committed
      before (pack.Remaining committed) fun _ _ => True :=
    endsIn_newPackCategories [] (IdMapping.lists_empty _) (List.forall_mem_nil _)
      (fun _ hs => hs) fun place spec hget text ht => by
        simpa using hc.parents place spec hget text ht
  refine hends.returning fun result after hr => ?_
  obtain ⟨added, hadded, hunique, hfact⟩ := newPackCategories_adds _ _ _ _ _ _ _ hr
  have hafter := hunique (hb ▸ Tables.unique_empty committed)
  obtain ⟨hresolved, heach⟩ := hfact {} (by simpa using hafter)
  obtain ⟨hmade, hrows, -⟩ := AddsEach.of_single .collectionCategory heach
  refine ⟨?_, hmade.length_eq.symm, fun category hmem => ?_, hafter⟩
  · simpa using (hresolved.denotes (IdMapping.lists_empty _) rfl).1
  · refine Tables.contains_iff.2 ⟨category, ?_, rfl⟩
    rw [hadded, Tables.rows_append, hrows]
    exact List.mem_append_right _ hmem

theorem endsIn_newPack (hc : pack.Checked) (validator : Validator) (hb : before.staged = {}) :
    EndsIn (newPack validator pack) committed before (pack.Remaining committed) fun _ _ => True := by
  refine (endsIn_idsFor pack).bind fun ids given hids => ?_
  obtain ⟨hfit, hgiven⟩ := hids
  rw [hb] at hgiven
  refine (EndsIn.of_decides (decides_pendingFor hc.owners hfit.collections)).bind
    fun pending next hnext => ?_
  obtain ⟨hpending, rfl⟩ := hnext
  refine (endsIn_packCategories hc hgiven).bind fun result listed hlisted => ?_
  obtain ⟨categories, known⟩ := result
  obtain ⟨hlists, hlength, hseen, hunique⟩ := hlisted
  have hp : Prepared pack ids pending known categories := ⟨hfit, hpending, hlists, hlength⟩
  refine (endsIn_newPackCollections hc hp hseen hunique).bind fun collections made hmade => ?_
  obtain ⟨hresolved, hloaded⟩ := hmade
  refine (endsIn_newPackApps hc hp).bind fun apps middle hmiddle => ?_
  exact (endsIn_newPackDocuments hc hp hresolved hloaded hmiddle validator).answer
    fun _ _ _ => trivial

end Operation

namespace Engine

/-- The installation of a pack whose check finds no issue fails only with an error that is left for it. -/
theorem installPack_fails_only (engine : Engine) (pack : Pack) (h : engine.validatePack pack = [])
    {e : EngineError} (he : (engine.installPack pack).1 = .error e) :
    pack.Remaining engine.store.committed e := by
  have hends : (Operation.newPack engine.validator pack).EndsIn engine.store.committed
      (Work.start engine.store.budget engine.supply) (pack.Remaining engine.store.committed)
      fun _ _ => True :=
    Operation.endsIn_newPack (Pack.checked_of_issues_eq_nil h) engine.validator rfl
  simp only [installPack, h] at he
  exact run_fails hends (fun _ => trivial) he

/-- A pack whose app is for a collection that only a store could hold. -/
def strangerPack : Pack :=
  { friendsPack with
    apps := [{
      appType := "list"
      name := "Circle"
      targets := ["Collection_missing"]
      files := SortedMap.empty }] }

/-- The check lets an id pass that no row has, and the installation then misses it. -/
theorem installPack_stranger :
    let engine : Engine := { supply := .counting }
    engine.validatePack strangerPack = [] ∧
      (engine.installPack strangerPack).1 = .error (.collectionNotFound "Collection_missing") ∧
      strangerPack.Remaining engine.store.committed (.collectionNotFound "Collection_missing") := by
  intro engine
  have hvalid : engine.validatePack strangerPack = [] := by rfl
  have herror : (engine.installPack strangerPack).1 =
      .error (.collectionNotFound "Collection_missing") := by
    have hmapped : ((engine.installPack strangerPack).1.map fun _ => ()) =
        .error (.collectionNotFound "Collection_missing") := by decide +kernel
    generalize (engine.installPack strangerPack).1 = result at hmapped ⊢
    cases result with
    | ok installed => cases hmapped
    | error e =>
        cases hmapped
        rfl
  exact ⟨hvalid, herror, installPack_fails_only engine strangerPack hvalid herror⟩

end Engine

end ContentStore
