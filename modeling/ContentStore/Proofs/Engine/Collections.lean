import ContentStore.Proofs.Engine.Adds

/-!
# What the creation of categories, collections and apps adds

Each adds its one entity, as it was asked for, and has found everything that the entity refers to.
-/

namespace ContentStore

structure CategoryAdded (name icon : String) (parentId : Option CollectionCategoryId) (final : Tables)
    (category : CollectionCategory) : Prop where
  name_eq : category.name = name
  icon_eq : category.icon = icon
  parentId_eq : category.parentId = parentId
  parent : ∀ id, parentId = some id → final.contains .collectionCategory id = true

/-- A collection as it was asked for, its schema resolved and without faults, whose category exists and
whose default app exists or is pending. -/
structure CollectionAdded (pending : Pending) (id : CollectionId) (settings : CollectionSettings)
    (schema : Schema) (versionSettings : VersionSettings) (final : Tables) (collection : Collection) :
    Prop where
  id_eq : collection.id = id
  settings_eq : collection.settings = settings
  schema_eq : collection.schema = schema.resolveSelf id
  versionSettings_eq : collection.versionSettings = versionSettings
  faultless : collection.schema.collectionFaults = .ok []
  category : ∀ found, settings.categoryId = some found →
    final.contains .collectionCategory found = true
  defaultApp : ∀ found, settings.defaultAppId = some found →
    found ∈ pending.apps ∨ final.contains .app found = true

structure AppAdded (pending : Pending) (id : AppId) (appType name : String) (targets : List CollectionId)
    (files : SortedMap String String) (final : Tables) (app : App) : Prop where
  id_eq : app.id = id
  appType_eq : app.appType = appType
  name_eq : app.name = name
  targets_eq : app.targets = targets
  files_eq : app.files = files
  found : ∀ target ∈ targets, target ∈ pending.collections ∨ final.contains .collection target = true

namespace Operation

variable {committed : Tables} {before after : Work}

/-- A check that a row exists passes exactly where the transaction sees it. -/
theorem returns_requirePresent {kind : Kind} {id : RealId kind} {e : EngineError} {u : PUnit} :
    Returns (do unless ← present kind id do throw e) committed before u after ↔
      (before.get? committed kind id).isSome = true ∧ before = after := by
  simp only [returns_bind, returns_present, returns_guard, returns_pure, true_and]
  constructor
  · rintro ⟨_, _, ⟨rfl, rfl⟩, h⟩
    exact h
  · intro h
    exact ⟨_, _, ⟨rfl, rfl⟩, h⟩

theorem returns_requireCategory {id : Option CollectionCategoryId} {u : Unit} :
    Returns (requireCategory id) committed before u after ↔
      (∀ found, id = some found → (before.get? committed .collectionCategory found).isSome = true) ∧
        before = after := by
  cases id with
  | none => simp [requireCategory]
  | some id => simp only [requireCategory, returns_requirePresent, Option.some.injEq, forall_eq']

theorem returns_requireCollection {pending : Pending} {id : CollectionId} {u : Unit} :
    Returns (requireCollection pending id) committed before u after ↔
      (id ∈ pending.collections ∨ (before.get? committed .collection id).isSome = true) ∧
        before = after := by
  by_cases h : id ∈ pending.collections
  · simp [requireCollection, h]
  · simp only [requireCollection, List.contains_eq_mem, h, decide_false, Bool.false_eq_true, if_false,
      returns_requirePresent, false_or]

theorem returns_requireApp {pending : Pending} {id : Option AppId} {u : Unit} :
    Returns (requireApp pending id) committed before u after ↔
      (∀ found, id = some found →
        found ∈ pending.apps ∨ (before.get? committed .app found).isSome = true) ∧ before = after := by
  cases id with
  | none => simp [requireApp]
  | some id =>
      by_cases h : id ∈ pending.apps
      · simp [requireApp, h]
      · simp only [requireApp, List.contains_eq_mem, h, decide_false, Bool.false_eq_true, if_false,
          returns_requirePresent, Option.some.injEq, forall_eq', false_or]

theorem returns_newCategory {name icon : String} {parentId : Option CollectionCategoryId}
    {category : CollectionCategory} :
    Returns (newCategory name icon parentId) committed before category after ↔
      (∀ found, parentId = some found →
        (before.get? committed .collectionCategory found).isSome = true) ∧
      before.createCategory name icon parentId = (.ok category, after) := by
  simp only [newCategory, returns_bind, returns_requireCategory, returns_createCategory]
  constructor
  · rintro ⟨_, _, ⟨hparent, rfl⟩, hcreate⟩
    exact ⟨hparent, hcreate⟩
  · rintro ⟨hparent, hcreate⟩
    exact ⟨(), before, ⟨hparent, rfl⟩, hcreate⟩

/-- A collection is created exactly where its schema has no faults, what its settings name is seen, and
its row is not refused. -/
theorem returns_newCollection {pending : Pending} {id : CollectionId} {settings : CollectionSettings}
    {schema : Schema} {versionSettings : VersionSettings} {collection : Collection} :
    Returns (newCollection pending id settings schema versionSettings) committed before collection after ↔
      (schema.resolveSelf id).collectionFaults = .ok [] ∧
      (∀ found, settings.categoryId = some found →
        (before.get? committed .collectionCategory found).isSome = true) ∧
      (∀ found, settings.defaultAppId = some found →
        found ∈ pending.apps ∨ (before.get? committed .app found).isSome = true) ∧
      collection = {
        id, settings, schema := schema.resolveSelf id, versionSettings
        createdAt := before.supply.now } ∧
      @Work.insert before committed .collection collection = (.ok (), after) := by
  simp only [newCollection, returns_bind, returns_ofExcept, returns_guard_bind, returns_requireCategory,
    returns_requireApp, returns_now, returns_insert, returns_pure]
  constructor
  · rintro ⟨faults, _, ⟨hfaults, rfl⟩, hempty, _, _, ⟨hcategory, rfl⟩, _, _, ⟨happ, rfl⟩,
      _, _, ⟨rfl, rfl⟩, _, _, hinsert, rfl, rfl⟩
    rw [List.isEmpty_iff.1 hempty] at hfaults
    exact ⟨hfaults, hcategory, happ, rfl, hinsert⟩
  · rintro ⟨hfaults, hcategory, happ, rfl, hinsert⟩
    exact ⟨[], before, ⟨hfaults, rfl⟩, rfl, (), before, ⟨hcategory, rfl⟩, (), before, ⟨happ, rfl⟩,
      _, before, ⟨rfl, rfl⟩, (), after, hinsert, rfl, rfl⟩

theorem returns_newApp {pending : Pending} {id : AppId} {appType name : String}
    {targets : List CollectionId} {files : SortedMap String String} {app : App} :
    Returns (newApp pending id appType name targets files) committed before app after ↔
      (∀ target ∈ targets,
        target ∈ pending.collections ∨ (before.get? committed .collection target).isSome = true) ∧
      app = { id, appType, name, targets, files, createdAt := before.supply.now } ∧
      @Work.insert before committed .app app = (.ok (), after) := by
  simp only [newApp, returns_bind, returns_forM fun _ _ _ => returns_requireCollection, returns_now,
    returns_insert, returns_pure]
  constructor
  · rintro ⟨_, _, ⟨htargets, rfl⟩, _, _, ⟨rfl, rfl⟩, _, _, hinsert, rfl, rfl⟩
    exact ⟨htargets, rfl, hinsert⟩
  · rintro ⟨htargets, rfl, hinsert⟩
    exact ⟨⟨⟩, before, ⟨htargets, rfl⟩, _, before, ⟨rfl, rfl⟩, (), after, hinsert, rfl, rfl⟩

theorem newCategory_adds (name icon : String) (parentId : Option CollectionCategoryId) :
    Adds (newCategory name icon parentId) fun final category added =>
      added = @Tables.single .collectionCategory category ∧
        CategoryAdded name icon parentId final category := by
  intro committed before category after h
  obtain ⟨hparent, h⟩ := returns_newCategory.1 h
  unfold Work.createCategory at h
  split at h
  · cases h
  · cases h
    refine ⟨_, @Tables.push_eq_append .collectionCategory _ _, ?_, ?_⟩
    · intro hu kind hk
      exact (hu kind hk).push_of_ne hk _
    · intro more _
      refine ⟨rfl, rfl, rfl, rfl, ?_⟩
      intro id hid
      rw [Tables.push_eq_append, Tables.append_assoc]
      exact Work.contains_final (hparent id hid)

theorem newCollection_adds (pending : Pending) (id : CollectionId) (settings : CollectionSettings)
    (schema : Schema) (versionSettings : VersionSettings) :
    Adds (newCollection pending id settings schema versionSettings) fun final collection added =>
      added = @Tables.single .collection collection ∧
        CollectionAdded pending id settings schema versionSettings final collection := by
  intro committed before collection after h
  obtain ⟨hfaults, hcategory, happ, rfl, hinsert⟩ := returns_newCollection.1 h
  let seen (final : Tables) : Prop :=
    (∀ found, settings.categoryId = some found →
      final.contains .collectionCategory found = true) ∧
    ∀ found, settings.defaultAppId = some found →
      found ∈ pending.apps ∨ final.contains .app found = true
  have hseen : ∀ more, Tables.Unique committed (before.staged ++ more) →
      seen (committed ++ (before.staged ++ more)) :=
    fun more _ => ⟨fun found hf => Work.contains_final (hcategory found hf),
      fun found hf => (happ found hf).imp_right Work.contains_final⟩
  refine (Adding.after_read seen hseen (.of_insert .collection (by decide) hinsert)).mono ?_
  rintro final added ⟨⟨hfound, happ⟩, rfl⟩
  exact ⟨rfl, rfl, rfl, rfl, rfl, hfaults, hfound, happ⟩

theorem newApp_adds (pending : Pending) (id : AppId) (appType name : String)
    (targets : List CollectionId) (files : SortedMap String String) :
    Adds (newApp pending id appType name targets files) fun final app added =>
      added = @Tables.single .app app ∧ AppAdded pending id appType name targets files final app := by
  intro committed before app after h
  obtain ⟨htargets, rfl, hinsert⟩ := returns_newApp.1 h
  let seen (final : Tables) : Prop := ∀ target ∈ targets,
    target ∈ pending.collections ∨ final.contains .collection target = true
  have hseen : ∀ more, Tables.Unique committed (before.staged ++ more) →
      seen (committed ++ (before.staged ++ more)) :=
    fun more _ target ht => (htargets target ht).imp_right Work.contains_final
  refine (Adding.after_read seen hseen (.of_insert .app (by decide) hinsert)).mono ?_
  rintro final added ⟨hfound, rfl⟩
  exact ⟨rfl, rfl, rfl, rfl, rfl, rfl, hfound⟩

end Operation

end ContentStore
