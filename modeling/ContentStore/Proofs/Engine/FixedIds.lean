import ContentStore.Proofs.Engine.Runs
import ContentStore.Proofs.Id.Denotes
import ContentStore.Proofs.Schema.CollectionIds

/-!
# The collections that stored schemas fix

A schema may name its own collection by the sign for it, an entry of its pack by a proto id, and any
collection by its id. The first two name a collection that is there once the call succeeds. An id is only
checked for its shape, so that it is stored as it was handed in, whether or not a row has it.
-/

namespace ContentStore

def Write.schemas : Write → List Schema
  | .createCollection _ schema _ => [schema]
  | .installPack pack => pack.collections.map CollectionSpec.schema
  | _ => []

/-- What a collection's schema fixes is the id of a row, or an id that stands under the same type in one of
some schemas. -/
def Tables.FixesFrom (t : Tables) (schemas : List Schema) (collection : Collection) : Prop :=
  ∀ entry ∈ collection.schema.fixedCollectionIds, ∃ id : CollectionId, entry.2 = id.text ∧
    (t.contains .collection id = true ∨ ∃ schema ∈ schemas, entry ∈ schema.fixedCollectionIds)

/-- All collections fix only rows and what stands in some schemas. -/
def Tables.FixFrom (t : Tables) (schemas : List Schema) : Prop :=
  ∀ collection ∈ t.collections, t.FixesFrom schemas collection

/-- Every collection that is fixed in the schema of a row is a row. -/
def Tables.FixesRows (t : Tables) : Prop :=
  ∀ collection ∈ t.collections, ∀ entry ∈ collection.schema.fixedCollectionIds,
    ∃ target ∈ t.collections, entry.2 = target.id.text

instance (t : Tables) : Decidable t.FixesRows :=
  inferInstanceAs (Decidable (∀ collection ∈ t.collections,
    ∀ entry ∈ collection.schema.fixedCollectionIds, ∃ target ∈ t.collections, entry.2 = target.id.text))

/-- Where a map of the fixed ids leads to an id, it is one of some ids, or the map has left it alone. -/
theorem Schema.fixed_of_mapped {schema : Schema} {f : String → String} {p : CollectionId → Prop}
    (hf : (schema.mapCollectionIds f).collectionFaults = .ok [])
    (h : ∀ text (id : CollectionId), f text = id.text → p id ∨ text = id.text) :
    ∀ entry ∈ (schema.mapCollectionIds f).fixedCollectionIds, ∃ id : CollectionId,
      entry.2 = id.text ∧ (p id ∨ entry ∈ schema.fixedCollectionIds) := by
  intro entry he
  obtain ⟨id, hid⟩ := exists_id_of_faultless hf he
  rw [fixedCollectionIds_mapCollectionIds] at he
  obtain ⟨standing, hstanding, rfl⟩ := List.mem_map.1 he
  refine ⟨id, hid, (h standing.2 id hid).imp_right fun htext => ?_⟩
  have hsame : (standing.1, f standing.2) = standing := Prod.ext rfl (hid.trans htext.symm)
  rwa [hsame]

/-- Reading the sign for a schema's own collection gives that collection's id. -/
theorem eq_own_or_of_readSelf {own id : CollectionId} {text : String}
    (h : (if text = selfCollection then own.text else text) = id.text) : id = own ∨ text = id.text := by
  split at h
  · exact .inl (RealId.ext h.symm)
  · exact .inr h

section

variable {pending : Pending} {final : Tables} {collection : Collection}

theorem CollectionAdded.fixesFrom {id : CollectionId} {settings : CollectionSettings} {schema : Schema}
    {versionSettings : VersionSettings}
    (h : CollectionAdded pending id settings schema versionSettings final collection)
    (hown : final.contains .collection collection.id = true) : final.FixesFrom [schema] collection := by
  have hfaultless := h.faultless
  rw [h.id_eq] at hown
  rw [Tables.FixesFrom, h.schema_eq] at *
  have hfixed := Schema.fixed_of_mapped (p := (· = id)) hfaultless fun _ _ => eq_own_or_of_readSelf
  intro entry he
  obtain ⟨found, hfound, hplace⟩ := hfixed entry he
  refine ⟨found, hfound, hplace.imp ?_ fun hstanding => ⟨schema, by simp, hstanding⟩⟩
  rintro rfl
  exact hown

theorem CollectionInstalled.fixesFrom {ids : PackIds} {known : IdMapping}
    {entry : CollectionId × CollectionSpec}
    (h : CollectionInstalled pending (ids.resolution known) entry.1 entry.2 final collection)
    (hown : final.contains .collection collection.id = true)
    (hids : ∀ id ∈ ids.collections, final.contains .collection id = true) :
    final.FixesFrom [entry.2.schema] collection := by
  have hfaultless := h.added.faultless
  rw [h.added.id_eq] at hown
  rw [Tables.FixesFrom, h.added.schema_eq, Schema.resolveSelf, Schema.resolveCollections,
    Schema.mapCollectionIds_mapCollectionIds] at *
  have hfixed := Schema.fixed_of_mapped (p := fun id => id = entry.1 ∨ id ∈ ids.collections) hfaultless
    fun text id hid => by
      have hlists := IdMapping.lists_ofIds ids.collections
      rcases eq_own_or_of_readSelf hid with hself | hresolved
      · exact .inl (.inl hself)
      · cases (IdMapping.resolve_eq_iff hlists).1 hresolved with
        | position _ hget => exact .inl (.inr (List.mem_of_getElem? hget))
        | real => exact .inr rfl
  intro fixed he
  obtain ⟨found, hfound, hplace⟩ := hfixed fixed he
  refine ⟨found, hfound, hplace.imp ?_ fun hstanding => ⟨_, by simp, hstanding⟩⟩
  rintro (rfl | hmem)
  · exact hown
  · exact hids found hmem

end

namespace Tables

variable {t : Tables} {schemas more : List Schema} {collection : Collection}

theorem FixesFrom.mono (h : t.FixesFrom schemas collection) (hs : ∀ schema ∈ schemas, schema ∈ more) :
    t.FixesFrom more collection := by
  intro entry he
  obtain ⟨id, hid, hplace⟩ := h entry he
  refine ⟨id, hid, hplace.imp_right ?_⟩
  rintro ⟨schema, hschema, hstanding⟩
  exact ⟨schema, hs schema hschema, hstanding⟩

theorem FixesFrom.grow (h : t.FixesFrom schemas collection) (added : Tables) :
    (t ++ added).FixesFrom schemas collection := by
  intro entry he
  obtain ⟨id, hid, hplace⟩ := h entry he
  refine ⟨id, hid, hplace.imp_left fun hcontains => ?_⟩
  rw [contains_append, hcontains, Bool.true_or]

/-- Where the schemas handed in name by id only what is there, every fixed collection is a row. -/
theorem FixFrom.fixesRows (h : t.FixFrom schemas)
    (hs : ∀ schema ∈ schemas, ∀ entry ∈ schema.fixedCollectionIds, ∀ id : CollectionId,
      entry.2 = id.text → t.contains .collection id = true) : t.FixesRows := by
  intro collection hmem entry he
  obtain ⟨id, hid, hplace⟩ := h collection hmem entry he
  have hcontains : t.contains .collection id = true := by
    rcases hplace with hrow | ⟨schema, hschema, hstanding⟩
    · exact hrow
    · exact hs schema hschema entry hstanding id hid
  obtain ⟨target, htarget, rfl⟩ := contains_iff.1 hcontains
  exact ⟨target, htarget, hid⟩

end Tables

namespace Engine

variable (engine : Engine)

theorem createCollection_fixes (settings : CollectionSettings) (schema : Schema)
    (versionSettings : VersionSettings) :
    Leaves engine (engine.write (.createCollection settings schema versionSettings))
      fun final _ added => ∀ collection ∈ added.collections, final.FixesFrom [schema] collection := by
  refine (run_leaves (Operation.Adds.fresh_bind fun id =>
    Operation.newCollection_adds {} id settings schema versionSettings) engine).answering ?_
  rintro final collection _ ⟨hfinds, id, rfl, hadded⟩ found hfound
  obtain rfl := List.mem_singleton.1 hfound
  exact hadded.fixesFrom (hfinds.contains .collection (by decide) hfound)

theorem installPack_fixes (pack : Pack) :
    Leaves engine (engine.write (.installPack pack)) fun final _ added =>
      ∀ collection ∈ added.collections,
        final.FixesFrom (pack.collections.map CollectionSpec.schema) collection := by
  refine (installPack_adds engine pack).answering ?_
  rintro final installed added ⟨hfinds, ids, pending, known, stored, hadded⟩ collection hmem
  have hown := hfinds.contains .collection (by decide) hmem
  have hkept := (hadded.kept hfinds).collections
  rw [hadded.awaits.collections_eq] at hkept
  rw [hadded.added_eq] at hmem
  obtain ⟨entry, hentry, hinstalled⟩ := exists_left_of_forall₂ hadded.collections hmem
  refine (hinstalled.fixesFrom hown hkept).mono ?_
  rw [List.forall_mem_singleton]
  exact List.mem_map.2 ⟨entry.2, (List.of_mem_zip hentry).2, rfl⟩

theorem fixes_of_answering {α : Type} {rows : α → Tables} {outcome : Except EngineError α × Engine}
    {call : Write}
    (h : Leaves engine (answering rows outcome) (Write.Adds engine.validator call))
    (hrows : ∀ a, (rows a).collections = []) :
    Leaves engine (answering rows outcome) fun final _ added =>
      ∀ collection ∈ added.collections, final.FixesFrom call.schemas collection where
  formats := h.formats
  config := h.config
  failed := h.failed
  succeeded created hcreated := by
    obtain ⟨added, hcommitted, hadds⟩ := h.succeeded created hcreated
    obtain ⟨stored, -, -, rfl, -⟩ := hadds.rows
    obtain ⟨a, -, rfl⟩ := map_eq_ok_iff.1 hcreated
    refine ⟨_, hcommitted, fun collection hmem => ?_⟩
    have hmade : collection ∈ (rows a).collections ++ [] := hmem
    rw [hrows, List.append_nil] at hmade
    cases hmade

/-- Every collection that a call adds fixes only rows and what stands in the schemas handed in. -/
theorem write_fixes (call : Write) :
    Leaves engine (engine.write call) fun final _ added =>
      ∀ collection ∈ added.collections, final.FixesFrom call.schemas collection := by
  have hleaves := write_leaves engine call
  cases call with
  | createCollection settings schema versionSettings =>
      exact createCollection_fixes engine settings schema versionSettings
  | installPack pack => exact installPack_fixes engine pack
  | createCategory | createApp | createDocument | createDocuments =>
      exact fixes_of_answering engine hleaves fun _ => rfl

theorem write_fixFrom {engine : Engine} {schemas : List Schema}
    (h : engine.store.committed.FixFrom schemas) {call : Write}
    (hs : ∀ schema ∈ call.schemas, schema ∈ schemas) :
    (engine.write call).2.store.committed.FixFrom schemas := by
  have hleaves := write_fixes engine call
  cases hresult : (engine.write call).1 with
  | error error =>
      rw [hleaves.failed error hresult]
      exact h
  | ok created =>
      obtain ⟨added, hcommitted, hadded⟩ := hleaves.succeeded created hresult
      intro collection hmem
      rw [hcommitted] at hmem hadded ⊢
      rcases List.mem_append.1 hmem with hold | hnew
      · exact (h collection hold).grow added
      · exact (hadded collection hnew).mono hs

/-- After every run from an empty store, what the schemas of the committed collections fix is the id of a
committed collection, or an id that stands under the same type in a schema that one of the calls handed
in. So every fixed collection is there, if these schemas name by id only what is there in the end. -/
theorem writeAll_fixes (supply : Supply) (formats : FormatRegistry) (config : EngineConfig)
    (calls : List (Budget × Write)) :
    let final := (({ supply, formats, config } : Engine).writeAll calls).store.committed
    let handedIn := calls.flatMap fun call => call.2.schemas
    final.FixFrom handedIn ∧
      ((∀ schema ∈ handedIn, ∀ entry ∈ schema.fixedCollectionIds, ∀ id : CollectionId,
        entry.2 = id.text → final.contains .collection id = true) → final.FixesRows) := by
  intro final handedIn
  have hempty : ({ supply, formats, config } : Engine).store.committed.FixFrom handedIn :=
    List.forall_mem_nil _
  have hstep : ∀ engine : Engine, ∀ call ∈ calls, engine.store.committed.FixFrom handedIn →
      ((engine.limitWrites call.1).write call.2).2.store.committed.FixFrom handedIn :=
    fun engine call hcall h => @write_fixFrom (engine.limitWrites call.1) _ h call.2
      fun schema hschema => List.mem_flatMap.2 ⟨call, hcall, hschema⟩
  have hfinal : final.FixFrom handedIn := writeAll_induction_mem hempty hstep
  exact ⟨hfinal, hfinal.fixesRows⟩

def bookType : { d : Definition // d.DistinctKeys } where
  val := .struct [("author", .documentRef (some "Collection_missing"))] SortedMap.empty
  property := by simp [Definition.DistinctKeys, Definition.DistinctPropertyKeys, Entries.keys]

def bookSchema : Schema :=
  Schema.ofTypes "Book" [("Book", bookType)]

/-- A pack of one collection, whose schema fixes a collection by its id. -/
def bookPack : Pack where
  id := "books"
  info := {}
  categories := []
  collections := [{
    settings := {
      name := "Books"
      icon := ""
      description := ""
      categoryId := none
      defaultAppId := none }
    schema := bookSchema
    versionSettings := {} }]
  apps := []
  documents := []

/-- Whether it is created alone or with a pack, a collection is stored with a fixed id that no row has. -/
theorem not_fixesRows_books :
    ¬ (({ supply := .counting } : Engine).writeAll
      [(none, .createCollection ⟨"Books", "", "", none, none⟩ bookSchema {})]).store.committed.FixesRows ∧
    ¬ (({ supply := .counting } : Engine).writeAll
      [(none, .installPack bookPack)]).store.committed.FixesRows := by
  decide +kernel

end Engine

end ContentStore
