import ContentStore.Proofs.Content.Redirects
import ContentStore.Proofs.Id.Denotes
import ContentStore.Proofs.Store.Ample
import Mathlib.GroupTheory.Perm.ViaEmbedding

/-!
# Rows up to the ids of categories and documents

Two tables may be the same but for the ids that their categories and documents were given. A renaming of
these ids then leads from the one to the other, through the rows and through all that refers to them. It
moves only ids that were given of late, so that older rows are found under the ids that they have.
-/

namespace ContentStore

structure Renaming where
  category : Equiv.Perm CollectionCategoryId
  document : Equiv.Perm DocumentId

namespace Renaming

def of (ρ : Renaming) : (kind : Kind) → Equiv.Perm (RealId kind)
  | .collectionCategory => ρ.category
  | .document => ρ.document
  | _ => Equiv.refl _

def text (ρ : Renaming) (kind : Kind) (text : String) : String :=
  match RealId.ofText? kind text with
  | some id => (ρ.of kind id).text
  | none => text

/-- No id is moved but those that were given between two states of a supply. -/
def Within (ρ : Renaming) (origin now : Supply) : Prop :=
  ∀ kind id, ρ.of kind id ≠ id → Supply.Gave origin now kind id

/-- A text that is an id of a kind is left alone. -/
def Leaves (ρ : Renaming) (kind : Kind) (text : String) : Prop :=
  ∀ id : RealId kind, text = id.text → ρ.of kind id = id

variable {ρ : Renaming} {kind : Kind}

@[simp] theorem text_id (id : RealId kind) : ρ.text kind id.text = (ρ.of kind id).text := by
  simp [text]

theorem text_of_leaves {found : String} (h : ρ.Leaves kind found) : ρ.text kind found = found := by
  unfold text
  cases hid : RealId.ofText? kind found with
  | none => rfl
  | some id =>
      have htext := RealId.ofText?_eq_some_iff.1 hid
      simp only [h id htext, htext]

/-- A renamed text is an id where the text is one. -/
theorem ofText?_text (found : String) :
    RealId.ofText? kind (ρ.text kind found) = (RealId.ofText? kind found).map (ρ.of kind) := by
  unfold text
  cases hid : RealId.ofText? kind found with
  | none => exact hid
  | some id => exact RealId.ofText?_text _

theorem text_eq_iff {found : String} {id : RealId kind} :
    ρ.text kind found = (ρ.of kind id).text ↔ found = id.text := by
  constructor
  · intro h
    have hid : (RealId.ofText? kind found).map (ρ.of kind) = some (ρ.of kind id) := by
      rw [← ofText?_text, h, RealId.ofText?_text]
    obtain ⟨other, hother, hsame⟩ := Option.map_eq_some_iff.1 hid
    rw [RealId.ofText?_eq_some_iff.1 hother, (ρ.of kind).injective hsame]
  · rintro rfl
    exact text_id id

/-- Where the listed ids are renamed, so is what a text resolves to that is left alone. -/
theorem resolve_eq {mapping renamed : IdMapping} {ids : List (RealId kind)} (hl : mapping.Lists ids)
    (hl' : renamed.Lists (ids.map (ρ.of kind))) {found : String} (h : ρ.Leaves kind found) :
    renamed.resolve found = ρ.text kind (mapping.resolve found) := by
  rcases IdMapping.resolve_cases hl found with hsame | ⟨id, hid⟩
  · rw [hsame, text_of_leaves h]
    rcases IdMapping.resolve_cases hl' found with hkept | ⟨id, hid⟩
    · exact hkept
    · cases (IdMapping.resolve_eq_iff hl').1 hid with
      | @position p _ hk hp =>
          rw [List.getElem?_map] at hp
          obtain ⟨other, hother, -⟩ := Option.map_eq_some_iff.1 hp
          have hreal := (IdMapping.resolve_eq_iff hl).2 (.position hk hother)
          exact absurd (hreal.symm.trans hsame) (other.text_ne_protoId p)
      | real => exact hid
  · rw [hid, text_id]
    apply (IdMapping.resolve_eq_iff hl').2
    cases (IdMapping.resolve_eq_iff hl).1 hid with
    | position hk hp => exact .position hk (by rw [List.getElem?_map, hp, Option.map_some])
    | real =>
        rw [h id rfl]
        exact .real

/-- An optional text resolves to an id where by the renamed ids it resolves to the renamed one. -/
theorem map_resolve_eq_iff {mapping renamed : IdMapping} {ids : List (RealId kind)}
    (hl : mapping.Lists ids) (hl' : renamed.Lists (ids.map (ρ.of kind))) {text : Option String}
    (h : ∀ found ∈ text, ρ.Leaves kind found) (id : Option (RealId kind)) :
    text.map renamed.resolve = (id.map (ρ.of kind)).map RealId.text ↔
      text.map mapping.resolve = id.map RealId.text := by
  cases text with
  | none => cases id <;> simp
  | some text =>
      cases id with
      | none => simp
      | some id =>
          simp only [Option.map_some, Option.some.injEq, resolve_eq hl hl' (h text rfl), text_eq_iff]

end Renaming

/-! ## Renamed rows -/

def CollectionCategory.rename (ρ : Renaming) (category : CollectionCategory) : CollectionCategory :=
  { category with id := ρ.category category.id, parentId := category.parentId.map ρ.category }

def CollectionSettings.rename (ρ : Renaming) (settings : CollectionSettings) : CollectionSettings :=
  { settings with categoryId := settings.categoryId.map ρ.category }

def Collection.rename (ρ : Renaming) (collection : Collection) : Collection :=
  { collection with settings := collection.settings.rename ρ }

/-- A document with its id renamed, and with it those of the documents that its content refers to along
the schema of its collection. -/
structure Document.RenamedIn (final : Tables) (ρ : Renaming) (document renamed : Document) : Prop where
  id_eq : renamed.id = ρ.document document.id
  collectionId_eq : renamed.collectionId = document.collectionId
  createdAt_eq : renamed.createdAt = document.createdAt
  content : ∃ (collection : Collection) (root : Definition),
    final.get? .collection document.collectionId = some collection ∧
    collection.schema.root = .ok root ∧
    Rewrites collection.schema (Redirects (ρ.text .document)) root document.content renamed.content

/-- Tables that are the same but for the ids of categories and documents. -/
structure Tables.Renamed (final : Tables) (ρ : Renaming) (rows renamed : Tables) : Prop where
  categories : renamed.categories = rows.categories.map (CollectionCategory.rename ρ)
  collections : renamed.collections = rows.collections.map (Collection.rename ρ)
  apps : renamed.apps = rows.apps
  documents : List.Forall₂ (Document.RenamedIn final ρ) rows.documents renamed.documents
  files : renamed.files = rows.files

theorem Document.RenamedIn.append {final : Tables} {ρ : Renaming} {document renamed : Document}
    (h : document.RenamedIn final ρ renamed) (more : Tables) :
    document.RenamedIn (final ++ more) ρ renamed where
  id_eq := h.id_eq
  collectionId_eq := h.collectionId_eq
  createdAt_eq := h.createdAt_eq
  content := by
    obtain ⟨collection, root, hget, hcontent⟩ := h.content
    exact ⟨collection, root, by rw [Tables.get?_append, hget, Option.some_or], hcontent⟩

namespace Tables

variable {final base rows renamed rows' renamed' : Tables} {ρ : Renaming} {kind : Kind}

theorem contains_iff_mem_ids {t : Tables} {id : RealId kind} :
    t.contains kind id = true ↔ id ∈ (t.rows kind).map Entity.id := by
  rw [contains_iff, List.mem_map]

namespace Renamed

theorem empty (final : Tables) (ρ : Renaming) : Renamed final ρ {} {} :=
  ⟨rfl, rfl, rfl, .nil, rfl⟩

theorem append (h : Renamed final ρ rows renamed) (h' : Renamed final ρ rows' renamed') :
    Renamed final ρ (rows ++ rows') (renamed ++ renamed') where
  categories := (congrArg₂ _ h.categories h'.categories).trans List.map_append.symm
  collections := (congrArg₂ _ h.collections h'.collections).trans List.map_append.symm
  apps := congrArg₂ _ h.apps h'.apps
  documents := List.rel_append h.documents h'.documents
  files := congrArg₂ _ h.files h'.files

theorem single_category (final : Tables) (ρ : Renaming) (category : CollectionCategory) :
    Renamed final ρ (@single .collectionCategory category)
      (@single .collectionCategory (category.rename ρ)) :=
  ⟨rfl, rfl, rfl, .nil, rfl⟩

theorem single_collection (final : Tables) (ρ : Renaming) (collection : Collection) :
    Renamed final ρ (@single .collection collection) (@single .collection (collection.rename ρ)) :=
  ⟨rfl, rfl, rfl, .nil, rfl⟩

theorem single_app (final : Tables) (ρ : Renaming) (app : App) :
    Renamed final ρ (@single .app app) (@single .app app) :=
  ⟨rfl, rfl, rfl, .nil, rfl⟩

theorem single_document {document other : Document} (h : document.RenamedIn final ρ other) :
    Renamed final ρ (@single .document document) (@single .document other) :=
  ⟨rfl, rfl, rfl, .cons h .nil, rfl⟩

theorem single_file (final : Tables) (ρ : Renaming) (file : StoredFile) :
    Renamed final ρ (@single .file file) (@single .file file) :=
  ⟨rfl, rfl, rfl, .nil, rfl⟩

/-- Without collections there are no documents. -/
theorem of_empty (h : Renamed {} ρ rows renamed) (final : Tables) : Renamed final ρ rows renamed where
  categories := h.categories
  collections := h.collections
  apps := h.apps
  documents := h.documents.imp fun _ _ hd => by
    obtain ⟨collection, root, hget, -⟩ := hd.content
    cases hget
  files := h.files

theorem append_final (h : Renamed final ρ rows renamed) (more : Tables) :
    Renamed (final ++ more) ρ rows renamed where
  categories := h.categories
  collections := h.collections
  apps := h.apps
  documents := h.documents.imp fun _ _ hd => hd.append more
  files := h.files

/-- The ids of all rows are renamed. -/
theorem ids_eq (h : Renamed final ρ rows renamed) :
    (renamed.rows kind).map Entity.id = ((rows.rows kind).map Entity.id).map (ρ.of kind) := by
  cases kind with
  | collectionCategory =>
      change renamed.categories.map CollectionCategory.id =
        (rows.categories.map CollectionCategory.id).map ρ.category
      rw [h.categories, List.map_map, List.map_map]
      rfl
  | collection =>
      change renamed.collections.map Collection.id = (rows.collections.map Collection.id).map id
      rw [h.collections, List.map_map, List.map_id]
      rfl
  | app =>
      change renamed.apps.map App.id = _
      rw [h.apps]
      exact (List.map_id _).symm
  | document =>
      change renamed.documents.map Document.id = (rows.documents.map Document.id).map ρ.document
      have hids : List.Forall₂ (fun document other : Document => ρ.document document.id = other.id)
          rows.documents renamed.documents := h.documents.imp fun _ _ hd => hd.id_eq.symm
      rw [← List.forall₂_eq_eq_eq, List.map_map, List.forall₂_map_left_iff,
        List.forall₂_map_right_iff]
      exact hids.flip.imp fun _ _ hid => hid.symm
  | file =>
      change renamed.files.map StoredFile.id = _
      rw [h.files]
      exact (List.map_id _).symm

theorem id_eq_of_single {e e' : Entity kind} (h : Renamed final ρ (single e) (single e')) :
    e'.id = ρ.of kind e.id := by
  have hids : ((single e').rows kind).map Entity.id =
      (((single e).rows kind).map Entity.id).map (ρ.of kind) := h.ids_eq
  simpa using hids

theorem contains_eq (h : Renamed final ρ rows renamed) (id : RealId kind) :
    renamed.contains kind (ρ.of kind id) = rows.contains kind id := by
  rw [Bool.eq_iff_iff, contains_iff_mem_ids, contains_iff_mem_ids, h.ids_eq]
  exact List.mem_map_of_injective (ρ.of kind).injective

/-- A collection is found under its id, with its settings renamed. -/
theorem get?_collection (h : Renamed final ρ rows renamed) (id : CollectionId) :
    renamed.get? .collection id = (rows.get? .collection id).map (Collection.rename ρ) := by
  change renamed.collections.find? (fun c : Collection => c.id = id) =
    (rows.collections.find? fun c : Collection => c.id = id).map (Collection.rename ρ)
  rw [h.collections, List.find?_map]
  rfl

/-- The renamed document is found under the renamed id. -/
theorem get?_document (h : Renamed final ρ rows renamed) (id : DocumentId) :
    Option.Rel (Document.RenamedIn final ρ) (rows.get? .document id)
      (renamed.get? .document (ρ.document id)) := by
  change Option.Rel _ (rows.documents.find? fun d : Document => d.id = id)
    (renamed.documents.find? fun d : Document => d.id = ρ.document id)
  have hdocuments := h.documents
  revert hdocuments
  generalize rows.documents = documents
  generalize renamed.documents = others
  intro hdocuments
  induction hdocuments with
  | nil => exact .none
  | @cons document other documents others head _ ih =>
      by_cases hid : document.id = id
      · have hother : other.id = ρ.document id := by rw [head.id_eq, hid]
        rw [List.find?_cons_of_pos (by simpa using hid),
          List.find?_cons_of_pos (by simpa using hother)]
        exact .some head
      · have hother : other.id ≠ ρ.document id := by
          rw [head.id_eq]
          exact fun hsame => hid (ρ.document.injective hsame)
        rw [List.find?_cons_of_neg (by simpa using hid),
          List.find?_cons_of_neg (by simpa using hother)]
        exact ih

end Renamed

/-- No id of a row is moved. -/
def KeptBy (base : Tables) (ρ : Renaming) : Prop :=
  ∀ kind id, ρ.of kind id ≠ id → base.contains kind id = false

/-- What stands under an id stands under what becomes of the id. -/
theorem KeptBy.get?_eq (h : base.KeptBy ρ) (id : RealId kind) :
    base.get? kind (ρ.of kind id) = base.get? kind id := by
  by_cases hid : ρ.of kind id = id
  · rw [hid]
  · have hmoved : ρ.of kind (ρ.of kind id) ≠ ρ.of kind id :=
      fun hsame => hid ((ρ.of kind).injective hsame)
    rw [get?_eq_none_of_contains (h kind _ hid), get?_eq_none_of_contains (h kind _ hmoved)]

theorem KeptBy.contains_eq (h : base.KeptBy ρ) (id : RealId kind) :
    base.contains kind (ρ.of kind id) = base.contains kind id := by
  rw [contains, contains, h.get?_eq]

namespace Renamed

theorem contains_append_eq (h : Renamed final ρ rows renamed) (hb : base.KeptBy ρ) (id : RealId kind) :
    (base ++ renamed).contains kind (ρ.of kind id) = (base ++ rows).contains kind id := by
  rw [contains_append, contains_append, hb.contains_eq, h.contains_eq]

/-- The renamed rows may be committed where the rows may. -/
theorem clear_iff (h : Renamed final ρ rows renamed) (hb : base.KeptBy ρ) :
    (∀ e ∈ renamed.rows kind, base.contains kind e.id = false) ↔
      ∀ e ∈ rows.rows kind, base.contains kind e.id = false := by
  have hids : ∀ t : Tables, (∀ e ∈ t.rows kind, base.contains kind e.id = false) ↔
      ∀ id ∈ (t.rows kind).map Entity.id, base.contains kind id = false := by
    intro t
    rw [List.forall_mem_map]
  rw [hids, hids, h.ids_eq, List.forall_mem_map]
  exact forall₂_congr fun id _ => by rw [hb.contains_eq]

/-- A document that is found in some collection is found there under its renamed id. -/
theorem collectionId_eq (h : Renamed final ρ rows renamed) (hb : base.KeptBy ρ) (id : DocumentId) :
    Option.map Document.collectionId ((base ++ renamed).get? .document (ρ.document id)) =
      Option.map Document.collectionId ((base ++ rows).get? .document id) := by
  have hbase : base.get? .document (ρ.document id) = base.get? .document id :=
    @KeptBy.get?_eq _ _ .document hb id
  rw [get?_append, get?_append, hbase]
  cases base.get? .document id with
  | some document => rfl
  | none =>
      rw [Option.none_or, Option.none_or]
      have hrelated := h.get?_document id
      revert hrelated
      generalize rows.get? .document id = found
      generalize renamed.get? .document (ρ.document id) = found'
      intro hrelated
      cases hrelated with
      | none => rfl
      | some hd => exact congrArg some hd.collectionId_eq

/-- Under an id stands a collection of the same schema. -/
theorem schema_eq (h : Renamed final ρ rows renamed) {id : CollectionId} {collection : Collection}
    (hc : (base ++ rows).get? .collection id = some collection) :
    ∃ other : Collection, (base ++ renamed).get? .collection id = some other ∧
      other.id = collection.id ∧ other.schema = collection.schema := by
  rw [get?_append] at hc ⊢
  rw [h.get?_collection]
  cases hbase : base.get? .collection id with
  | some found =>
      rw [hbase, Option.some_or] at hc
      cases hc
      exact ⟨collection, rfl, rfl, rfl⟩
  | none =>
      rw [hbase, Option.none_or] at hc
      rw [hc]
      exact ⟨collection.rename ρ, rfl, rfl, rfl⟩

end Renamed

end Tables

/-! ## Renaming what a supply gives -/

/-- The numbers with two neighbouring blocks exchanged: the first one begins at `first`. -/
def blockSwap (first left right : Nat) : Equiv.Perm Nat where
  toFun n :=
    if n < first then n else if n < first + left then n + right
    else if n < first + left + right then n - left else n
  invFun n :=
    if n < first then n else if n < first + right then n + left
    else if n < first + right + left then n - right else n
  left_inv n := by
    dsimp only
    split_ifs <;> omega
  right_inv n := by
    dsimp only
    split_ifs <;> omega

theorem blockSwap_left {first left right n : Nat} (h : first ≤ n) (h' : n < first + left) :
    blockSwap first left right n = n + right := by
  change (if n < first then n else if n < first + left then n + right else _) = _
  rw [if_neg (by omega), if_pos h']

theorem blockSwap_right {first left right n : Nat} (h : first + left ≤ n)
    (h' : n < first + left + right) : blockSwap first left right n = n - left := by
  change (if n < first then n else if n < first + left then n + right
    else if n < first + left + right then n - left else n) = _
  rw [if_neg (by omega), if_neg (by omega), if_pos h']

theorem le_and_lt_of_blockSwap_ne {first left right n : Nat} (h : blockSwap first left right n ≠ n) :
    first ≤ n ∧ n < first + left + right := by
  by_contra hout
  apply h
  change (if n < first then n else if n < first + left then n + right
    else if n < first + left + right then n - left else n) = _
  split_ifs <;> omega

namespace Supply

variable {supply : Supply}

def idEmbedding (h : Function.Injective supply.suffix) (kind : Kind) : Nat ↪ RealId kind :=
  ⟨fun n => (supply.suffix n).toId kind, (IdSuffix.toId_injective kind).comp h⟩

/-- The renaming that moves ids as their numbers are moved. -/
noncomputable def moving (h : Function.Injective supply.suffix) (σ : Equiv.Perm Nat) : Renaming where
  category := σ.viaEmbedding (idEmbedding h .collectionCategory)
  document := σ.viaEmbedding (idEmbedding h .document)

theorem moving_category (h : Function.Injective supply.suffix) (σ : Equiv.Perm Nat) (n : Nat) :
    (moving h σ).category ((supply.suffix n).toId .collectionCategory) =
      (supply.suffix (σ n)).toId .collectionCategory :=
  σ.viaEmbedding_apply (idEmbedding h .collectionCategory) n

theorem moving_document (h : Function.Injective supply.suffix) (σ : Equiv.Perm Nat) (n : Nat) :
    (moving h σ).document ((supply.suffix n).toId .document) =
      (supply.suffix (σ n)).toId .document :=
  σ.viaEmbedding_apply (idEmbedding h .document) n

theorem exists_of_viaEmbedding_ne {kind : Kind} (h : Function.Injective supply.suffix)
    {σ : Equiv.Perm Nat} {id : RealId kind} (hid : σ.viaEmbedding (idEmbedding h kind) id ≠ id) :
    ∃ n, id = (supply.suffix n).toId kind ∧ σ n ≠ n := by
  by_cases hrange : id ∈ Set.range (idEmbedding h kind)
  · obtain ⟨n, rfl⟩ := hrange
    refine ⟨n, rfl, fun hsame => hid ?_⟩
    rw [σ.viaEmbedding_apply, hsame]
  · exact absurd (σ.viaEmbedding_apply_of_notMem _ _ hrange) hid

/-- Exchanging two blocks of numbers moves the ids of these blocks alone. -/
theorem moving_within (h : Function.Injective supply.suffix) {now : Supply} {first left right : Nat}
    (hfirst : supply.used ≤ first) (hlast : first + left + right ≤ now.used) :
    (moving h (blockSwap first left right)).Within supply now := by
  have hgave : ∀ kind (id : RealId kind),
      (blockSwap first left right).viaEmbedding (idEmbedding h kind) id ≠ id →
      Gave supply now kind id := by
    intro kind id hid
    obtain ⟨n, rfl, hn⟩ := exists_of_viaEmbedding_ne h hid
    have hbounds := le_and_lt_of_blockSwap_ne hn
    exact ⟨n, by omega, by omega, rfl⟩
  intro kind id hid
  cases kind with
  | collectionCategory => exact hgave .collectionCategory id hid
  | document => exact hgave .document id hid
  | _ => exact absurd rfl hid

end Supply

theorem Renaming.Within.keptBy {ρ : Renaming} {supply now : Supply} {committed : Tables}
    (h : ρ.Within supply now) (hn : supply.NewFor committed) : committed.KeptBy ρ :=
  fun kind id hid => hn.not_contains (h kind id hid)

end ContentStore
