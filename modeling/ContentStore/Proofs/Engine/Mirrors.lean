import ContentStore.Proofs.Engine.Agrees
import ContentStore.Proofs.Engine.Succeeds
import ContentStore.Proofs.Store.Renaming

/-!
# Transactions that see the same rows up to a renaming

Two transactions without a limit on their writes see the same rows but for the ids of categories and
documents. Steps that create corresponding entities agree, and leave such transactions again.
-/

namespace ContentStore

/-- A transaction and one that sees the same rows under renamed ids. Beside the common rows of `base`,
what the one has committed the other may still have staged. -/
structure Mirrors (final base : Tables) (ρ : Renaming) (committed committed' : Tables)
    (now later : Supply) (work work' : Work) : Prop where
  unlimited : work.budget = none
  unlimited' : work'.budget = none
  supply_eq : work.supply = now
  supply_eq' : work'.supply = later
  time_eq : later.now = now.now
  unique : Tables.Unique committed work.staged
  unique' : Tables.Unique committed' work'.staged
  rows : ∃ rows renamed, committed ++ work.staged = base ++ rows ∧
    committed' ++ work'.staged = base ++ renamed ∧ Tables.Renamed final ρ rows renamed

variable {final base committed committed' : Tables} {ρ : Renaming} {now later : Supply}
  {work work' : Work} {kind : Kind}

namespace Mirrors

theorem contains_eq (h : Mirrors final base ρ committed committed' now later work work')
    (hb : base.KeptBy ρ) (id : RealId kind) :
    (committed' ++ work'.staged).contains kind (ρ.of kind id) =
      (committed ++ work.staged).contains kind id := by
  obtain ⟨rows, renamed, hrows, hrenamed, hr⟩ := h.rows
  rw [hrows, hrenamed, hr.contains_append_eq hb]

/-- What the one sees under an id the other sees under the renamed one. -/
theorem isSome_get?_eq (h : Mirrors final base ρ committed committed' now later work work')
    (hb : base.KeptBy ρ) (id : RealId kind) :
    (work'.get? committed' kind (ρ.of kind id)).isSome = (work.get? committed kind id).isSome := by
  rw [Work.isSome_get?, Work.isSome_get?, h.contains_eq hb]

theorem seesCategory_iff (h : Mirrors final base ρ committed committed' now later work work')
    (hb : base.KeptBy ρ) (id : Option CollectionCategoryId) :
    (∀ found, id = some found → (work.get? committed .collectionCategory found).isSome = true) ↔
      ∀ found, id.map ρ.category = some found →
        (work'.get? committed' .collectionCategory found).isSome = true := by
  cases id with
  | none => simp
  | some id =>
      have hid : (work'.get? committed' .collectionCategory (ρ.category id)).isSome =
        (work.get? committed .collectionCategory id).isSome := h.isSome_get?_eq hb id
      simp only [Option.map_some, Option.some.injEq, forall_eq', hid]

theorem schema_eq (h : Mirrors final base ρ committed committed' now later work work')
    {id : CollectionId} {collection : Collection}
    (hc : work.get? committed .collection id = some collection) :
    ∃ other : Collection, work'.get? committed' .collection id = some other ∧
      other.id = collection.id ∧ other.schema = collection.schema := by
  obtain ⟨rows, renamed, hrows, hrenamed, hr⟩ := h.rows
  rw [Work.get?_eq_of_clear (h.unique .collection (by decide)), hrows] at hc
  rw [Work.get?_eq_of_clear (h.unique' .collection (by decide)), hrenamed]
  exact hr.schema_eq hc

/-- Ids may be taken on both sides. -/
theorem skip (h : Mirrors final base ρ committed committed' now later work work') (count : Nat) :
    Mirrors final base ρ committed committed' (now.skip count) (later.skip count) (work.skip count)
      (work'.skip count) where
  unlimited := h.unlimited
  unlimited' := h.unlimited'
  supply_eq := congrArg (Supply.skip · count) h.supply_eq
  supply_eq' := congrArg (Supply.skip · count) h.supply_eq'
  time_eq := h.time_eq
  unique := h.unique
  unique' := h.unique'
  rows := h.rows

theorem rows_push (h : Mirrors final base ρ committed committed' now later work work')
    {e e' : Entity kind} (hr : Tables.Renamed final ρ (Tables.single e) (Tables.single e')) :
    ∃ rows renamed, committed ++ (work.push e).staged = base ++ rows ∧
      committed' ++ (work'.push e').staged = base ++ renamed ∧
      Tables.Renamed final ρ rows renamed := by
  obtain ⟨rows, renamed, hrows, hrenamed, hrelated⟩ := h.rows
  refine ⟨rows ++ Tables.single e, renamed ++ Tables.single e', ?_, ?_, hrelated.append hr⟩
  · rw [Work.push, Tables.push_eq_append, ← Tables.append_assoc, hrows, Tables.append_assoc]
  · rw [Work.push, Tables.push_eq_append, ← Tables.append_assoc, hrenamed, Tables.append_assoc]

/-- Corresponding rows are inserted or refused together. -/
theorem insert (h : Mirrors final base ρ committed committed' now later work work')
    (hb : base.KeptBy ρ) {e e' : Entity kind}
    (hr : Tables.Renamed final ρ (Tables.single e) (Tables.single e')) :
    (∃ after, work.insert committed e = (.ok (), after)) ↔
      ∃ after', work'.insert committed' e' = (.ok (), after') := by
  simp only [Work.insert_eq_ok_iff h.unlimited, Work.insert_eq_ok_iff h.unlimited', hr.id_eq_of_single,
    h.contains_eq hb, exists_and_left, exists_eq, and_true]

theorem push (h : Mirrors final base ρ committed committed' now later work work')
    (hk : kind ≠ .collectionCategory) {e e' : Entity kind}
    (hr : Tables.Renamed final ρ (Tables.single e) (Tables.single e')) {after after' : Work}
    (hi : work.insert committed e = (.ok (), after))
    (hi' : work'.insert committed' e' = (.ok (), after')) :
    Mirrors final base ρ committed committed' now later after after' := by
  obtain ⟨-, -, hunique, -⟩ := Adding.of_insert kind hk hi
  obtain ⟨-, -, hunique', -⟩ := Adding.of_insert kind hk hi'
  obtain ⟨-, rfl⟩ := (Work.insert_eq_ok_iff h.unlimited).1 hi
  obtain ⟨-, rfl⟩ := (Work.insert_eq_ok_iff h.unlimited').1 hi'
  exact ⟨h.unlimited, h.unlimited', h.supply_eq, h.supply_eq', h.time_eq, hunique h.unique,
    hunique' h.unique', h.rows_push hr⟩

/-- Categories made of the next ids correspond where the renaming leads from the one id to the other. -/
theorem push_category (h : Mirrors final base ρ committed committed' now later work work')
    (hnext : ρ.category ((now.suffix now.used).toId .collectionCategory) =
      (later.suffix later.used).toId .collectionCategory)
    (name icon : String) (parentId : Option CollectionCategoryId) :
    work'.category name icon (parentId.map ρ.category) =
        (work.category name icon parentId).rename ρ ∧
      Mirrors final base ρ committed committed' (now.skip 1) (later.skip 1)
        (@Work.push .collectionCategory (work.skip 1) (work.category name icon parentId))
        (@Work.push .collectionCategory (work'.skip 1)
          (work'.category name icon (parentId.map ρ.category))) := by
  have hrow : work'.category name icon (parentId.map ρ.category) =
      (work.category name icon parentId).rename ρ := by
    simp only [Work.category, CollectionCategory.rename, h.supply_eq, h.supply_eq', hnext, h.time_eq]
  refine ⟨hrow, h.unlimited, h.unlimited', ?_, ?_, h.time_eq, ?_, ?_, ?_⟩
  · exact congrArg (Supply.skip · 1) h.supply_eq
  · exact congrArg (Supply.skip · 1) h.supply_eq'
  · exact fun kind hk => (h.unique kind hk).push_of_ne hk _
  · exact fun kind hk => (h.unique' kind hk).push_of_ne hk _
  · rw [hrow]
    exact (h.skip 1).rows_push (Tables.Renamed.single_category final ρ _)

end Mirrors

/-- Such transactions that take their ids from the same supply, which was in a given state before. -/
def MirrorsSince (final base : Tables) (ρ : Renaming) (committed committed' : Tables) (now : Supply)
    (work work' : Work) : Prop :=
  ∃ later : Supply, now.used ≤ later.used ∧
    Mirrors final base ρ committed committed' later later work work'

theorem MirrorsSince.mono (h : MirrorsSince final base ρ committed committed' later work work')
    (hle : now.used ≤ later.used) : MirrorsSince final base ρ committed committed' now work work' := by
  obtain ⟨last, hlater, hlast⟩ := h
  exact ⟨last, Nat.le_trans hle hlater, hlast⟩

namespace Operation

/-! ### Rows -/

theorem agrees_insert (h : Mirrors final base ρ committed committed' now later work work')
    (hb : base.KeptBy ρ) (hk : kind ≠ .collectionCategory) {e e' : Entity kind}
    (hr : Tables.Renamed final ρ (Tables.single e) (Tables.single e')) :
    Agrees (insert e) (insert e') committed committed' work work' fun _ after _ after' =>
      Mirrors final base ρ committed committed' now later after after' where
  forth hx := by
    have hinsert := returns_insert.1 hx
    obtain ⟨after', hinsert'⟩ := (h.insert hb hr).1 ⟨_, hinsert⟩
    exact ⟨(), after', returns_insert.2 hinsert', h.push hk hr hinsert hinsert'⟩
  back hy := by
    have hinsert' := returns_insert.1 hy
    obtain ⟨after, hinsert⟩ := (h.insert hb hr).2 ⟨_, hinsert'⟩
    exact ⟨(), after, returns_insert.2 hinsert, h.push hk hr hinsert hinsert'⟩

def stage (e : Entity kind) : Operation (Entity kind) := do
  insert e
  return e

theorem returns_stage {before after : Work} {e a : Entity kind} :
    Returns (stage e) committed before a after ↔ a = e ∧ before.insert committed a = (.ok (), after) := by
  simp only [stage, returns_bind, returns_insert, returns_pure]
  constructor
  · rintro ⟨_, _, hinsert, rfl, rfl⟩
    exact ⟨rfl, hinsert⟩
  · rintro ⟨rfl, hinsert⟩
    exact ⟨(), after, hinsert, rfl, rfl⟩

theorem agrees_stage (h : Mirrors final base ρ committed committed' now later work work')
    (hb : base.KeptBy ρ) (hk : kind ≠ .collectionCategory) {e e' : Entity kind}
    (hr : Tables.Renamed final ρ (Tables.single e) (Tables.single e')) :
    Agrees (stage e) (stage e') committed committed' work work' fun _ after _ after' =>
      Mirrors final base ρ committed committed' now later after after' :=
  (agrees_insert h hb hk hr).bind fun _ _ _ _ hafter => .pure hafter

theorem agrees_newCategory (h : Mirrors final base ρ committed committed' now later work work')
    (hb : base.KeptBy ρ)
    (hnext : ρ.category ((now.suffix now.used).toId .collectionCategory) =
      (later.suffix later.used).toId .collectionCategory)
    (name icon : String) (parentId : Option CollectionCategoryId) :
    Agrees (newCategory name icon parentId) (newCategory name icon (parentId.map ρ.category))
      committed committed' work work' fun a after b after' =>
        b = a.rename ρ ∧
          Mirrors final base ρ committed committed' (now.skip 1) (later.skip 1) after after' := by
  have hparent := h.seesCategory_iff hb parentId
  obtain ⟨hrow, hmirrors⟩ := h.push_category hnext name icon parentId
  constructor
  · intro a after hx
    obtain ⟨hseen, hcreate⟩ := returns_newCategory.1 hx
    cases (Work.createCategory_of_unlimited h.unlimited name icon parentId).symm.trans hcreate
    exact ⟨_, _, returns_newCategory.2 ⟨hparent.1 hseen,
      Work.createCategory_of_unlimited h.unlimited' name icon _⟩, hrow, hmirrors⟩
  · intro b after' hy
    obtain ⟨hseen, hcreate⟩ := returns_newCategory.1 hy
    cases (Work.createCategory_of_unlimited h.unlimited' name icon _).symm.trans hcreate
    exact ⟨_, _, returns_newCategory.2 ⟨hparent.2 hseen,
      Work.createCategory_of_unlimited h.unlimited name icon _⟩, hrow, hmirrors⟩

/-- A collection in a renamed category is created where the collection is. -/
theorem agrees_newCollection (h : Mirrors final base ρ committed committed' now later work work')
    (hb : base.KeptBy ρ) {pending pending' : Pending} (happs : pending'.apps = pending.apps)
    (id : CollectionId) (settings : CollectionSettings) (schema : Schema)
    (versionSettings : VersionSettings) :
    Agrees (newCollection pending id settings schema versionSettings)
      (newCollection pending' id (settings.rename ρ) schema versionSettings)
      committed committed' work work' fun _ after _ after' =>
        Mirrors final base ρ committed committed' now later after after' := by
  let row : Collection := {
    id, settings, schema := schema.resolveSelf id, versionSettings, createdAt := work.supply.now }
  let row' : Collection := {
    id, settings := settings.rename ρ, schema := schema.resolveSelf id, versionSettings
    createdAt := work'.supply.now }
  have hrow : row' = row.rename ρ := by
    simp only [row, row', Collection.rename, h.supply_eq, h.supply_eq', h.time_eq]
  have hrenamed : Tables.Renamed final ρ (@Tables.single .collection row)
      (@Tables.single .collection row') := by
    rw [hrow]
    exact .single_collection final ρ row
  have hcategory := h.seesCategory_iff hb settings.categoryId
  have happ : (∀ found, settings.defaultAppId = some found →
      found ∈ pending.apps ∨ (work.get? committed .app found).isSome = true) ↔
      ∀ found, (settings.rename ρ).defaultAppId = some found →
        found ∈ pending'.apps ∨ (work'.get? committed' .app found).isSome = true := by
    refine forall₂_congr fun found _ => ?_
    have hid : (work'.get? committed' .app found).isSome = (work.get? committed .app found).isSome :=
      h.isSome_get?_eq hb found
    rw [happs, hid]
  refine .of_checks (s := @stage .collection row) (t := @stage .collection row')
    (p := (schema.resolveSelf id).collectionFaults = .ok [] ∧ _ ∧ _)
    (q := (schema.resolveSelf id).collectionFaults = .ok [] ∧ _ ∧ _) ?_ ?_
    (and_congr_right fun _ => and_congr hcategory happ) ?_
  · intro a after
    rw [returns_newCollection, returns_stage]
    simp only [and_assoc, row]
  · intro b after'
    rw [returns_newCollection, returns_stage]
    simp only [and_assoc, row']
    exact Iff.rfl
  · intro _
    exact agrees_stage h hb (by decide) hrenamed

theorem agrees_newApp (h : Mirrors final base ρ committed committed' now later work work')
    (hb : base.KeptBy ρ) {pending pending' : Pending}
    (hcollections : pending'.collections = pending.collections) (id : AppId) (appType name : String)
    (targets : List CollectionId) (files : SortedMap String String) :
    Agrees (newApp pending id appType name targets files) (newApp pending' id appType name targets files)
      committed committed' work work' fun _ after _ after' =>
        Mirrors final base ρ committed committed' now later after after' := by
  let row : App := { id, appType, name, targets, files, createdAt := work.supply.now }
  have htime : work'.supply.now = work.supply.now := by
    rw [h.supply_eq, h.supply_eq', h.time_eq]
  have htargets : (∀ target ∈ targets,
      target ∈ pending.collections ∨ (work.get? committed .collection target).isSome = true) ↔
      ∀ target ∈ targets,
        target ∈ pending'.collections ∨ (work'.get? committed' .collection target).isSome = true := by
    refine forall₂_congr fun target _ => ?_
    have hid : (work'.get? committed' .collection target).isSome =
      (work.get? committed .collection target).isSome := h.isSome_get?_eq hb target
    rw [hcollections, hid]
  refine .of_checks (s := @stage .app row) (t := @stage .app row) ?_ ?_ htargets ?_
  · intro a after
    rw [returns_newApp, returns_stage]
  · intro b after'
    rw [returns_newApp, returns_stage, htime]
  · intro _
    exact agrees_stage h hb (by decide) (.single_app final ρ row)

end Operation

end ContentStore
