import ContentStore.Proofs.Engine.Runs
import Mathlib.Logic.Relation

/-!
# The forest of categories

A category is created under a parent that is there already, also within a pack. So the rows list every
category after its parent, and no climb from parent to parent comes back to where it began.
-/

namespace ContentStore

/-- Categories of which each stands after one that has the id of its parent. -/
inductive InCreationOrder : List CollectionCategory → Prop where
  | nil : InCreationOrder []
  | snoc {earlier : List CollectionCategory} {category : CollectionCategory}
      (before : InCreationOrder earlier)
      (parent : ∀ id, category.parentId = some id → ∃ c ∈ earlier, c.id = id) :
      InCreationOrder (earlier ++ [category])

/-- The parent id of a category names another one. -/
def Tables.HasParent (t : Tables) (category parent : CollectionCategory) : Prop :=
  ∃ id, category.parentId = some id ∧ t.get? .collectionCategory id = some parent

namespace InCreationOrder

theorem exists_parent {categories : List CollectionCategory} (h : InCreationOrder categories) {i : Nat}
    {category : CollectionCategory} (hi : categories[i]? = some category) {id : CollectionCategoryId}
    (hid : category.parentId = some id) : ∃ c ∈ categories.take i, c.id = id := by
  induction h generalizing i with
  | nil => simp at hi
  | @snoc earlier last before parent ih =>
      obtain ⟨hlength, -⟩ := List.getElem?_eq_some_iff.1 hi
      rw [List.length_append, List.length_singleton] at hlength
      rcases Nat.lt_or_eq_of_le (Nat.le_of_lt_succ hlength) with hlt | rfl
      · rw [List.getElem?_append_left hlt] at hi
        rw [List.take_append_of_le_length (Nat.le_of_lt hlt)]
        exact ih hi
      · rw [List.getElem?_concat_length, Option.some.injEq] at hi
        subst hi
        rw [List.take_left]
        exact parent id hid

variable {t : Tables} {category parent : CollectionCategory}

/-- The first row with the id of a category's parent stands before the category. -/
theorem parent_before (h : InCreationOrder t.categories) {i : Nat}
    (hi : t.categories[i]? = some category) {id : CollectionCategoryId}
    (hid : category.parentId = some id) :
    ∃ j c, j < i ∧ t.categories[j]? = some c ∧ t.get? .collectionCategory id = some c := by
  obtain ⟨c, hc, hcid⟩ := h.exists_parent hi hid
  obtain ⟨found, hfound⟩ : ∃ found, (t.categories.take i).find? (fun c => c.id = id) = some found :=
    Option.isSome_iff_exists.1 (List.find?_isSome.2 ⟨c, hc, by simpa using hcid⟩)
  obtain ⟨j, hj, hget⟩ := List.getElem_of_mem (List.mem_of_find?_eq_some hfound)
  have hlt : j < i := Nat.lt_of_lt_of_le hj (List.length_take_le i t.categories)
  refine ⟨j, found, hlt, ?_, ?_⟩
  · rw [← List.getElem?_take_of_lt hlt, List.getElem?_eq_getElem hj, hget]
  · show t.categories.find? (fun c => c.id = id) = some found
    rw [← List.take_append_drop i t.categories, List.find?_append, hfound, Option.some_or]

theorem hasParent_before (h : InCreationOrder t.categories) {i : Nat}
    (hi : t.categories[i]? = some category) (hp : t.HasParent category parent) :
    ∃ j, j < i ∧ t.categories[j]? = some parent := by
  obtain ⟨id, hid, hget⟩ := hp
  obtain ⟨j, c, hlt, hj, hfound⟩ := h.parent_before hi hid
  obtain rfl := Option.some.inj (hget.symm.trans hfound)
  exact ⟨j, hlt, hj⟩

/-- Every ancestor of a category stands before it. -/
theorem ancestor_before (h : InCreationOrder t.categories) {i : Nat}
    (hi : t.categories[i]? = some category) (hp : Relation.TransGen t.HasParent category parent) :
    ∃ j, j < i ∧ t.categories[j]? = some parent := by
  induction hp with
  | single hstep => exact h.hasParent_before hi hstep
  | tail _ hstep ih =>
      obtain ⟨j, hlt, hj⟩ := ih
      obtain ⟨k, hk, hget⟩ := h.hasParent_before hj hstep
      exact ⟨k, Nat.lt_trans hk hlt, hget⟩

/-- A category that were its own ancestor would stand before its first place. -/
theorem not_own_ancestor (h : InCreationOrder t.categories) (hc : category ∈ t.categories) :
    ¬ Relation.TransGen t.HasParent category category := by
  intro hcycle
  obtain ⟨i, hi⟩ := List.mem_iff_getElem?.1 hc
  induction i using Nat.strongRecOn with
  | _ i ih =>
      obtain ⟨j, hlt, hj⟩ := h.ancestor_before hi hcycle
      exact ih j hlt hj

/-- A climb from parent to parent ends at a category without a parent. -/
theorem exists_root (h : InCreationOrder t.categories) (hc : category ∈ t.categories) :
    ∃ root, Relation.ReflTransGen t.HasParent category root ∧ root.parentId = none := by
  obtain ⟨i, hi⟩ := List.mem_iff_getElem?.1 hc
  induction i using Nat.strongRecOn generalizing category with
  | _ i ih =>
      cases hid : category.parentId with
      | none => exact ⟨category, .refl, hid⟩
      | some id =>
          obtain ⟨j, parent, hlt, hj, hget⟩ := h.parent_before hi hid
          obtain ⟨root, hclimb, hroot⟩ := ih j hlt (List.mem_of_getElem? hj) hj
          exact ⟨root, .head ⟨id, hid, hget⟩ hclimb, hroot⟩

end InCreationOrder

namespace Operation

variable {committed : Tables} {before after : Work}

/-- A new category goes to the end of the rows that the transaction sees, behind its parent. -/
theorem newCategory_ordered {name icon : String} {parentId : Option CollectionCategoryId}
    {category : CollectionCategory}
    (h : Returns (newCategory name icon parentId) committed before category after)
    (ho : InCreationOrder (before.rows committed .collectionCategory)) :
    after.rows committed .collectionCategory = before.rows committed .collectionCategory ++ [category] ∧
      InCreationOrder (before.rows committed .collectionCategory ++ [category]) := by
  obtain ⟨hparent, hcreate⟩ := returns_newCategory.1 h
  unfold Work.createCategory at hcreate
  split at hcreate
  · cases hcreate
  · cases hcreate
    refine ⟨(List.append_assoc _ _ _).symm, ho.snoc fun id hid => ?_⟩
    have hseen := hparent id hid
    rw [Work.isSome_get?, Tables.contains_iff, Tables.rows_append] at hseen
    exact hseen

/-- The categories of a pack follow those that the transaction sees, each behind its parent. -/
theorem newPackCategories_ordered {mapping : IdMapping} {index : Nat} {specs : List CategorySpec}
    {result : List CollectionCategory × IdMapping}
    (h : Returns (newPackCategories mapping index specs) committed before result after)
    (ho : InCreationOrder (before.rows committed .collectionCategory)) :
    InCreationOrder (before.rows committed .collectionCategory ++ result.1) := by
  induction specs generalizing mapping index before result with
  | nil =>
      simp only [newPackCategories, returns_pure] at h
      obtain ⟨rfl, -⟩ := h
      rwa [List.append_nil]
  | cons spec rest ih =>
      simp only [newPackCategories, returns_bind, returns_resolveOptional, returns_pure] at h
      obtain ⟨parent, _, ⟨-, rfl⟩, category, middle, hcategory, others, _, hothers, rfl, rfl⟩ := h
      obtain ⟨hrows, hordered⟩ := newCategory_ordered hcategory ho
      rw [← hrows] at hordered
      have hrest := ih hothers hordered
      rwa [hrows, List.append_assoc, List.singleton_append] at hrest

/-- A pack answers with categories that follow those of the store, each behind its parent. -/
theorem newPack_ordered {validator : Validator} {pack : Pack} {installed : PackInstallation}
    (h : Returns (newPack validator pack) committed before installed after)
    (ho : InCreationOrder (before.rows committed .collectionCategory)) :
    InCreationOrder (before.rows committed .collectionCategory ++ installed.categories) := by
  simp only [newPack, returns_bind, returns_pure] at h
  obtain ⟨ids, given, hids, pending, _, hpending, categories, _, hcategories, -, -, -, -, -, -, -, -, -,
    rfl, -⟩ := h
  obtain ⟨-, hstaged⟩ := returns_idsFor hids
  obtain ⟨-, rfl⟩ := returns_pendingFor hpending
  have hrows : given.rows committed .collectionCategory =
      before.rows committed .collectionCategory := by
    rw [Work.rows, Work.rows, hstaged]
  rw [← hrows] at ho ⊢
  exact newPackCategories_ordered hcategories ho

end Operation

namespace Engine

variable {engine after : Engine} {created : Tables}

theorem exists_of_answering {α : Type} {rows : α → Tables} {outcome : Except EngineError α × Engine}
    (h : answering rows outcome = (.ok created, after)) :
    ∃ a, outcome = (.ok a, after) ∧ rows a = created := by
  obtain ⟨result, last⟩ := outcome
  cases result with
  | error error => cases h
  | ok a =>
      cases h
      exact ⟨a, rfl, rfl⟩

/-- The categories that a call answers with follow the committed ones, each behind its parent. -/
theorem write_ordered_created {call : Write} (h : engine.write call = (.ok created, after))
    (ho : InCreationOrder engine.store.committed.categories) :
    InCreationOrder (engine.store.committed.categories ++ created.categories) := by
  have hstart : (Work.start engine.store.budget engine.supply).rows engine.store.committed
      .collectionCategory = engine.store.committed.categories := List.append_nil _
  rw [← hstart] at ho ⊢
  cases call with
  | createCategory name icon parentId =>
      obtain ⟨category, hrun, rfl⟩ := exists_of_answering h
      obtain ⟨work, hreturns, -, -⟩ := run_eq_ok_iff.1 hrun
      exact (Operation.newCategory_ordered hreturns ho).2
  | installPack pack =>
      obtain ⟨installed, hrun, rfl⟩ := exists_of_answering h
      unfold installPack at hrun
      split at hrun
      · obtain ⟨work, hreturns, -, -⟩ := run_eq_ok_iff.1 hrun
        exact Operation.newPack_ordered hreturns ho
      · cases hrun
  | _ =>
      obtain ⟨_, -, rfl⟩ := exists_of_answering h
      exact (List.append_nil _).symm ▸ ho

/-- A call keeps the committed categories in the order of their creation. -/
theorem write_ordered (ho : InCreationOrder engine.store.committed.categories) (call : Write) :
    InCreationOrder (engine.write call).2.store.committed.categories := by
  have hleaves := write_leaves engine call
  generalize hcall : engine.write call = outcome at hleaves
  obtain ⟨result, after⟩ := outcome
  cases result with
  | error error =>
      rw [hleaves.failed error rfl]
      exact ho
  | ok created =>
      obtain ⟨added, hcommitted, ⟨stored, -, -, rfl, -⟩, -, -⟩ := hleaves.succeeded created rfl
      have hcategories : after.store.committed.categories =
          engine.store.committed.categories ++ created.categories := by
        rw [hcommitted]
        exact congrArg _ (List.append_nil _)
      rw [hcategories]
      exact write_ordered_created hcall ho

/-- After every run from an empty store, the rows list each category after the one that its parent id
names. From every category, going on from parent to parent ends at one without a parent and never comes
back to the category. -/
theorem writeAll_forest (supply : Supply) (formats : FormatRegistry) (config : EngineConfig)
    (calls : List (Budget × Write)) :
    let engine := ({ supply, formats, config } : Engine).writeAll calls
    (∀ (i : Nat) (category : CollectionCategory) (id : CollectionCategoryId),
      (engine.rows .collectionCategory)[i]? = some category → category.parentId = some id →
        ∃ j parent, j < i ∧ (engine.rows .collectionCategory)[j]? = some parent ∧
          engine.get? .collectionCategory id = some parent) ∧
    ∀ category ∈ engine.rows .collectionCategory,
      (∃ root, Relation.ReflTransGen engine.store.committed.HasParent category root ∧
        root.parentId = none) ∧
      ¬ Relation.TransGen engine.store.committed.HasParent category category := by
  have hempty : InCreationOrder ({ supply, formats, config } : Engine).store.committed.categories := .nil
  have hstep : ∀ (engine : Engine) (budget : Budget) (call : Write),
      InCreationOrder engine.store.committed.categories →
        InCreationOrder ((engine.limitWrites budget).write call).2.store.committed.categories :=
    fun engine budget call h => @write_ordered (engine.limitWrites budget) h call
  have hordered : InCreationOrder
      (({ supply, formats, config } : Engine).writeAll calls).store.committed.categories :=
    writeAll_induction hempty hstep calls
  exact ⟨fun i category id hi hid => hordered.parent_before hi hid,
    fun category hc => ⟨hordered.exists_root hc, hordered.not_own_ancestor hc⟩⟩

end Engine

end ContentStore
