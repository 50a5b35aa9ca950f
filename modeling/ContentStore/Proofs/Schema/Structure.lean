import ContentStore.Proofs.Values
import ContentStore.Schema.Structure

/-!
# Definitions whose references lead somewhere

The structure check looks at the declared definitions only. A definition met later stands inside one of
them, so that whatever is met below the root leads to a definition too.
-/

namespace ContentStore

namespace Definition

theorem mem_nodes_self (d : Definition) : d ∈ d.nodes := by
  cases d <;> simp [nodes]

theorem mem_propertyNodes {properties : List (String × Definition)} {key : String}
    {d node : Definition} (hp : (key, d) ∈ properties) (hn : node ∈ d.nodes) :
    node ∈ propertyNodes properties := by
  induction properties with
  | nil => cases hp
  | cons first rest ih =>
      obtain ⟨firstKey, firstDefinition⟩ := first
      unfold propertyNodes
      rcases List.mem_cons.1 hp with he | hr
      · cases he
        exact List.mem_append_left _ hn
      · exact List.mem_append_right _ (ih hr)

end Definition

namespace Schema

variable {schema : Schema} {d target : Definition}

theorem root_eq_ok_iff : schema.root = .ok d ↔ schema.types.get? schema.rootType = some d := by
  unfold root
  cases schema.types.get? schema.rootType <;> simp

/-! ### Where references lead -/

theorem follow_ref_eq_ok_iff {steps : Nat} {name : String} :
    schema.follow (steps + 1) (.ref name) = .ok target ↔
      ∃ d, schema.types.get? name = some d ∧ schema.follow steps d = .ok target := by
  rw [follow]
  cases schema.types.get? name <;> simp

/-- What references lead to is where they start or a declared definition. -/
theorem follow_eq_or_declared {steps : Nat} (h : schema.follow steps d = .ok target) :
    target = d ∨ ∃ name, schema.types.get? name = some target := by
  induction steps generalizing d with
  | zero =>
      cases d with
      | ref name => cases h
      | _ => exact .inl (Except.ok.inj h).symm
  | succ steps ih =>
      cases d with
      | ref name =>
          obtain ⟨next, hnext, hfollow⟩ := follow_ref_eq_ok_iff.1 h
          rcases ih hfollow with rfl | hdeclared
          · exact .inr ⟨name, hnext⟩
          · exact .inr hdeclared
      | _ => exact .inl (Except.ok.inj h).symm

theorem follow_ne_ref {steps : Nat} (h : schema.follow steps d = .ok target) (name : String) :
    target ≠ .ref name := by
  rintro rfl
  induction steps generalizing d with
  | zero => cases d <;> cases h
  | succ steps ih =>
      cases d with
      | ref first =>
          obtain ⟨next, -, hfollow⟩ := follow_ref_eq_ok_iff.1 h
          exact ih hfollow
      | _ => cases h

/-! ### Sound definitions -/

/-- Every definition inside leads to one that is no reference. -/
def Sound (schema : Schema) (d : Definition) : Prop :=
  ∀ node ∈ d.nodes, ∃ target, schema.resolve node = .ok target

theorem Sound.exists_resolve (h : schema.Sound d) : ∃ target, schema.resolve d = .ok target :=
  h d d.mem_nodes_self

theorem Sound.items {element : Definition} (h : schema.Sound (.list element)) :
    schema.Sound element :=
  fun node hn => h node (List.mem_cons_of_mem _ hn)

theorem Sound.property {properties : List (String × Definition)} {nullable : SortedSet String}
    (h : schema.Sound (.struct properties nullable)) {key : String} (hp : (key, d) ∈ properties) :
    schema.Sound d :=
  fun node hn => h node (List.mem_cons_of_mem _ (Definition.mem_propertyNodes hp hn))

/-! ### The structure check -/

private theorem forM_resolve_eq_ok_iff {nodes : List Definition} :
    (nodes.forM fun node => do let _ ← schema.resolve node) = .ok () ↔
      ∀ node ∈ nodes, ∃ target, schema.resolve node = .ok target := by
  induction nodes with
  | nil => simp [pure, Except.pure]
  | cons node rest ih =>
      rw [List.forM_eq_forM] at ih ⊢
      rw [List.forM_cons, List.forall_mem_cons, ← ih]
      cases schema.resolve node <;> simp [bind, Except.bind, pure, Except.pure]

/-- A schema is in order if its root is declared and everything declared is sound. -/
theorem checkStructure_eq_ok_iff :
    schema.checkStructure = .ok () ↔
      (∃ root, schema.root = .ok root) ∧ ∀ entry ∈ schema.types.entries, schema.Sound entry.2 := by
  have hnodes : (∀ node ∈ schema.nodes, ∃ target, schema.resolve node = .ok target) ↔
      ∀ entry ∈ schema.types.entries, schema.Sound entry.2 := by
    unfold nodes Sound
    rw [List.forall_mem_flatMap]
  rw [← hnodes, ← forM_resolve_eq_ok_iff]
  unfold checkStructure
  cases schema.root <;> simp [bind, Except.bind]

theorem sound_of_get? (h : schema.checkStructure = .ok ()) {name : String}
    (hd : schema.types.get? name = some d) : schema.Sound d :=
  (checkStructure_eq_ok_iff.1 h).2 _ (Entries.mem_of_lookup hd)

theorem sound_of_root (h : schema.checkStructure = .ok ()) (hr : schema.root = .ok d) :
    schema.Sound d :=
  sound_of_get? h (root_eq_ok_iff.1 hr)

/-- What references lead to from a sound definition is sound. -/
theorem Sound.resolve (hd : schema.Sound d) (h : schema.checkStructure = .ok ())
    (hr : schema.resolve d = .ok target) : schema.Sound target := by
  rcases follow_eq_or_declared hr with rfl | ⟨name, hdeclared⟩
  · exact hd
  · exact sound_of_get? h hdeclared

end Schema

end ContentStore
