import ContentStore.Proofs.Content.Walk

/-!
# Schemas with other leaves

A map of the definitions that hold no others, applied throughout a schema, leaves the shape of the schema
as it is. References lead along the same names, so that the structure check ends alike.
-/

namespace ContentStore

namespace Definition

def isLeaf (d : Definition) : Bool :=
  d.dataType != .struct && d.dataType != .list

/-- Induction over a definition by the definitions inside. -/
@[elab_as_elim]
theorem treeInduction {motive : Definition → Prop} (leaf : ∀ d, d.isLeaf = true → motive d)
    (list : ∀ items, motive items → motive (.list items))
    (struct : ∀ properties nullable, (∀ property ∈ properties, motive property.2) →
      motive (.struct properties nullable)) : ∀ d, motive d
  | .list items => list items (treeInduction leaf list struct items)
  | .struct properties nullable =>
      struct properties nullable fun property h =>
        have : sizeOf property < sizeOf properties := List.sizeOf_lt_of_mem h
        have : sizeOf property.2 < sizeOf property := by
          cases property
          simp only [Prod.mk.sizeOf_spec]
          omega
        treeInduction leaf list struct property.2
  | .string _ | .number _ | .boolean | .stringLiteral _ | .numberLiteral _ | .booleanLiteral _
  | .enum _ | .documentRef _ | .file _ | .jsonObject _ | .ref _ => leaf _ rfl
termination_by d => sizeOf d

theorem nodes_of_isLeaf {d : Definition} (h : d.isLeaf = true) : d.nodes = [d] := by
  cases d <;> first | rfl | cases h

theorem distinctKeys_of_isLeaf {d : Definition} (h : d.isLeaf = true) : d.DistinctKeys := by
  cases d <;> trivial

theorem isVisited_eq (d : Definition) :
    d.isVisited = (d.dataType == .documentRef || d.dataType == .file) := by
  cases d <;> rfl

theorem opens_of_isLeaf {d : Definition} (h : d.isLeaf = true) (value : Json) : d.opens value = false := by
  cases d <;> first | rfl | cases h

theorem propertyNodes_eq_flatMap (properties : List (String × Definition)) :
    propertyNodes properties = properties.flatMap fun property => property.2.nodes := by
  induction properties with
  | nil => rfl
  | cons property rest ih => simp only [propertyNodes, List.flatMap_cons, ih]

/-- A map of definitions that keeps their data types and leaves references as they are. -/
structure LeafMap where
  toFun : Definition → Definition
  dataType_eq : ∀ d, (toFun d).dataType = d.dataType
  ref_eq : ∀ name, toFun (.ref name) = .ref name

mutual

def mapLeaves (f : LeafMap) : Definition → Definition
  | .struct properties nullable => .struct (mapPropertyLeaves f properties) nullable
  | .list items => .list (items.mapLeaves f)
  | d => f.toFun d

def mapPropertyLeaves (f : LeafMap) : List (String × Definition) → List (String × Definition)
  | [] => []
  | (key, d) :: rest => (key, d.mapLeaves f) :: mapPropertyLeaves f rest

end

section LeafMap

variable (f : LeafMap)

theorem mapLeaves_of_isLeaf {d : Definition} (h : d.isLeaf = true) : d.mapLeaves f = f.toFun d := by
  cases d <;> first | rfl | cases h

theorem LeafMap.isLeaf_toFun {d : Definition} (h : d.isLeaf = true) : (f.toFun d).isLeaf = true := by
  rwa [isLeaf, f.dataType_eq]

theorem mapPropertyLeaves_eq_map (properties : List (String × Definition)) :
    mapPropertyLeaves f properties =
      properties.map fun property => (property.1, property.2.mapLeaves f) := by
  induction properties with
  | nil => rfl
  | cons property rest ih => simp only [mapPropertyLeaves, List.map_cons, ih]

@[simp] theorem keys_mapPropertyLeaves (properties : List (String × Definition)) :
    Entries.keys (mapPropertyLeaves f properties) = Entries.keys properties := by
  simp [mapPropertyLeaves_eq_map, Entries.keys]

@[simp] theorem mapLeaves_ref (name : String) : (Definition.ref name).mapLeaves f = .ref name :=
  f.ref_eq name

@[simp] theorem dataType_mapLeaves (d : Definition) : (d.mapLeaves f).dataType = d.dataType := by
  cases d <;> first | rfl | exact f.dataType_eq _

theorem isVisited_mapLeaves (d : Definition) : (d.mapLeaves f).isVisited = d.isVisited := by
  rw [isVisited_eq, isVisited_eq, dataType_mapLeaves]

theorem opens_mapLeaves (d : Definition) (value : Json) : (d.mapLeaves f).opens value = d.opens value := by
  by_cases hd : d.isLeaf = true
  · rw [mapLeaves_of_isLeaf f hd, opens_of_isLeaf (f.isLeaf_toFun hd), opens_of_isLeaf hd]
  · cases d <;> first | exact absurd rfl hd | (cases value <;> rfl)

theorem mapLeaves_ne_ref {d : Definition} (h : ¬ ∃ name, d = .ref name) :
    ¬ ∃ name, d.mapLeaves f = .ref name := by
  rintro ⟨name, hname⟩
  have hd := dataType_mapLeaves f d
  rw [hname] at hd
  cases d with
  | ref name => exact h ⟨name, rfl⟩
  | _ => cases hd

theorem distinctKeys_mapLeaves {d : Definition} (h : d.DistinctKeys) :
    (d.mapLeaves f).DistinctKeys := by
  induction d using treeInduction with
  | leaf d hd =>
      rw [mapLeaves_of_isLeaf f hd]
      exact distinctKeys_of_isLeaf (f.isLeaf_toFun hd)
  | list items ih => exact ih h
  | struct properties nullable ih =>
      have hk : (Entries.keys properties).Nodup ∧ DistinctPropertyKeys properties := h
      refine ⟨by simpa using hk.1, distinctPropertyKeys_iff.2 ?_⟩
      rw [mapPropertyLeaves_eq_map, List.forall_mem_map]
      exact fun property hp => ih property hp (distinctPropertyKeys_iff.1 hk.2 property hp)

theorem nodes_mapLeaves (d : Definition) : (d.mapLeaves f).nodes = d.nodes.map (mapLeaves f) := by
  induction d using treeInduction with
  | leaf d hd =>
      rw [nodes_of_isLeaf hd, mapLeaves_of_isLeaf f hd, nodes_of_isLeaf (f.isLeaf_toFun hd),
        List.map_singleton, mapLeaves_of_isLeaf f hd]
  | list items ih => rw [mapLeaves, nodes, nodes, List.map_cons, ih, mapLeaves]
  | struct properties nullable ih =>
      rw [mapLeaves, nodes, nodes, List.map_cons, mapLeaves, propertyNodes_eq_flatMap,
        propertyNodes_eq_flatMap, mapPropertyLeaves_eq_map, List.flatMap_map, List.map_flatMap]
      congr 1
      exact List.flatMap_congr fun property hp => ih property hp

end LeafMap

end Definition

namespace Schema

def mapLeaves (schema : Schema) (f : Definition.LeafMap) : Schema where
  types := schema.types.mapValues (Definition.mapLeaves f)
  rootType := schema.rootType
  distinct := by
    intro entry he
    obtain ⟨declared, hd, rfl⟩ := List.mem_map.1 he
    exact Definition.distinctKeys_mapLeaves f (schema.distinct declared hd)

variable {schema : Schema} {f : Definition.LeafMap}

theorem follow_of_ne_ref {d : Definition} (h : ¬ ∃ name, d = .ref name) (steps : Nat) :
    schema.follow steps d = .ok d := by
  cases d with
  | ref name => exact absurd ⟨name, rfl⟩ h
  | _ => cases steps <;> rfl

theorem get?_mapLeaves (name : String) :
    (schema.mapLeaves f).types.get? name =
      (schema.types.get? name).map (Definition.mapLeaves f) := by
  simp only [mapLeaves, SortedMap.get?, SortedMap.mapValues]
  exact Entries.lookup_map (fun _ => Definition.mapLeaves f) name schema.types.entries

theorem follow_mapLeaves (steps : Nat) (d : Definition) :
    (schema.mapLeaves f).follow steps (d.mapLeaves f) =
      (schema.follow steps d).map (Definition.mapLeaves f) := by
  induction steps generalizing d with
  | zero =>
      by_cases hd : ∃ name, d = .ref name
      · obtain ⟨name, rfl⟩ := hd
        rw [Definition.mapLeaves_ref]
        rfl
      · rw [follow_of_ne_ref hd, follow_of_ne_ref (Definition.mapLeaves_ne_ref f hd)]
        rfl
  | succ steps ih =>
      by_cases hd : ∃ name, d = .ref name
      · obtain ⟨name, rfl⟩ := hd
        rw [Definition.mapLeaves_ref, follow, follow, get?_mapLeaves]
        cases schema.types.get? name with
        | none => rfl
        | some next => exact ih next
      · rw [follow_of_ne_ref hd, follow_of_ne_ref (Definition.mapLeaves_ne_ref f hd)]
        rfl

theorem resolve_mapLeaves (d : Definition) :
    (schema.mapLeaves f).resolve (d.mapLeaves f) =
      (schema.resolve d).map (Definition.mapLeaves f) := by
  have hsize : (schema.mapLeaves f).types.size = schema.types.size := by
    simp [mapLeaves, SortedMap.size, SortedMap.mapValues]
  rw [resolve, hsize]
  exact follow_mapLeaves _ d

theorem resolve_mapLeaves_of_eq_ok {d target : Definition} (h : schema.resolve d = .ok target) :
    (schema.mapLeaves f).resolve (d.mapLeaves f) = .ok (target.mapLeaves f) := by
  rw [resolve_mapLeaves, h]
  rfl

theorem resolve_mapLeaves_of_eq_error {d : Definition} {e : StructureError}
    (h : schema.resolve d = .error e) : (schema.mapLeaves f).resolve (d.mapLeaves f) = .error e := by
  rw [resolve_mapLeaves, h]
  rfl

theorem root_mapLeaves :
    (schema.mapLeaves f).root = schema.root.map (Definition.mapLeaves f) := by
  have hroot : (schema.mapLeaves f).rootType = schema.rootType := rfl
  unfold root
  rw [get?_mapLeaves, hroot]
  cases schema.types.get? schema.rootType <;> rfl

theorem nodes_mapLeaves :
    (schema.mapLeaves f).nodes = schema.nodes.map (Definition.mapLeaves f) := by
  simp only [nodes, mapLeaves, SortedMap.mapValues, List.flatMap_map, List.map_flatMap,
    Definition.nodes_mapLeaves]

/-- Other leaves leave the structure as it is. -/
theorem checkStructure_mapLeaves : (schema.mapLeaves f).checkStructure = schema.checkStructure := by
  have hforM : ∀ nodes : List Definition,
      ((nodes.map (Definition.mapLeaves f)).forM fun node => do
        let _ ← (schema.mapLeaves f).resolve node) =
      (nodes.forM fun node => do let _ ← schema.resolve node) := by
    intro nodes
    induction nodes with
    | nil => rfl
    | cons node rest ih =>
        simp only [List.forM_eq_forM, List.map_cons, List.forM_cons, resolve_mapLeaves] at ih ⊢
        rw [ih]
        cases schema.resolve node <;> rfl
  unfold checkStructure
  rw [root_mapLeaves, nodes_mapLeaves, hforM]
  cases schema.root <;> rfl

end Schema

end ContentStore
