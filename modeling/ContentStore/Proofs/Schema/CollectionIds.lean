import ContentStore.Engine.Collections
import ContentStore.Proofs.Content.Walk
import ContentStore.Proofs.Schema.Leaves

/-!
# The collection ids that a schema fixes

A function on the fixed collection ids of a schema acts on each of them where it stands, and on nothing
else.
-/

namespace ContentStore

/-- A fixed collection id with the sign for the own collection read as its id. -/
def CollectionId.orSelf (own : CollectionId) (id : String) : String :=
  if id = selfCollection then own.text else id

namespace CollectionId

theorem orSelf_self (own : CollectionId) : own.orSelf selfCollection = own.text :=
  if_pos rfl

theorem orSelf_of_ne (own : CollectionId) {id : String} (h : id ≠ selfCollection) :
    own.orSelf id = id :=
  if_neg h

end CollectionId

namespace Definition

variable (f g : String → String)

theorem mapPropertyCollectionIds_eq_map (properties : List (String × Definition)) :
    mapPropertyCollectionIds f properties =
      properties.map fun property => (property.1, property.2.mapCollectionIds f) := by
  induction properties with
  | nil => rfl
  | cons property rest ih => simp only [mapPropertyCollectionIds, List.map_cons, ih]

def LeafMap.ofCollectionIds : LeafMap where
  toFun
    | .documentRef collection => .documentRef (collection.map f)
    | d => d
  dataType_eq d := by cases d <;> rfl
  ref_eq _ := rfl

theorem mapCollectionIds_eq_mapLeaves (d : Definition) :
    d.mapCollectionIds f = d.mapLeaves (.ofCollectionIds f) := by
  induction d using treeInduction with
  | leaf d hd => cases d <;> first | rfl | cases hd
  | list items ih => rw [mapCollectionIds, mapLeaves, ih]
  | struct properties nullable ih =>
      rw [mapCollectionIds, mapLeaves, mapPropertyCollectionIds_eq_map, mapPropertyLeaves_eq_map]
      congr 1
      exact List.map_congr_left fun property hp => by rw [ih property hp]

theorem nodes_mapCollectionIds (d : Definition) :
    (d.mapCollectionIds f).nodes = d.nodes.map (mapCollectionIds f) := by
  rw [funext (mapCollectionIds_eq_mapLeaves f), nodes_mapLeaves]

theorem mapCollectionIds_mapCollectionIds (d : Definition) :
    (d.mapCollectionIds f).mapCollectionIds g = d.mapCollectionIds (g ∘ f) := by
  induction d using treeInduction with
  | leaf d hd =>
      cases d with
      | documentRef collection => exact congrArg documentRef (Option.map_map g f collection)
      | _ => first | rfl | cases hd
  | list items ih => rw [mapCollectionIds, mapCollectionIds, mapCollectionIds, ih]
  | struct properties nullable ih =>
      simp only [mapCollectionIds, mapPropertyCollectionIds_eq_map, List.map_map]
      congr 1
      exact List.map_congr_left fun property hp => by rw [Function.comp_apply, ih property hp]

@[simp] theorem dataType_mapCollectionIds (d : Definition) :
    (d.mapCollectionIds f).dataType = d.dataType := by
  cases d <;> rfl

@[simp] theorem opens_mapCollectionIds (d : Definition) (value : Json) :
    (d.mapCollectionIds f).opens value = d.opens value := by
  cases d <;> cases value <;> rfl

@[simp] theorem isVisited_mapCollectionIds (d : Definition) :
    (d.mapCollectionIds f).isVisited = d.isVisited := by
  cases d <;> rfl

theorem fixedCollection?_mapCollectionIds (d : Definition) :
    (d.mapCollectionIds f).fixedCollection? = d.fixedCollection?.map f := by
  cases d <;> rfl

end Definition

namespace Schema

theorem mapCollectionIds_mapCollectionIds (schema : Schema) (f g : String → String) :
    (schema.mapCollectionIds f).mapCollectionIds g = schema.mapCollectionIds (g ∘ f) := by
  unfold mapCollectionIds
  congr 1
  refine SortedMap.ext ?_
  simp [SortedMap.mapValues, Definition.mapCollectionIds_mapCollectionIds]

/-- The fixed ids of a mapped schema are the images of the fixed ids, under the same names. -/
theorem fixedCollectionIds_mapCollectionIds (schema : Schema) (f : String → String) :
    (schema.mapCollectionIds f).fixedCollectionIds =
      schema.fixedCollectionIds.map fun entry => (entry.1, f entry.2) := by
  have hnodes : ∀ d : Definition, (d.mapCollectionIds f).nodes.filterMap Definition.fixedCollection? =
      (d.nodes.filterMap Definition.fixedCollection?).map f := by
    intro d
    rw [Definition.nodes_mapCollectionIds, List.filterMap_map, List.map_filterMap]
    congr 1
    funext node
    exact Definition.fixedCollection?_mapCollectionIds f node
  simp only [fixedCollectionIds, mapCollectionIds, SortedMap.mapValues, List.flatMap_map,
    List.map_flatMap, hnodes, List.map_map]
  rfl

/-! ### Following references in a mapped schema -/

variable {schema : Schema} {f : String → String}

theorem mapCollectionIds_eq_mapLeaves (schema : Schema) (f : String → String) :
    schema.mapCollectionIds f = schema.mapLeaves (.ofCollectionIds f) := by
  unfold mapCollectionIds mapLeaves
  congr 2
  exact funext (Definition.mapCollectionIds_eq_mapLeaves f)

theorem resolve_mapCollectionIds (d : Definition) :
    (schema.mapCollectionIds f).resolve (d.mapCollectionIds f) =
      (schema.resolve d).map (Definition.mapCollectionIds f) := by
  rw [mapCollectionIds_eq_mapLeaves, funext (Definition.mapCollectionIds_eq_mapLeaves f),
    resolve_mapLeaves]

theorem root_mapCollectionIds :
    (schema.mapCollectionIds f).root = schema.root.map (Definition.mapCollectionIds f) := by
  rw [mapCollectionIds_eq_mapLeaves, funext (Definition.mapCollectionIds_eq_mapLeaves f), root_mapLeaves]

theorem resolvedRoot_mapCollectionIds :
    (schema.mapCollectionIds f).resolvedRoot =
      schema.resolvedRoot.map (Definition.mapCollectionIds f) := by
  unfold resolvedRoot
  rw [root_mapCollectionIds]
  cases schema.root with
  | error e => rfl
  | ok root => exact resolve_mapCollectionIds root

theorem struct_resolvedRoot_mapCollectionIds_iff :
    (∃ properties nullable,
      (schema.mapCollectionIds f).resolvedRoot = .ok (.struct properties nullable)) ↔
    ∃ properties nullable, schema.resolvedRoot = .ok (.struct properties nullable) := by
  rw [resolvedRoot_mapCollectionIds]
  cases schema.resolvedRoot with
  | error e => simp [Except.map]
  | ok root => cases root <;> simp [Except.map, Definition.mapCollectionIds]

/-- Mapping the fixed ids leaves the structure as it is. -/
theorem checkStructure_mapCollectionIds :
    (schema.mapCollectionIds f).checkStructure = schema.checkStructure := by
  rw [mapCollectionIds_eq_mapLeaves, checkStructure_mapLeaves]

theorem resolve_mapCollectionIds_eq_ok {d target : Definition}
    (h : (schema.mapCollectionIds f).resolve (d.mapCollectionIds f) = .ok target) :
    ∃ before, schema.resolve d = .ok before ∧ before.mapCollectionIds f = target := by
  rw [resolve_mapCollectionIds] at h
  exact map_eq_ok_iff.1 h

theorem resolve_mapCollectionIds_of_eq_ok {d target : Definition} (h : schema.resolve d = .ok target) :
    (schema.mapCollectionIds f).resolve (d.mapCollectionIds f) = .ok (target.mapCollectionIds f) := by
  rw [resolve_mapCollectionIds, h]
  rfl

/-! ### Leaves in a mapped schema -/

/-- The leaves of a value are the same in a mapped schema, with the ids mapped. -/
theorem Leaf.mapCollectionIds {d target : Definition} {value leaf : Json} {path : Path}
    (h : schema.Leaf d value path target leaf) :
    (schema.mapCollectionIds f).Leaf (d.mapCollectionIds f) value path (target.mapCollectionIds f)
      leaf := by
  induction h with
  | here resolved closed =>
      exact .here (resolve_mapCollectionIds_of_eq_ok resolved) (by simpa using closed)
  | @member d part target properties nullable members key value leaf path resolved declared holds _ ih =>
      have hmapped := resolve_mapCollectionIds_of_eq_ok (f := f) resolved
      refine .member hmapped ?_ holds ih
      rw [Definition.mapPropertyCollectionIds_eq_map]
      exact List.mem_map.2 ⟨(key, part), declared, rfl⟩
  | item resolved holds _ ih =>
      exact .item (resolve_mapCollectionIds_of_eq_ok resolved) holds ih

theorem Leaf.of_mapCollectionIds {d mapped : Definition} {value leaf : Json} {path : Path}
    (h : (schema.mapCollectionIds f).Leaf (d.mapCollectionIds f) value path mapped leaf) :
    ∃ target, schema.Leaf d value path target leaf ∧ target.mapCollectionIds f = mapped := by
  generalize hd : d.mapCollectionIds f = d' at h
  induction h generalizing d with
  | here resolved closed =>
      subst hd
      obtain ⟨target, hr, rfl⟩ := resolve_mapCollectionIds_eq_ok resolved
      exact ⟨target, .here hr (by simpa using closed), rfl⟩
  | member resolved declared holds _ ih =>
      subst hd
      obtain ⟨target, hr, he⟩ := resolve_mapCollectionIds_eq_ok resolved
      cases target with
      | struct properties nullable =>
          obtain ⟨rfl, rfl⟩ := Definition.struct.inj he
          rw [Definition.mapPropertyCollectionIds_eq_map] at declared
          obtain ⟨⟨key, part⟩, hp, he⟩ := List.mem_map.1 declared
          cases he
          obtain ⟨leafTarget, hleaf, rfl⟩ := ih rfl
          exact ⟨leafTarget, .member hr hp holds hleaf, rfl⟩
      | _ => cases he
  | item resolved holds _ ih =>
      subst hd
      obtain ⟨target, hr, he⟩ := resolve_mapCollectionIds_eq_ok resolved
      cases target with
      | list element =>
          cases he
          obtain ⟨leafTarget, hleaf, rfl⟩ := ih rfl
          exact ⟨leafTarget, .item hr holds hleaf, rfl⟩
      | _ => cases he

/-! ### Fixed ids at leaves -/

theorem nodes_subset_of_declared {name : String} {d : Definition}
    (h : schema.types.get? name = some d) {node : Definition} (hn : node ∈ d.nodes) :
    node ∈ schema.nodes :=
  List.mem_flatMap.2 ⟨(name, d), Entries.mem_of_lookup h, hn⟩

/-- What is met below a definition of the schema is a definition of the schema. -/
theorem Leaf.mem_nodes {d target : Definition} {value leaf : Json} {path : Path}
    (h : schema.Leaf d value path target leaf) (hd : ∀ node ∈ d.nodes, node ∈ schema.nodes) :
    target ∈ schema.nodes := by
  have hresolved : ∀ {d target : Definition}, schema.resolve d = .ok target →
      (∀ node ∈ d.nodes, node ∈ schema.nodes) → ∀ node ∈ target.nodes, node ∈ schema.nodes := by
    intro d target hr hd
    rcases follow_eq_or_declared hr with rfl | ⟨name, hdeclared⟩
    · exact hd
    · exact fun node hn => nodes_subset_of_declared hdeclared hn
  induction h with
  | here resolved closed => exact hresolved resolved hd _ (Definition.mem_nodes_self _)
  | member resolved declared holds _ ih =>
      apply ih
      intro node hn
      exact hresolved resolved hd node
        (List.mem_cons_of_mem _ (Definition.mem_propertyNodes declared hn))
  | item resolved holds _ ih =>
      apply ih
      intro node hn
      exact hresolved resolved hd node (List.mem_cons_of_mem _ hn)

/-- A collection that is fixed where a walk from the root ends is one of the fixed ids of the schema. -/
theorem exists_fixed_of_leaf {root : Definition} {value leaf : Json} {path : Path} {id : String}
    (hroot : schema.root = .ok root)
    (h : schema.Leaf root value path (.documentRef (some id)) leaf) :
    ∃ typeName, (typeName, id) ∈ schema.fixedCollectionIds := by
  have hnode := h.mem_nodes fun node => nodes_subset_of_declared (root_eq_ok_iff.1 hroot)
  obtain ⟨⟨typeName, d⟩, htype, hd⟩ := List.mem_flatMap.1 hnode
  have hid : id ∈ d.nodes.filterMap Definition.fixedCollection? :=
    List.mem_filterMap.2 ⟨_, hd, rfl⟩
  exact ⟨typeName, List.mem_flatMap.2 ⟨(typeName, d), htype, List.mem_map.2 ⟨id, hid, rfl⟩⟩⟩

/-! ### Schemas without faults -/

/-- A schema has no faults if it can be used, its root leads to a struct and what it fixes are ids. -/
theorem collectionFaults_eq_nil_iff :
    schema.collectionFaults = .ok [] ↔
      schema.checkStructure = .ok () ∧
      (∃ properties nullable, schema.resolvedRoot = .ok (.struct properties nullable)) ∧
      ∀ entry ∈ schema.fixedCollectionIds, RealId.shaped .collection entry.2 = true := by
  unfold collectionFaults
  cases schema.checkStructure with
  | error e => simp [bind, Except.bind]
  | ok u =>
      cases schema.resolvedRoot with
      | error e => simp [bind, Except.bind]
      | ok root =>
          simp only [bind, Except.bind, pure, Except.pure, Except.ok.injEq, List.append_eq_nil_iff,
            List.filterMap_eq_nil_iff, true_and]
          have hids : ∀ id typeName : String, (if RealId.shaped .collection id then none
              else some (SchemaFault.notACollectionId typeName id)) = none ↔
              RealId.shaped .collection id = true := by
            intro id typeName
            by_cases hs : RealId.shaped .collection id = true <;> simp [hs]
          simp only [hids]
          apply and_congr_left
          intro _
          cases root <;> simp [Definition.dataType]

/-- A schema in order that fixes only ids has no fault but that its root may lead to no struct. -/
theorem collectionFaults_of_shaped (hs : schema.checkStructure = .ok ())
    (hshaped : ∀ entry ∈ schema.fixedCollectionIds, RealId.shaped .collection entry.2 = true) :
    ∃ root, schema.resolvedRoot = .ok root ∧ schema.collectionFaults =
      .ok (if root.dataType = .struct then [] else [.rootNotStruct root.dataType]) := by
  obtain ⟨⟨start, hstart⟩, -⟩ := checkStructure_eq_ok_iff.1 hs
  obtain ⟨root, hroot⟩ := (sound_of_root hs hstart).exists_resolve
  have hresolved : schema.resolvedRoot = .ok root := by
    simp [resolvedRoot, hstart, hroot, bind, Except.bind]
  refine ⟨root, hresolved, ?_⟩
  simp only [collectionFaults, hs, hresolved, bind, Except.bind, pure, Except.pure]
  rw [List.filterMap_eq_nil_iff.2, List.append_nil]
  intro entry he
  simp [hshaped entry he]

/-- A schema without faults fixes only ids of collections. -/
theorem exists_id_of_faultless {schema : Schema} (h : schema.collectionFaults = .ok [])
    {entry : String × String} (he : entry ∈ schema.fixedCollectionIds) :
    ∃ id : CollectionId, entry.2 = id.text := by
  obtain ⟨-, -, hshaped⟩ := collectionFaults_eq_nil_iff.1 h
  exact ⟨⟨entry.2, hshaped entry he⟩, rfl⟩

end Schema

end ContentStore
