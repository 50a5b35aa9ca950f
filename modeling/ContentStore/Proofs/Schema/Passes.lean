import ContentStore.Proofs.Content.Course
import ContentStore.Proofs.Content.Scanning
import ContentStore.Proofs.Schema.CollectionIds

/-!
# The passes over the collections that a schema fixes

One pass resolves proto ids, the other one the sign for the own collection. What a pass puts in is no
input for it, nor for the other one, so that either may be made again and both in any order. Nothing but
fixed collection ids is touched, and walks go the same ways as before.
-/

namespace ContentStore

namespace CollectionId

theorem orSelf_orSelf (own : CollectionId) (id : String) : own.orSelf (own.orSelf id) = own.orSelf id := by
  by_cases hself : id = selfCollection
  · rw [hself, orSelf_self, own.orSelf_of_ne own.text_ne_self]
  · rw [own.orSelf_of_ne hself, own.orSelf_of_ne hself]

/-- The two readings of an id do not meet: what one of them changes, the other one leaves. -/
theorem orSelf_resolve {mapping : IdMapping} (h : mapping.HoldsIds) (own : CollectionId) (id : String) :
    own.orSelf (mapping.resolve id) = mapping.resolve (own.orSelf id) := by
  by_cases hself : id = selfCollection
  · rw [hself, mapping.resolve_self, orSelf_self, mapping.resolve_id]
  · rw [own.orSelf_of_ne hself, own.orSelf_of_ne fun he => hself (mapping.resolve_eq_self h he)]

end CollectionId

/-! ## Schemas that differ in fixed collection ids -/

namespace Definition

mutual

/-- The definitions are the same but for the collection ids that document references fix; where one fixes
an id, so does the other, and the two are related. -/
def SameBut (r : String → String → Prop) : Definition → Definition → Prop
  | .struct properties nullable, .struct others nullable' =>
      SamePropertiesBut r properties others ∧ nullable' = nullable
  | .list items, .list others => items.SameBut r others
  | .documentRef (some id), .documentRef (some id') => r id id'
  | d, other => other = d

def SamePropertiesBut (r : String → String → Prop) :
    List (String × Definition) → List (String × Definition) → Prop
  | [], [] => True
  | (key, d) :: rest, (key', other) :: others =>
      key' = key ∧ d.SameBut r other ∧ SamePropertiesBut r rest others
  | _, _ => False

end

variable (f : String → String)

theorem samePropertiesBut_map {r : String → String → Prop} {g : Definition → Definition}
    {properties : List (String × Definition)} (h : ∀ property ∈ properties, property.2.SameBut r (g property.2)) :
    SamePropertiesBut r properties (properties.map fun property => (property.1, g property.2)) := by
  induction properties with
  | nil => trivial
  | cons property rest ih =>
      obtain ⟨hhere, hrest⟩ := List.forall_mem_cons.1 h
      exact ⟨rfl, hhere, ih hrest⟩

theorem sameBut_mapCollectionIds (d : Definition) :
    d.SameBut (fun id id' => id' = f id) (d.mapCollectionIds f) := by
  induction d using treeInduction with
  | leaf d hd =>
      cases d with
      | documentRef collection => cases collection <;> simp [mapCollectionIds, SameBut]
      | struct => cases hd
      | list => cases hd
      | _ => simp [mapCollectionIds, SameBut]
  | list items ih => simpa [mapCollectionIds, SameBut] using ih
  | struct properties nullable ih =>
      rw [mapCollectionIds, mapPropertyCollectionIds_eq_map, SameBut]
      exact ⟨samePropertiesBut_map ih, rfl⟩

end Definition

namespace Schema

/-- The schemas have the same root and the same types, but for the collection ids that they fix. -/
def SameBut (r : String → String → Prop) (schema other : Schema) : Prop :=
  Definition.SamePropertiesBut r schema.types.entries other.types.entries ∧
    other.rootType = schema.rootType

theorem sameBut_mapCollectionIds (schema : Schema) (f : String → String) :
    schema.SameBut (fun id id' => id' = f id) (schema.mapCollectionIds f) :=
  ⟨Definition.samePropertiesBut_map fun entry _ => Definition.sameBut_mapCollectionIds f entry.2, rfl⟩

end Schema

/-! ## Walks along a schema with other leaves -/

namespace Course

def paths (course : Course) : List Path :=
  course.visits.map Visit.path

def mapDefinitions (f : Definition → Definition) (course : Course) : Course :=
  { course with visits := course.visits.map fun visit => { visit with definition := f visit.definition } }

theorem paths_mapDefinitions (f : Definition → Definition) (course : Course) :
    (course.mapDefinitions f).paths = course.paths := by
  simp [paths, mapDefinitions, Function.comp_def]

theorem map_path_result {course other : Course} (hp : other.paths = course.paths)
    (he : other.error? = course.error?) :
    other.result.map (List.map Visit.path) = course.result.map (List.map Visit.path) := by
  unfold result
  rw [he]
  cases course.error? with
  | none => exact congrArg Except.ok hp
  | some e => rfl

theorem mapDefinitions_under (f : Definition → Definition) (segment : Segment) (course : Course) :
    (course.under segment).mapDefinitions f = (course.mapDefinitions f).under segment := by
  simp [under, mapDefinitions, Function.comp_def, Visit.under]

theorem mapDefinitions_join (f : Definition → Definition) (courses : List Course) :
    (join courses).mapDefinitions f = join (courses.map (mapDefinitions f)) := by
  induction courses with
  | nil => rfl
  | cons first rest ih =>
      rw [List.map_cons, join, join, ← ih]
      obtain ⟨visits, error?⟩ := first
      cases error? <;> simp [andThen, mapDefinitions]

end Course

namespace Schema

variable {schema : Schema} {f : Definition.LeafMap}

/-- A walk along a schema with other leaves takes the same course, with the leaves mapped. -/
theorem course_mapLeaves (value : Json) (d : Definition) :
    (schema.mapLeaves f).course value (d.mapLeaves f) =
      (schema.course value d).mapDefinitions (Definition.mapLeaves f) := by
  induction value, d using schema.walkInduction with
  | null d => simp [Course.mapDefinitions]
  | stuck d value e hn hr =>
      rw [course_of_resolve_error hr hn, course_of_resolve_error (resolve_mapLeaves_of_eq_error hr) hn]
      rfl
  | stops d target value hn hr ho =>
      have hclosed := (target.opens_mapLeaves f value).trans ho
      rw [course_of_not_opens hr ho hn, course_of_not_opens (resolve_mapLeaves_of_eq_ok hr) hclosed hn]
      unfold visitsHere
      rw [Definition.isVisited_mapLeaves]
      cases target.isVisited <;> rfl
  | list d element items hr ih =>
      have hmapped := resolve_mapLeaves_of_eq_ok (f := f) hr
      rw [course_list hr, course_list hmapped, Course.mapDefinitions_join, List.map_map]
      congr 1
      refine List.map_congr_left fun item hitem => ?_
      rw [Function.comp_apply, Course.mapDefinitions_under, ih item.1 (List.fst_mem_of_mem_zipIdx hitem)]
  | struct d properties nullable members hr ih =>
      have hmapped := resolve_mapLeaves_of_eq_ok (f := f) hr
      rw [course_struct hr, course_struct hmapped, Definition.mapPropertyLeaves_eq_map,
        Course.mapDefinitions_join, List.map_map, List.map_map]
      congr 1
      refine List.map_congr_left fun property hp => ?_
      simp only [Function.comp_apply, propertyCourse]
      cases hl : members.lookup property.1 with
      | none => rfl
      | some part =>
          rw [Course.mapDefinitions_under, ← ih property.1 property.2 part hp hl]

theorem contentCourse_mapLeaves (content : Json) :
    (schema.mapLeaves f).contentCourse content =
      (schema.contentCourse content).mapDefinitions (Definition.mapLeaves f) := by
  unfold contentCourse
  rw [root_mapLeaves]
  cases schema.root with
  | error e => rfl
  | ok root => exact course_mapLeaves content root

/-- The schemas are found in order alike, and walks along them come to the same places in the same order
and end alike. -/
structure WalksAlike (schema other : Schema) : Prop where
  checkStructure : other.checkStructure = schema.checkStructure
  paths : ∀ content, (other.contentCourse content).paths = (schema.contentCourse content).paths
  errors : ∀ content, (other.contentCourse content).error? = (schema.contentCourse content).error?
  visits : ∀ content, (other.visitContent content).map (List.map Visit.path) =
    (schema.visitContent content).map (List.map Visit.path)

theorem walksAlike_mapCollectionIds (schema : Schema) (f : String → String) :
    schema.WalksAlike (schema.mapCollectionIds f) := by
  have hcourse := fun content => schema.contentCourse_mapLeaves (f := .ofCollectionIds f) content
  rw [mapCollectionIds_eq_mapLeaves]
  refine ⟨checkStructure_mapLeaves, fun content => ?_, fun content => ?_, fun content => ?_⟩
  · rw [hcourse, Course.paths_mapDefinitions]
  · rw [hcourse]
    rfl
  · rw [visitContent_eq_result, visitContent_eq_result, hcourse]
    exact Course.map_path_result (Course.paths_mapDefinitions _ _) rfl

/-! ## The laws of the passes -/

/-- Each of the two passes makes nothing more of what it gave, and they may change places. A pass touches
fixed collection ids alone: the types with their names, keys and refinements, the root and the outcome of
the structure check stay, and walks come to the same places. -/
theorem collection_passes (schema : Schema) {mapping : IdMapping} (h : mapping.HoldsIds)
    (own : CollectionId) :
    let resolved := schema.resolveCollections mapping
    let owned := schema.resolveSelf own
    resolved.resolveCollections mapping = resolved ∧
    owned.resolveSelf own = owned ∧
    resolved.resolveSelf own = owned.resolveCollections mapping ∧
    (schema.SameBut (fun id id' => id' = mapping.resolve id) resolved ∧ schema.WalksAlike resolved) ∧
    schema.SameBut (fun id id' => id' = if id = selfCollection then own.text else id) owned ∧
      schema.WalksAlike owned := by
  intro resolved owned
  have hresolved : mapping.resolve ∘ mapping.resolve = mapping.resolve :=
    funext (IdMapping.resolve_resolve h)
  have howned : own.orSelf ∘ own.orSelf = own.orSelf := funext own.orSelf_orSelf
  have hcomm : own.orSelf ∘ mapping.resolve = mapping.resolve ∘ own.orSelf :=
    funext (CollectionId.orSelf_resolve h own)
  refine ⟨?_, ?_, ?_, ⟨schema.sameBut_mapCollectionIds _, schema.walksAlike_mapCollectionIds _⟩,
    schema.sameBut_mapCollectionIds own.orSelf, schema.walksAlike_mapCollectionIds _⟩
  · exact (schema.mapCollectionIds_mapCollectionIds _ _).trans (congrArg schema.mapCollectionIds hresolved)
  · exact (schema.mapCollectionIds_mapCollectionIds _ _).trans (congrArg schema.mapCollectionIds howned)
  · calc resolved.resolveSelf own
        = schema.mapCollectionIds (own.orSelf ∘ mapping.resolve) :=
          schema.mapCollectionIds_mapCollectionIds _ _
      _ = schema.mapCollectionIds (mapping.resolve ∘ own.orSelf) := by rw [hcomm]
      _ = owned.resolveCollections mapping := (schema.mapCollectionIds_mapCollectionIds _ _).symm

/-- Books may continue other ones, have authors and stand on a shelf. -/
def books : Schema :=
  Schema.ofTypes "Book" [
    ("Book", ⟨.struct [("authors", .list (.documentRef (some "ProtoCollection_0"))),
        ("continues", .documentRef (some selfCollection)),
        ("shelf", .documentRef (some "ProtoCollection_3"))] SortedMap.empty, by
      simp [Definition.DistinctKeys, Definition.DistinctPropertyKeys, Entries.keys]⟩)]

/-- Where the first collection alone is known, in either order of the passes the authors are looked for in
this collection and the continued book among the books. -/
theorem collection_passes_books :
    let mapping := @IdMapping.ofIds .collection [⟨"Collection_people", by decide⟩]
    let own : CollectionId := ⟨"Collection_books", by decide⟩
    let done := (books.resolveCollections mapping).resolveSelf own
    mapping.HoldsIds ∧
    done.fixedCollectionIds = [("Book", "Collection_people"), ("Book", "Collection_books"),
      ("Book", "ProtoCollection_3")] ∧
    done = (books.resolveSelf own).resolveCollections mapping ∧
    (books.resolveCollections mapping).resolveCollections mapping = books.resolveCollections mapping ∧
    (books.resolveSelf own).resolveSelf own = books.resolveSelf own := by
  intro mapping own done
  have hmapping : mapping.HoldsIds := IdMapping.holdsIds_ofIds _
  obtain ⟨hresolved, howned, hcomm, -, -⟩ := books.collection_passes hmapping own
  exact ⟨hmapping, by decide +kernel, hcomm, hresolved, howned⟩

end Schema

end ContentStore
