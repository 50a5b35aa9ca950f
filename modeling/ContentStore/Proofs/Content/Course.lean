import ContentStore.Proofs.Content.Outcomes

/-!
# Walks up to an error

Along a schema that is not in order a walk may end in an error after it has come to some positions. Its
course keeps these positions, and the altered value keeps what a visitor left at them. A walk that no
error ends gives its course, or the altered value.
-/

namespace ContentStore

/-! ## Courses -/

/-- The course of a walk: what it visits, in order, and the error that ends it, if one does. -/
structure Course where
  visits : List Visit
  error? : Option StructureError := none

namespace Course

def result (course : Course) : Except StructureError (List Visit) :=
  match course.error? with
  | none => .ok course.visits
  | some e => .error e

def under (segment : Segment) (course : Course) : Course :=
  { course with visits := course.visits.map (Visit.under segment) }

def andThen (first second : Course) : Course :=
  match first.error? with
  | none => { second with visits := first.visits ++ second.visits }
  | some _ => first

/-- The course of a walk that goes on from a definition, if there is one. -/
def ofResolved (resolved : Except StructureError Definition) (next : Definition → Course) : Course :=
  match resolved with
  | .error e => { visits := [], error? := some e }
  | .ok target => next target

def join : List Course → Course
  | [] => { visits := [] }
  | first :: rest => first.andThen (join rest)

theorem result_under (segment : Segment) (course : Course) :
    (course.under segment).result = course.result.map (List.map (Visit.under segment)) := by
  obtain ⟨visits, error?⟩ := course
  cases error? <;> rfl

theorem result_andThen (first second : Course) : (first.andThen second).result =
    first.result.bind fun here => second.result.map (here ++ ·) := by
  obtain ⟨visits, error?⟩ := first
  obtain ⟨others, last?⟩ := second
  cases error? <;> cases last? <;> rfl

theorem result_join (courses : List Course) :
    (join courses).result = gather (courses.map result) := by
  induction courses with
  | nil => rfl
  | cons first rest ih => rw [join, result_andThen, List.map_cons, gather_cons_eq_bind, ih]

/-- What is visited one after another are the visits of all courses, up to some of them. -/
theorem prefix_join (courses : List Course) :
    (join courses).visits <+: courses.flatMap visits := by
  induction courses with
  | nil => exact List.prefix_refl _
  | cons first rest ih =>
      unfold join andThen
      rw [List.flatMap_cons]
      split
      · exact List.prefix_append_right_inj _ |>.2 ih
      · exact List.prefix_append _ _

end Course

namespace Schema

mutual

/-- The course of a walk over a value. -/
def course (schema : Schema) : Json → Definition → Course
  | .null, _ => { visits := [] }
  | .object members, d =>
      match schema.resolve d with
      | .error e => { visits := [], error? := some e }
      | .ok (.struct properties _) =>
          let parts := memberCourses schema members
          .join (properties.map fun (key, d) =>
            match parts.lookup key with
            | none => { visits := [] }
            | some course => (course d).under (.name key))
      | .ok d => { visits := visitsHere d (.object members) }
  | .array items, d =>
      match schema.resolve d with
      | .error e => { visits := [], error? := some e }
      | .ok (.list element) =>
          .join ((itemCourses schema items).zipIdx.map fun (course, place) =>
            (course element).under (.index place))
      | .ok d => { visits := visitsHere d (.array items) }
  | value, d =>
      match schema.resolve d with
      | .error e => { visits := [], error? := some e }
      | .ok d => { visits := visitsHere d value }

def itemCourses (schema : Schema) : List Json → List (Definition → Course)
  | [] => []
  | item :: rest => course schema item :: itemCourses schema rest

def memberCourses (schema : Schema) : List (String × Json) → List (String × (Definition → Course))
  | [] => []
  | (key, value) :: rest => (key, course schema value) :: memberCourses schema rest

end

def contentCourse (schema : Schema) (content : Json) : Course :=
  match schema.root with
  | .error e => { visits := [], error? := some e }
  | .ok root => schema.course content root

end Schema

/-! ## Altered values -/

/-- What a changing walk leaves: the value, the visitor's last state, and the error that ended the walk,
if one did. -/
structure Altered (σ α : Type) where
  value : α
  state : σ
  error? : Option StructureError := none

namespace Altered

variable {σ α β : Type}

def result (altered : Altered σ α) : Except StructureError (α × σ) :=
  match altered.error? with
  | none => .ok (altered.value, altered.state)
  | some e => .error e

def map (f : α → β) (altered : Altered σ α) : Altered σ β :=
  { altered with value := f altered.value }

def proceed (part : Altered σ α) (whole : α → β) (next : α → σ → Altered σ β) : Altered σ β :=
  match part.error? with
  | none => next part.value part.state
  | some e => { value := whole part.value, state := part.state, error? := some e }

/-- What a walk leaves that goes on from a definition, if there is one. -/
def ofResolved (resolved : Except StructureError Definition) (value : α) (s : σ)
    (next : Definition → Altered σ α) : Altered σ α :=
  match resolved with
  | .error e => { value, state := s, error? := some e }
  | .ok target => next target

theorem result_map (f : α → β) (altered : Altered σ α) :
    (altered.map f).result = altered.result.map fun pair => (f pair.1, pair.2) := by
  obtain ⟨value, state, error?⟩ := altered
  cases error? <;> rfl

theorem result_proceed (part : Altered σ α) (whole : α → β) (next : α → σ → Altered σ β) :
    (part.proceed whole next).result = part.result.bind fun pair => (next pair.1 pair.2).result := by
  obtain ⟨value, state, error?⟩ := part
  cases error? <;> rfl

end Altered

namespace Schema

variable {σ : Type}

def alterHere (visitor : Visitor σ) (path : Path) (d : Definition) (value : Json) (s : σ) :
    Altered σ Json :=
  if d.isVisited then
    { value := (visitor ⟨d, path.reverse, value⟩ s).1, state := (visitor ⟨d, path.reverse, value⟩ s).2 }
  else { value, state := s }

/-- The alteration of one part of a value: from the way to it and its definition. -/
abbrev PartAlteration (σ : Type) := Path → Definition → σ → Altered σ Json

def alterProperties (path : Path) (parts : List (String × PartAlteration σ)) :
    List (String × Definition) → List (String × Json) → σ → Altered σ (List (String × Json))
  | [], members, s => { value := members, state := s }
  | (key, d) :: rest, members, s =>
      match parts.lookup key with
      | none => alterProperties path parts rest members s
      | some alter =>
          (alter (.name key :: path) d s).proceed (Json.setMember key · members) fun value s =>
            alterProperties path parts rest (Json.setMember key value members) s

/-- Alters all items of a list, from the place of the first; the items come with their alterations. -/
def alterItems (path : Path) (element : Definition) :
    Nat → List (Json × PartAlteration σ) → σ → Altered σ (List Json)
  | _, [], s => { value := [], state := s }
  | place, (_, alter) :: rest, s =>
      (alter (.index place :: path) element s).proceed (· :: rest.map Prod.fst) fun item s =>
        (alterItems path element (place + 1) rest s).map (item :: ·)

mutual

/-- The changing walk over a value, with what it leaves where an error ends it. -/
def alter (schema : Schema) (visitor : Visitor σ) : Json → PartAlteration σ
  | .null, _, _, s => { value := .null, state := s }
  | .object members, path, d, s =>
      match schema.resolve d with
      | .error e => { value := .object members, state := s, error? := some e }
      | .ok (.struct properties _) =>
          (alterProperties path (memberAlterations schema visitor members) properties members s).map
            .object
      | .ok d => alterHere visitor path d (.object members) s
  | .array items, path, d, s =>
      match schema.resolve d with
      | .error e => { value := .array items, state := s, error? := some e }
      | .ok (.list element) =>
          (alterItems path element 0 (itemAlterations schema visitor items) s).map .array
      | .ok d => alterHere visitor path d (.array items) s
  | value, path, d, s =>
      match schema.resolve d with
      | .error e => { value, state := s, error? := some e }
      | .ok d => alterHere visitor path d value s

def itemAlterations (schema : Schema) (visitor : Visitor σ) :
    List Json → List (Json × PartAlteration σ)
  | [] => []
  | item :: rest => (item, alter schema visitor item) :: itemAlterations schema visitor rest

def memberAlterations (schema : Schema) (visitor : Visitor σ) :
    List (String × Json) → List (String × PartAlteration σ)
  | [] => []
  | (key, value) :: rest => (key, alter schema visitor value) :: memberAlterations schema visitor rest

end

/-- Content after a changing walk, also after one that an error ended. -/
def alterContent (schema : Schema) (visitor : Visitor σ) (content : Json) (s : σ) : Altered σ Json :=
  match schema.root with
  | .error e => { value := content, state := s, error? := some e }
  | .ok root => schema.alter visitor content [] root s

/-! ## The walks, case by case -/

variable {schema : Schema} {d target : Definition} {value : Json}

theorem memberCourses_eq_map (schema : Schema) (members : List (String × Json)) :
    schema.memberCourses members = members.map fun member => (member.1, schema.course member.2) := by
  induction members with
  | nil => rfl
  | cons member rest ih => simp [memberCourses, ih]

theorem itemCourses_eq_map (schema : Schema) (items : List Json) :
    schema.itemCourses items = items.map schema.course := by
  induction items with
  | nil => rfl
  | cons item rest ih => simp [itemCourses, ih]

def propertyCourse (schema : Schema) (members : List (String × Json)) (property : String × Definition) :
    Course :=
  match members.lookup property.1 with
  | none => { visits := [] }
  | some value => (schema.course value property.2).under (.name property.1)

@[simp] theorem course_null (schema : Schema) (d : Definition) :
    schema.course .null d = { visits := [] } := rfl

/-- The course of a value that is not null, from what its definition leads to. -/
def courseInto (schema : Schema) : Json → Definition → Course
  | .object members, .struct properties _ => .join (properties.map (schema.propertyCourse members))
  | .array items, .list element =>
      .join (items.zipIdx.map fun item => (schema.course item.1 element).under (.index item.2))
  | value, d => { visits := visitsHere d value }

theorem course_of_ne_null (hn : value ≠ .null) (d : Definition) :
    schema.course value d = .ofResolved (schema.resolve d) (schema.courseInto value) := by
  cases value with
  | null => exact absurd rfl hn
  | object members =>
      have hlookup : ∀ key, (schema.memberCourses members).lookup key =
          (members.lookup key).map schema.course := by
        intro key
        rw [memberCourses_eq_map, Entries.lookup_map fun _ => schema.course]
      simp only [course]
      cases schema.resolve d with
      | error e => rfl
      | ok target =>
          cases target with
          | struct properties nullable =>
              refine congrArg Course.join (List.map_congr_left fun property _ => ?_)
              simp only [hlookup, propertyCourse]
              cases members.lookup property.1 <;> rfl
          | _ => rfl
  | array items =>
      simp only [course, itemCourses_eq_map, List.zipIdx_map, List.map_map]
      cases schema.resolve d with
      | error e => rfl
      | ok target => cases target <;> rfl
  | _ =>
      simp only [course]
      cases schema.resolve d with
      | error e => rfl
      | ok target => cases target <;> rfl

theorem course_struct {properties : List (String × Definition)} {nullable : SortedSet String}
    (h : schema.resolve d = .ok (.struct properties nullable)) (members : List (String × Json)) :
    schema.course (.object members) d = .join (properties.map (schema.propertyCourse members)) := by
  rw [course_of_ne_null (by simp), h]
  rfl

theorem course_list {element : Definition} (h : schema.resolve d = .ok (.list element))
    (items : List Json) :
    schema.course (.array items) d =
      .join (items.zipIdx.map fun item => (schema.course item.1 element).under (.index item.2)) := by
  rw [course_of_ne_null (by simp), h]
  rfl

theorem course_of_not_opens (h : schema.resolve d = .ok target) (ho : target.opens value = false)
    (hn : value ≠ .null) : schema.course value d = { visits := visitsHere target value } := by
  rw [course_of_ne_null hn, h]
  cases value <;> cases target <;> first | rfl | cases ho

theorem course_of_resolve_error {e : StructureError} (hr : schema.resolve d = .error e)
    (hn : value ≠ .null) : schema.course value d = { visits := [], error? := some e } := by
  rw [course_of_ne_null hn, hr]
  rfl

/-- The reading walk gives its course, unless an error ends it. -/
theorem visits_eq_result (schema : Schema) (value : Json) (d : Definition) :
    schema.visits value d = (schema.course value d).result := by
  induction value, d using schema.walkInduction with
  | null d => rw [visits_null, course_null, Course.result]
  | stuck d value e hn hr => rw [visits_of_resolve_error hr hn, course_of_resolve_error hr hn, Course.result]
  | stops d target value hn hr ho =>
      rw [visits_of_not_opens hr ho hn, course_of_not_opens hr ho hn, Course.result]
  | list d element items hr ih =>
      rw [visits_list hr, course_list hr, Course.result_join, List.map_map]
      congr 1
      refine List.map_congr_left fun item hitem => ?_
      rw [Function.comp_apply, Course.result_under, placeVisits,
        ih item.1 (List.fst_mem_of_mem_zipIdx hitem)]
  | struct d properties nullable members hr ih =>
      rw [visits_struct hr, course_struct hr, Course.result_join, List.map_map]
      congr 1
      refine List.map_congr_left fun property hp => ?_
      rw [Function.comp_apply, propertyVisits, propertyCourse]
      cases hl : members.lookup property.1 with
      | none => rfl
      | some part =>
          simp only
          rw [Course.result_under, ih property.1 property.2 part hp hl]

theorem visitContent_eq_result (schema : Schema) (content : Json) :
    schema.visitContent content = (schema.contentCourse content).result := by
  rw [visitContent_eq]
  unfold contentCourse
  cases schema.root with
  | error e => rfl
  | ok root => exact schema.visits_eq_result content root

/-! ## The changing walk, case by case -/

variable {visitor : Visitor σ} {path : Path}

theorem memberAlterations_eq_map (schema : Schema) (visitor : Visitor σ)
    (members : List (String × Json)) : schema.memberAlterations visitor members =
      members.map fun member => (member.1, schema.alter visitor member.2) := by
  induction members with
  | nil => rfl
  | cons member rest ih => simp [memberAlterations, ih]

theorem lookup_memberAlterations (schema : Schema) (visitor : Visitor σ) (key : String)
    (members : List (String × Json)) : (schema.memberAlterations visitor members).lookup key =
      (members.lookup key).map (schema.alter visitor) := by
  rw [memberAlterations_eq_map, Entries.lookup_map fun _ => schema.alter visitor]

theorem itemAlterations_eq_map (schema : Schema) (visitor : Visitor σ) (items : List Json) :
    schema.itemAlterations visitor items = items.map fun item => (item, schema.alter visitor item) := by
  induction items with
  | nil => rfl
  | cons item rest ih => simp [itemAlterations, ih]

@[simp] theorem alter_null (schema : Schema) (visitor : Visitor σ) (path : Path) (d : Definition)
    (s : σ) : schema.alter visitor .null path d s = { value := .null, state := s } := rfl

/-- The alteration of a value that is not null, from what its definition leads to. -/
def alterInto (schema : Schema) (visitor : Visitor σ) (path : Path) :
    Json → Definition → σ → Altered σ Json
  | .object members, .struct properties _, s =>
      (alterProperties path (schema.memberAlterations visitor members) properties members s).map .object
  | .array items, .list element, s =>
      (alterItems path element 0 (schema.itemAlterations visitor items) s).map .array
  | value, d, s => alterHere visitor path d value s

theorem alter_of_ne_null (hn : value ≠ .null) (path : Path) (d : Definition) (s : σ) :
    schema.alter visitor value path d s =
      .ofResolved (schema.resolve d) value s (schema.alterInto visitor path value · s) := by
  cases value with
  | null => exact absurd rfl hn
  | _ =>
      simp only [alter]
      cases schema.resolve d with
      | error e => rfl
      | ok target => cases target <;> rfl

theorem alter_struct {properties : List (String × Definition)} {nullable : SortedSet String}
    (h : schema.resolve d = .ok (.struct properties nullable)) (members : List (String × Json)) (s : σ) :
    schema.alter visitor (.object members) path d s =
      (alterProperties path (schema.memberAlterations visitor members) properties members s).map
        .object := by
  rw [alter_of_ne_null (by simp), h]
  rfl

theorem alter_list {element : Definition} (h : schema.resolve d = .ok (.list element))
    (items : List Json) (s : σ) :
    schema.alter visitor (.array items) path d s =
      (alterItems path element 0 (schema.itemAlterations visitor items) s).map .array := by
  rw [alter_of_ne_null (by simp), h]
  rfl

theorem alter_of_not_opens (h : schema.resolve d = .ok target) (ho : target.opens value = false)
    (hn : value ≠ .null) (s : σ) :
    schema.alter visitor value path d s = alterHere visitor path target value s := by
  rw [alter_of_ne_null hn, h]
  cases value <;> cases target <;> first | rfl | cases ho

theorem alter_of_resolve_error {e : StructureError} (hr : schema.resolve d = .error e)
    (hn : value ≠ .null) (s : σ) :
    schema.alter visitor value path d s = { value, state := s, error? := some e } := by
  rw [alter_of_ne_null hn, hr]
  rfl

theorem changeHereAt_eq_result (visitor : Visitor σ) (path : Path) (d : Definition) (value : Json) (s : σ) :
    changeHereAt visitor path d value s = (alterHere visitor path d value s).result := by
  unfold changeHereAt alterHere
  split <;> rfl

theorem changePropertiesAt_eq_result {members : List (String × Json)}
    {properties : List (String × Definition)}
    (hparts : ∀ key part value, (key, part) ∈ properties → members.lookup key = some value →
      ∀ (path : Path) (s : σ),
        schema.changeAt visitor value path part s = (schema.alter visitor value path part s).result)
    (current : List (String × Json)) (s : σ) :
    changePropertiesAt path (schema.memberChangesAt visitor members) properties current s =
      (alterProperties path (schema.memberAlterations visitor members) properties current s).result := by
  induction properties generalizing current s with
  | nil => rfl
  | cons property rest ih =>
      obtain ⟨key, part⟩ := property
      have hrest := ih fun key part value hp => hparts key part value (List.mem_cons_of_mem _ hp)
      simp only [changePropertiesAt, alterProperties, lookup_memberChangesAt, lookup_memberAlterations]
      cases hl : members.lookup key with
      | none => exact hrest current s
      | some value =>
          simp only [Option.map_some]
          rw [change_bind_eq, Altered.result_proceed, hparts key part value (by simp) hl]
          congr 1
          funext pair
          exact hrest _ _

theorem changeItemsAt_eq_result {element : Definition} {items : List Json}
    (hitems : ∀ item ∈ items, ∀ (path : Path) (s : σ),
      schema.changeAt visitor item path element s = (schema.alter visitor item path element s).result)
    (place : Nat) (s : σ) :
    changeItemsAt path element place (schema.itemChangesAt visitor items) s =
      (alterItems path element place (schema.itemAlterations visitor items) s).result := by
  induction items generalizing place s with
  | nil => rfl
  | cons item rest ih =>
      have hrest := ih fun item hitem => hitems item (List.mem_cons_of_mem _ hitem)
      rw [itemChangesAt, itemAlterations, changeItemsAt, alterItems, change_bind_eq, Altered.result_proceed,
        hitems item (by simp)]
      congr 1
      funext pair
      rw [change_bind_eq, Altered.result_map, hrest]
      rfl

/-- The changing walk gives the altered value, unless an error ends it. -/
theorem changeAt_eq_result (schema : Schema) (visitor : Visitor σ) (value : Json) (path : Path)
    (d : Definition) (s : σ) :
    schema.changeAt visitor value path d s = (schema.alter visitor value path d s).result := by
  induction value, d using schema.walkInduction generalizing path s with
  | null d => rw [alter_null, changeAt]; rfl
  | stuck d value e hn hr => rw [changeAt_of_resolve_error hr hn, alter_of_resolve_error hr hn, Altered.result]
  | stops d target value hn hr ho =>
      rw [changeAt_of_not_opens hr ho hn, alter_of_not_opens hr ho hn, changeHereAt_eq_result]
  | list d element items hr ih =>
      rw [changeAt_list hr, alter_list hr, Altered.result_map, ← itemChangesAt_eq_map,
        changeItemsAt_eq_result fun item hitem path s => ih item hitem path s]
  | struct d properties nullable members hr ih =>
      rw [changeAt_struct hr, alter_struct hr, Altered.result_map,
        changePropertiesAt_eq_result fun key part value hp hl path s => ih key part value hp hl path s]

theorem changeContent_eq_result (schema : Schema) (visitor : Visitor σ) (content : Json) (s : σ) :
    schema.changeContent visitor content s = (schema.alterContent visitor content s).result := by
  unfold alterContent
  cases hroot : schema.root with
  | error e => rw [changeContent_of_root_error hroot, Altered.result]
  | ok root => rw [changeContent_eq hroot, changeAt_eq_result]

end Schema

end ContentStore
