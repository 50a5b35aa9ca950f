import ContentStore.Content.Walk
import ContentStore.Proofs.Content.Trail
import ContentStore.Proofs.Schema.Structure

/-!
# What a reading walk visits

The visits of a value are read off part by part. A walk over a value, wherever it stands and whatever it
has gathered, calls its observer at exactly these visits, in order and with the way to the value put in
front, and comes back to where it stood.
-/

namespace ContentStore

def Definition.opens : Definition → Json → Bool
  | .struct _ _, .object _ => true
  | .list _, .array _ => true
  | _, _ => false

theorem Definition.opens_of_isVisited {d : Definition} (h : d.isVisited = true) (value : Json) :
    d.opens value = false := by
  cases d <;> first | rfl | simp [isVisited] at h

theorem Definition.eq_struct_of_opens {d : Definition} {members : List (String × Json)}
    (h : d.opens (.object members) = true) :
    ∃ properties nullable, d = .struct properties nullable := by
  cases d with
  | struct properties nullable => exact ⟨properties, nullable, rfl⟩
  | _ => cases h

theorem Definition.eq_list_of_opens {d : Definition} {items : List Json}
    (h : d.opens (.array items) = true) : ∃ element, d = .list element := by
  cases d with
  | list element => exact ⟨element, rfl⟩
  | _ => cases h

def Visit.under (segment : Segment) (visit : Visit) : Visit :=
  { visit with path := segment :: visit.path }

def Visit.below (path : Path) (visit : Visit) : Visit :=
  { visit with path := path ++ visit.path }

@[simp] theorem Visit.below_nil (visit : Visit) : visit.below [] = visit := rfl

theorem Visit.below_below (path way : Path) (visit : Visit) :
    (visit.below way).below path = visit.below (path ++ way) := by
  simp [below]

namespace Schema

variable {schema : Schema} {d : Definition}

/-- Induction over a value as a walk comes through it, along a schema that need not be in order. -/
@[elab_as_elim]
theorem walkInduction (schema : Schema) {motive : Json → Definition → Prop} (null : ∀ d, motive .null d)
    (stuck : ∀ d value e, value ≠ .null → schema.resolve d = .error e → motive value d)
    (stops : ∀ d target value, value ≠ .null → schema.resolve d = .ok target →
      target.opens value = false → motive value d)
    (list : ∀ d element items, schema.resolve d = .ok (.list element) →
      (∀ item ∈ items, motive item element) → motive (.array items) d)
    (struct : ∀ d properties nullable members,
      schema.resolve d = .ok (.struct properties nullable) →
      (∀ key part value, (key, part) ∈ properties → members.lookup key = some value →
        motive value part) → motive (.object members) d)
    (value : Json) (d : Definition) : motive value d := by
  induction value using Json.treeInduction generalizing d with
  | null => exact null d
  | array items ih =>
      cases hr : schema.resolve d with
      | error e => exact stuck d _ e (by simp) hr
      | ok target =>
          cases ho : target.opens (.array items) with
          | false => exact stops d target _ (by simp) hr ho
          | true =>
              obtain ⟨element, rfl⟩ := Definition.eq_list_of_opens ho
              exact list d element items hr fun item hitem => ih item hitem element
  | object members ih =>
      cases hr : schema.resolve d with
      | error e => exact stuck d _ e (by simp) hr
      | ok target =>
          cases ho : target.opens (.object members) with
          | false => exact stops d target _ (by simp) hr ho
          | true =>
              obtain ⟨properties, nullable, rfl⟩ := Definition.eq_struct_of_opens ho
              exact struct d properties nullable members hr fun key part value _ hl =>
                ih (key, value) (Entries.mem_of_lookup hl) part
  | _ =>
      cases hr : schema.resolve d with
      | error e => exact stuck d _ e (by simp) hr
      | ok target => exact stops d target _ (by simp) hr (by cases target <;> rfl)

def visitsHere (d : Definition) (value : Json) : List Visit :=
  if d.isVisited then [⟨d, [], value⟩] else []

mutual

/-- The visits of a walk over a value, in order. -/
def visits (schema : Schema) : Json → Definition → Except StructureError (List Visit)
  | .null, _ => .ok []
  | .object members, d => do
      match ← schema.resolve d with
      | .struct properties _ =>
          let parts := memberVisits schema members
          gather (properties.map fun (key, d) =>
            match parts.lookup key with
            | none => .ok []
            | some visits => (visits d).map (List.map (Visit.under (.name key))))
      | d => return visitsHere d (.object members)
  | .array items, d => do
      match ← schema.resolve d with
      | .list element =>
          gather ((itemVisits schema items).zipIdx.map fun (visits, place) =>
            (visits element).map (List.map (Visit.under (.index place))))
      | d => return visitsHere d (.array items)
  | value, d => do return visitsHere (← schema.resolve d) value

def itemVisits (schema : Schema) :
    List Json → List (Definition → Except StructureError (List Visit))
  | [] => []
  | item :: rest => visits schema item :: itemVisits schema rest

def memberVisits (schema : Schema) :
    List (String × Json) → List (String × (Definition → Except StructureError (List Visit)))
  | [] => []
  | (key, value) :: rest => (key, visits schema value) :: memberVisits schema rest

end

theorem memberVisits_eq_map (schema : Schema) (members : List (String × Json)) :
    schema.memberVisits members = members.map fun member => (member.1, schema.visits member.2) := by
  induction members with
  | nil => rfl
  | cons member rest ih => simp [memberVisits, ih]

theorem itemVisits_eq_map (schema : Schema) (items : List Json) :
    schema.itemVisits items = items.map schema.visits := by
  induction items with
  | nil => rfl
  | cons item rest ih => simp [itemVisits, ih]

@[simp] theorem visits_null (schema : Schema) (d : Definition) : schema.visits .null d = .ok [] := rfl

def propertyVisits (schema : Schema) (members : List (String × Json)) (property : String × Definition) :
    Except StructureError (List Visit) :=
  match members.lookup property.1 with
  | none => .ok []
  | some value => (schema.visits value property.2).map (List.map (Visit.under (.name property.1)))

def placeVisits (schema : Schema) (element : Definition) (item : Json × Nat) :
    Except StructureError (List Visit) :=
  (schema.visits item.1 element).map (List.map (Visit.under (.index item.2)))

/-- The visits of a value that is not null, from what its definition leads to. -/
def visitsInto (schema : Schema) : Json → Definition → Except StructureError (List Visit)
  | .object members, .struct properties _ => gather (properties.map (schema.propertyVisits members))
  | .array items, .list element => gather (items.zipIdx.map (schema.placeVisits element))
  | value, d => .ok (visitsHere d value)

theorem visits_of_ne_null {value : Json} (hn : value ≠ .null) (d : Definition) :
    schema.visits value d = (schema.resolve d).bind (schema.visitsInto value) := by
  cases value with
  | null => exact absurd rfl hn
  | object members =>
      have hlookup : ∀ key, (schema.memberVisits members).lookup key =
          (members.lookup key).map schema.visits := by
        intro key
        rw [memberVisits_eq_map, Entries.lookup_map fun _ => schema.visits]
      simp only [visits]
      refine congrArg (Except.bind _) (funext fun target => ?_)
      cases target with
      | struct properties nullable =>
          refine congrArg gather (List.map_congr_left fun property _ => ?_)
          simp only [hlookup, propertyVisits]
          cases members.lookup property.1 <;> rfl
      | _ => rfl
  | array items =>
      simp only [visits, itemVisits_eq_map, List.zipIdx_map, List.map_map]
      refine congrArg (Except.bind _) (funext fun target => ?_)
      cases target <;> rfl
  | _ =>
      simp only [visits]
      refine congrArg (Except.bind _) (funext fun target => ?_)
      cases target <;> rfl

theorem visits_struct {properties : List (String × Definition)} {nullable : SortedSet String}
    (h : schema.resolve d = .ok (.struct properties nullable)) (members : List (String × Json)) :
    schema.visits (.object members) d = gather (properties.map (schema.propertyVisits members)) := by
  rw [visits_of_ne_null (by simp), h]
  rfl

theorem visits_list {element : Definition} (h : schema.resolve d = .ok (.list element))
    (items : List Json) :
    schema.visits (.array items) d = gather (items.zipIdx.map (schema.placeVisits element)) := by
  rw [visits_of_ne_null (by simp), h]
  rfl

theorem visits_of_not_opens {target : Definition} {value : Json} (h : schema.resolve d = .ok target)
    (ho : target.opens value = false) (hn : value ≠ .null) :
    schema.visits value d = .ok (visitsHere target value) := by
  rw [visits_of_ne_null hn, h]
  cases value <;> cases target <;> first | rfl | cases ho

theorem visits_visited {target : Definition} {value : Json} (h : schema.resolve d = .ok target)
    (hv : target.isVisited = true) (hn : value ≠ .null) :
    schema.visits value d = .ok [⟨target, [], value⟩] := by
  rw [visits_of_not_opens h (Definition.opens_of_isVisited hv value) hn]
  simp [visitsHere, hv]

theorem visits_of_resolve_error {value : Json} {e : StructureError} (hr : schema.resolve d = .error e)
    (hn : value ≠ .null) : schema.visits value d = .error e := by
  rw [visits_of_ne_null hn, hr]
  rfl

theorem exists_resolve_of_visits {value : Json} {found : List Visit} (hn : value ≠ .null)
    (h : schema.visits value d = .ok found) : ∃ target, schema.resolve d = .ok target := by
  cases hr : schema.resolve d with
  | ok target => exact ⟨target, rfl⟩
  | error e =>
      rw [visits_of_resolve_error hr hn] at h
      cases h

/-! ### Walks, part by part -/

variable {σ : Type} {observe : Observer σ} {value : Json}

theorem memberWalks_eq_map (schema : Schema) (observe : Observer σ) (members : List (String × Json)) :
    schema.memberWalks observe members =
      members.map fun member => (member.1, schema.walk observe member.2) := by
  induction members with
  | nil => rfl
  | cons member rest ih => simp [memberWalks, ih]

theorem itemWalks_eq_map (schema : Schema) (observe : Observer σ) (items : List Json) :
    schema.itemWalks observe items = items.map (schema.walk observe) := by
  induction items with
  | nil => rfl
  | cons item rest ih => simp [itemWalks, ih]

def propertyWalk (schema : Schema) (observe : Observer σ) (members : List (String × Json))
    (property : String × Definition) : Traversal σ Unit :=
  match members.lookup property.1 with
  | none => pure ()
  | some value => Traversal.inside (.name property.1) (schema.walk observe value property.2)

/-- The walk of a value that is not null, from what its definition leads to. -/
def walkInto (schema : Schema) (observe : Observer σ) : Json → Definition → Traversal σ Unit
  | .object members, .struct properties _ => properties.forM (schema.propertyWalk observe members)
  | .array items, .list element => items.zipIdx.forM fun item =>
      Traversal.inside (.index item.2) (schema.walk observe item.1 element)
  | value, d => walkHere observe d value

theorem walk_of_ne_null (hn : value ≠ .null) (d : Definition) :
    schema.walk observe value d = (do schema.walkInto observe value (← schema.resolve d)) := by
  cases value with
  | null => exact absurd rfl hn
  | object members =>
      have hlookup : ∀ key, (schema.memberWalks observe members).lookup key =
          (members.lookup key).map (schema.walk observe) := by
        intro key
        rw [memberWalks_eq_map, Entries.lookup_map fun _ => schema.walk observe]
      simp only [walk]
      refine congrArg (_ >>= ·) (funext fun target => ?_)
      cases target with
      | struct properties nullable =>
          refine congrArg (properties.forM ·) (funext fun property => ?_)
          simp only [hlookup, propertyWalk]
          cases members.lookup property.1 <;> rfl
      | _ => rfl
  | array items =>
      simp only [walk, itemWalks_eq_map]
      refine congrArg (_ >>= ·) (funext fun target => ?_)
      cases target with
      | list element =>
          show walkItems (items.map (schema.walk observe)) element = _
          rw [walkItems, List.zipIdx_map, List.forM_eq_forM, List.forM_map]
          rfl
      | _ => rfl
  | _ =>
      simp only [walk]
      refine congrArg (_ >>= ·) (funext fun target => ?_)
      cases target <;> rfl

theorem walk_struct {properties : List (String × Definition)} {nullable : SortedSet String}
    (h : schema.resolve d = .ok (.struct properties nullable)) (members : List (String × Json)) :
    schema.walk observe (.object members) d =
      properties.forM (schema.propertyWalk observe members) := by
  rw [walk_of_ne_null (by simp), h]
  rfl

theorem walk_list {element : Definition} (h : schema.resolve d = .ok (.list element))
    (items : List Json) :
    schema.walk observe (.array items) d = items.zipIdx.forM fun item =>
      Traversal.inside (.index item.2) (schema.walk observe item.1 element) := by
  rw [walk_of_ne_null (by simp), h]
  rfl

theorem walk_of_not_opens {target : Definition} (h : schema.resolve d = .ok target)
    (ho : target.opens value = false) (hn : value ≠ .null) :
    schema.walk observe value d = walkHere observe target value := by
  rw [walk_of_ne_null hn, h]
  cases value <;> cases target <;> first | rfl | cases ho

theorem walk_of_resolve_error {e : StructureError} (h : schema.resolve d = .error e)
    (hn : value ≠ .null) (trail : Trail σ) : schema.walk observe value d trail = .error e := by
  rw [walk_of_ne_null hn, h]
  rfl

theorem finds_walkHere (observe : Observer σ) (d : Definition) (value : Json) :
    Traversal.Finds observe Visit.below (walkHere observe d value) (.ok (visitsHere d value)) := by
  unfold walkHere visitsHere
  by_cases h : d.isVisited = true
  · rw [if_pos h, if_pos h]
    exact Traversal.finds_gatherHere fun path => by simp [Visit.below]
  · rw [if_neg h, if_neg h]
    exact Traversal.finds_pure

/-- A walk over a value calls its observer at the visits of the value. -/
theorem finds_walk (schema : Schema) (observe : Observer σ) (value : Json) (d : Definition) :
    Traversal.Finds observe Visit.below (schema.walk observe value d) (schema.visits value d) := by
  have hbelow : ∀ (path : Path) (segment : Segment) (visit : Visit),
      (visit.below [segment]).below path = visit.below (path ++ [segment]) :=
    fun path segment visit => visit.below_below path [segment]
  induction value, d using schema.walkInduction with
  | null d =>
      rw [visits_null, walk]
      exact Traversal.finds_pure
  | stuck d value e hn hr =>
      rw [visits_of_resolve_error hr hn]
      exact walk_of_resolve_error hr hn
  | stops d target value hn hr ho =>
      rw [visits_of_not_opens hr ho hn, walk_of_not_opens hr ho hn]
      exact finds_walkHere observe target value
  | list d element items hr ih =>
      rw [visits_list hr, walk_list hr]
      refine Traversal.finds_forM fun item hitem => ?_
      exact (ih item.1 (List.fst_mem_of_mem_zipIdx hitem)).inside hbelow (.index item.2)
  | struct d properties nullable members hr ih =>
      rw [visits_struct hr, walk_struct hr]
      refine Traversal.finds_forM fun property hp => ?_
      unfold propertyWalk propertyVisits
      cases hl : members.lookup property.1 with
      | none => exact Traversal.finds_pure
      | some part => exact (ih property.1 property.2 part hp hl).inside hbelow (.name property.1)

/-- Any observer is called at the visits of the content, in order. -/
theorem walkContent_eq (schema : Schema) (observe : Observer σ) (content : Json) (start : σ) :
    schema.walkContent observe content start =
      (schema.root.bind (schema.visits content)).map fun found =>
        found.foldl (fun s visit => observe visit s) start := by
  unfold walkContent
  cases schema.root with
  | error e => rfl
  | ok root => exact (finds_walk schema observe content root).fromRoot Visit.below_nil start

theorem visitContent_eq (schema : Schema) (content : Json) :
    schema.visitContent content = schema.root.bind (schema.visits content) := by
  rw [visitContent, walkContent_eq]
  simp only [foldl_append_single, List.nil_append]
  cases schema.root.bind (schema.visits content) <;> rfl

end Schema

end ContentStore
