import ContentStore.Proofs.Content.Visits

/-!
# Changing walks from a place

A changing walk carries one path, as every traversal does. What it gives for a value depends on the way to
the value and on the visitor's state, and after the value it stands where it stood before. So the walk is
the same as one that is told its place and carries the visitor's state alone.
-/

namespace ContentStore

/-! ## Traversals that come back -/

namespace Traversal

variable {σ α β : Type}

/-- From every place, a traversal gives what an action gives there and comes back to its place. The action
is told the way to the place, last step first. -/
def Acts (t : Traversal σ α) (act : Path → StateT σ (Except StructureError) α) : Prop :=
  ∀ (path : Path) (s : σ),
    t ⟨path.reverse, s⟩ = (act path s).map fun result => (result.1, ⟨path.reverse, result.2⟩)

theorem acts_pure (a : α) : Acts (pure a : Traversal σ α) fun _ => pure a := fun _ _ => rfl

theorem acts_actHere (act : Path → σ → α × σ) :
    Acts (actHere act) fun path s => .ok (act path.reverse s) := fun _ _ => rfl

variable {t : Traversal σ α} {act : Path → StateT σ (Except StructureError) α}

theorem Acts.bind {next : α → Traversal σ β} {actNext : α → Path → StateT σ (Except StructureError) β}
    (h : Acts t act) (hnext : ∀ a, Acts (next a) (actNext a)) :
    Acts (t >>= next) fun path => act path >>= fun a => actNext a path := by
  intro path s
  show (t ⟨path.reverse, s⟩).bind (fun result => next result.1 result.2) =
    ((act path s).bind fun result => actNext result.1 path result.2).map _
  rw [h]
  cases act path s with
  | error e => rfl
  | ok result => exact hnext result.1 path result.2

theorem Acts.inside (h : Acts t act) (segment : Segment) :
    Acts (inside segment t) fun path => act (segment :: path) := by
  intro path s
  have hstep := h (segment :: path) s
  rw [List.reverse_cons] at hstep
  show ((t ⟨path.reverse ++ [segment], s⟩).bind fun result =>
    .ok (result.1, { result.2 with path := result.2.path.dropLast })) =
    (act (segment :: path) s).map _
  rw [hstep]
  cases act (segment :: path) s with
  | error e => rfl
  | ok result => simp [Except.map, Except.bind]

theorem Acts.fromRoot (h : Acts t act) (s : σ) : t.fromRoot s = act [] s := by
  have hroot := h [] s
  unfold Traversal.fromRoot StateT.run
  rw [List.reverse_nil] at hroot
  rw [hroot]
  cases act [] s <;> rfl

end Traversal

/-! ## The walk that is told its place -/

namespace Schema

variable {σ : Type}

abbrev Change (σ : Type) := StateT σ (Except StructureError)

/-- The change of one part of a value: from the way to it, last step first, and its definition. -/
abbrev PlacedChange (σ : Type) := Path → Definition → Change σ Json

def changeHereAt (visitor : Visitor σ) (path : Path) (d : Definition) (value : Json) : Change σ Json :=
  fun s =>
    if d.isVisited then .ok (visitor ⟨d, path.reverse, value⟩ s) else .ok (value, s)

def changePropertiesAt (path : Path) (parts : List (String × PlacedChange σ)) :
    List (String × Definition) → List (String × Json) → Change σ (List (String × Json))
  | [], members => pure members
  | (key, d) :: rest, members => do
      match parts.lookup key with
      | none => changePropertiesAt path parts rest members
      | some change =>
          let value ← change (.name key :: path) d
          changePropertiesAt path parts rest (Json.setMember key value members)

def changeItemsAt (path : Path) (element : Definition) :
    Nat → List (PlacedChange σ) → Change σ (List Json)
  | _, [] => pure []
  | place, change :: rest => do
      let item ← change (.index place :: path) element
      let items ← changeItemsAt path element (place + 1) rest
      return item :: items

mutual

/-- The changing walk over a value, from the way to the value. -/
def changeAt (schema : Schema) (visitor : Visitor σ) : Json → PlacedChange σ
  | .null, _, _ => pure .null
  | .object members, path, d => do
      match ← schema.resolve d with
      | .struct properties _ =>
          let members ←
            changePropertiesAt path (memberChangesAt schema visitor members) properties members
          return .object members
      | d => changeHereAt visitor path d (.object members)
  | .array items, path, d => do
      match ← schema.resolve d with
      | .list element =>
          let items ← changeItemsAt path element 0 (itemChangesAt schema visitor items)
          return .array items
      | d => changeHereAt visitor path d (.array items)
  | value, path, d => do changeHereAt visitor path (← schema.resolve d) value

def itemChangesAt (schema : Schema) (visitor : Visitor σ) : List Json → List (PlacedChange σ)
  | [] => []
  | item :: rest => changeAt schema visitor item :: itemChangesAt schema visitor rest

def memberChangesAt (schema : Schema) (visitor : Visitor σ) :
    List (String × Json) → List (String × PlacedChange σ)
  | [] => []
  | (key, value) :: rest => (key, changeAt schema visitor value) :: memberChangesAt schema visitor rest

end

variable {schema : Schema} {d : Definition} {visitor : Visitor σ} {path : Path}

theorem memberChangesAt_eq_map (schema : Schema) (visitor : Visitor σ)
    (members : List (String × Json)) :
    schema.memberChangesAt visitor members =
      members.map fun member => (member.1, schema.changeAt visitor member.2) := by
  induction members with
  | nil => rfl
  | cons member rest ih => simp [memberChangesAt, ih]

theorem lookup_memberChangesAt (schema : Schema) (visitor : Visitor σ) (key : String)
    (members : List (String × Json)) :
    (schema.memberChangesAt visitor members).lookup key =
      (members.lookup key).map (schema.changeAt visitor) := by
  rw [memberChangesAt_eq_map, Entries.lookup_map fun _ => schema.changeAt visitor]

theorem itemChangesAt_eq_map (schema : Schema) (visitor : Visitor σ) (items : List Json) :
    schema.itemChangesAt visitor items = items.map (schema.changeAt visitor) := by
  induction items with
  | nil => rfl
  | cons item rest ih => simp [itemChangesAt, ih]

/-- The change of a value that is not null, from what its definition leads to. -/
def changeIntoAt (schema : Schema) (visitor : Visitor σ) (path : Path) : Json → Definition → Change σ Json
  | .object members, .struct properties _ => do
      let members ← changePropertiesAt path (schema.memberChangesAt visitor members) properties members
      return .object members
  | .array items, .list element => do
      let items ← changeItemsAt path element 0 (items.map (schema.changeAt visitor))
      return .array items
  | value, d => changeHereAt visitor path d value

theorem changeAt_of_ne_null {value : Json} (hn : value ≠ .null) (path : Path) (d : Definition) :
    schema.changeAt visitor value path d =
      (do schema.changeIntoAt visitor path value (← schema.resolve d)) := by
  cases value with
  | null => exact absurd rfl hn
  | _ =>
      simp only [changeAt, itemChangesAt_eq_map]
      refine congrArg (_ >>= ·) (funext fun target => ?_)
      cases target <;> rfl

theorem changeAt_struct {properties : List (String × Definition)} {nullable : SortedSet String}
    (h : schema.resolve d = .ok (.struct properties nullable)) (members : List (String × Json)) (s : σ) :
    schema.changeAt visitor (.object members) path d s =
      (changePropertiesAt path (schema.memberChangesAt visitor members) properties members s).map
        fun result => (.object result.1, result.2) := by
  rw [changeAt_of_ne_null (by simp), h]
  rfl

theorem changeAt_list {element : Definition} (h : schema.resolve d = .ok (.list element))
    (items : List Json) (s : σ) :
    schema.changeAt visitor (.array items) path d s =
      (changeItemsAt path element 0 (items.map (schema.changeAt visitor)) s).map
        fun result => (.array result.1, result.2) := by
  rw [changeAt_of_ne_null (by simp), h]
  rfl

theorem changeAt_of_not_opens {target : Definition} {value : Json} (h : schema.resolve d = .ok target)
    (ho : target.opens value = false) (hn : value ≠ .null) (s : σ) :
    schema.changeAt visitor value path d s = changeHereAt visitor path target value s := by
  rw [changeAt_of_ne_null hn, h]
  cases value <;> cases target <;> first | rfl | cases ho

theorem changeAt_of_resolve_error {value : Json} {e : StructureError}
    (hr : schema.resolve d = .error e) (hn : value ≠ .null) (s : σ) :
    schema.changeAt visitor value path d s = .error e := by
  rw [changeAt_of_ne_null hn, hr]
  rfl

/-! ## The two walks -/

theorem lookup_memberChanges (schema : Schema) (visitor : Visitor σ) (key : String)
    (members : List (String × Json)) :
    (schema.memberChanges visitor members).lookup key =
      (members.lookup key).map (schema.change visitor) := by
  induction members with
  | nil => rfl
  | cons member rest ih =>
      obtain ⟨other, value⟩ := member
      rw [memberChanges, List.lookup_cons, List.lookup_cons, ih]
      cases key == other <;> rfl

/-- The walk of a value that is not null, from what its definition leads to. -/
def changeInto (schema : Schema) (visitor : Visitor σ) : Json → Definition → Traversal σ Json
  | .object members, .struct properties _ => do
      let members ← changeProperties (schema.memberChanges visitor members) properties members
      return .object members
  | .array items, .list element => do
      let items ← changeItems element 0 (schema.itemChanges visitor items)
      return .array items
  | value, d => changeHere visitor d value

theorem change_of_ne_null {value : Json} (hn : value ≠ .null) (d : Definition) :
    schema.change visitor value d = (do schema.changeInto visitor value (← schema.resolve d)) := by
  cases value with
  | null => exact absurd rfl hn
  | _ =>
      simp only [change]
      refine congrArg (_ >>= ·) (funext fun target => ?_)
      cases target <;> rfl

theorem acts_changeHere (visitor : Visitor σ) (d : Definition) (value : Json) :
    Traversal.Acts (changeHere visitor d value) fun path => changeHereAt visitor path d value := by
  unfold changeHere changeHereAt
  by_cases h : d.isVisited = true
  · simp only [h, if_true]
    exact Traversal.acts_actHere _
  · simp only [h, Bool.false_eq_true, if_false]
    exact Traversal.acts_pure value

theorem acts_changeProperties {members : List (String × Json)}
    {properties : List (String × Definition)}
    (hparts : ∀ key part value, (key, part) ∈ properties → members.lookup key = some value →
      Traversal.Acts (schema.change visitor value part) fun path => schema.changeAt visitor value path part)
    (current : List (String × Json)) :
    Traversal.Acts (changeProperties (schema.memberChanges visitor members) properties current)
      fun path => changePropertiesAt path (schema.memberChangesAt visitor members) properties current := by
  induction properties generalizing current with
  | nil => exact Traversal.acts_pure current
  | cons property rest ih =>
      obtain ⟨key, part⟩ := property
      have hrest := ih fun key part value hp => hparts key part value (List.mem_cons_of_mem _ hp)
      simp only [changeProperties, changePropertiesAt, lookup_memberChanges, lookup_memberChangesAt]
      cases hl : members.lookup key with
      | none => exact hrest current
      | some value =>
          have hpart := hparts key part value List.mem_cons_self hl
          exact (hpart.inside (.name key)).bind fun new => hrest (Json.setMember key new current)

theorem acts_changeItems {element : Definition} {items : List Json}
    (hitems : ∀ item ∈ items,
      Traversal.Acts (schema.change visitor item element) fun path =>
        schema.changeAt visitor item path element)
    (place : Nat) :
    Traversal.Acts (changeItems element place (schema.itemChanges visitor items)) fun path =>
      changeItemsAt path element place (schema.itemChangesAt visitor items) := by
  induction items generalizing place with
  | nil => exact Traversal.acts_pure []
  | cons item rest ih =>
      obtain ⟨hitem, hrest⟩ := List.forall_mem_cons.1 hitems
      exact (hitem.inside (.index place)).bind fun new =>
        (ih hrest (place + 1)).bind fun news => Traversal.acts_pure (new :: news)

theorem acts_changeInto {value : Json} {target : Definition} (ho : target.opens value = false) :
    Traversal.Acts (schema.changeInto visitor value target) fun path =>
      schema.changeIntoAt visitor path value target := by
  cases value <;> cases target <;> first | exact acts_changeHere visitor _ _ | cases ho

/-- The changing walk over a value gives what the walk that is told its place gives. -/
theorem acts_change (schema : Schema) (visitor : Visitor σ) (value : Json) (d : Definition) :
    Traversal.Acts (schema.change visitor value d) fun path => schema.changeAt visitor value path d := by
  induction value, d using schema.walkInduction with
  | null d =>
      simp only [change, changeAt]
      exact Traversal.acts_pure Json.null
  | stuck d value e hn hr =>
      intro path s
      beta_reduce
      rw [change_of_ne_null hn, changeAt_of_ne_null hn, hr]
      rfl
  | stops d target value hn hr ho =>
      intro path s
      beta_reduce
      rw [change_of_ne_null hn, changeAt_of_ne_null hn, hr]
      exact acts_changeInto ho path s
  | list d element items hr ih =>
      intro path s
      beta_reduce
      rw [change_of_ne_null (by simp), changeAt_of_ne_null (by simp), hr]
      have hitems := acts_changeItems ih 0
      rw [itemChangesAt_eq_map] at hitems
      exact hitems.bind (fun items => Traversal.acts_pure (Json.array items)) path s
  | struct d properties nullable members hr ih =>
      intro path s
      beta_reduce
      rw [change_of_ne_null (by simp), changeAt_of_ne_null (by simp), hr]
      exact (acts_changeProperties ih members).bind
        (fun members => Traversal.acts_pure (Json.object members)) path s

theorem changeContent_eq {root : Definition} (hroot : schema.root = .ok root) (content : Json) (s : σ) :
    schema.changeContent visitor content s = schema.changeAt visitor content [] root s := by
  simp only [changeContent, hroot, bind, Except.bind]
  exact (acts_change schema visitor content root).fromRoot s

theorem changeContent_of_root_error {e : StructureError} (hroot : schema.root = .error e) (content : Json)
    (s : σ) : schema.changeContent visitor content s = .error e := by
  simp only [changeContent, hroot, bind, Except.bind]

end Schema

end ContentStore
