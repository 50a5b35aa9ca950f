import ContentStore.Content.Trail

/-!
# Walking content along a schema

A walk visits the positions that a schema gives to document references and files. Structs are entered
through their declared properties and lists through their items; null, and a value whose shape does not
fit its definition, is passed over. The changing walk visits the same positions in the same order and
puts what its visitor gives in their place.
-/

namespace ContentStore

/-- A visited position: its definition, the way to it and the value there. -/
structure Visit where
  definition : Definition
  path : Path
  value : Json

namespace Definition

def isVisited : Definition → Bool
  | .documentRef _ | .file _ => true
  | _ => false

end Definition

/-- What a reading walk calls at each visited position, with what it has gathered until there. -/
abbrev Observer (σ : Type) := Visit → σ → σ

/-- What a changing walk calls at each visited position: it gives the value to put there. -/
abbrev Visitor (σ : Type) := Visit → σ → Json × σ

namespace Schema

open Traversal (inside)

variable {σ : Type}

def walkHere (observe : Observer σ) (d : Definition) (value : Json) : Traversal σ Unit :=
  if d.isVisited then Traversal.gatherHere fun path => observe ⟨d, path, value⟩ else pure ()

/-- The walk of one part of a value, which waits for the definition. -/
abbrev PartWalk (σ : Type) := Definition → Traversal σ Unit

def walkProperties (parts : List (String × PartWalk σ)) (properties : List (String × Definition)) :
    Traversal σ Unit :=
  properties.forM fun (key, d) =>
    match parts.lookup key with
    | none => pure ()
    | some walk => inside (.name key) (walk d)

def walkItems (parts : List (PartWalk σ)) (element : Definition) : Traversal σ Unit :=
  parts.zipIdx.forM fun (walk, place) => inside (.index place) (walk element)

-- As in a check, the recursion is on the content: definitions may lead back to themselves.
mutual

def walk (schema : Schema) (observe : Observer σ) : Json → PartWalk σ
  | .null, _ => pure ()
  | .object members, d => do
      match ← schema.resolve d with
      | .struct properties _ => walkProperties (memberWalks schema observe members) properties
      | d => walkHere observe d (.object members)
  | .array items, d => do
      match ← schema.resolve d with
      | .list element => walkItems (itemWalks schema observe items) element
      | d => walkHere observe d (.array items)
  | value, d => do walkHere observe (← schema.resolve d) value

def itemWalks (schema : Schema) (observe : Observer σ) : List Json → List (PartWalk σ)
  | [] => []
  | item :: rest => walk schema observe item :: itemWalks schema observe rest

def memberWalks (schema : Schema) (observe : Observer σ) :
    List (String × Json) → List (String × PartWalk σ)
  | [] => []
  | (key, value) :: rest => (key, walk schema observe value) :: memberWalks schema observe rest

end

def walkContent (schema : Schema) (observe : Observer σ) (content : Json) (start : σ) :
    Except StructureError σ := do
  ((schema.walk observe content (← schema.root)).fromRoot start).map Prod.snd

def visitContent (schema : Schema) (content : Json) : Except StructureError (List Visit) :=
  schema.walkContent (fun visit visits => visits ++ [visit]) content []

def changeHere (visitor : Visitor σ) (d : Definition) (value : Json) : Traversal σ Json :=
  if d.isVisited then Traversal.actHere fun path => visitor ⟨d, path, value⟩ else pure value

/-- The change of one part of a value, which waits for the definition. -/
abbrev PartChange (σ : Type) := Definition → Traversal σ Json

def changeProperties (parts : List (String × PartChange σ)) :
    List (String × Definition) → List (String × Json) → Traversal σ (List (String × Json))
  | [], members => pure members
  | (key, d) :: rest, members => do
      match parts.lookup key with
      | none => changeProperties parts rest members
      | some change =>
          let value ← inside (.name key) (change d)
          changeProperties parts rest (Json.setMember key value members)

def changeItems (element : Definition) : Nat → List (PartChange σ) → Traversal σ (List Json)
  | _, [] => pure []
  | place, change :: rest => do
      let item ← inside (.index place) (change element)
      let items ← changeItems element (place + 1) rest
      return item :: items

mutual

def change (schema : Schema) (visitor : Visitor σ) : Json → PartChange σ
  | .null, _ => pure .null
  | .object members, d => do
      match ← schema.resolve d with
      | .struct properties _ =>
          let members ← changeProperties (memberChanges schema visitor members) properties members
          return .object members
      | d => changeHere visitor d (.object members)
  | .array items, d => do
      match ← schema.resolve d with
      | .list element =>
          let items ← changeItems element 0 (itemChanges schema visitor items)
          return .array items
      | d => changeHere visitor d (.array items)
  | value, d => do changeHere visitor (← schema.resolve d) value

def itemChanges (schema : Schema) (visitor : Visitor σ) : List Json → List (PartChange σ)
  | [] => []
  | item :: rest => change schema visitor item :: itemChanges schema visitor rest

def memberChanges (schema : Schema) (visitor : Visitor σ) :
    List (String × Json) → List (String × PartChange σ)
  | [] => []
  | (key, value) :: rest => (key, change schema visitor value) :: memberChanges schema visitor rest

end

def changeContent (schema : Schema) (visitor : Visitor σ) (content : Json) (s : σ) :
    Except StructureError (Json × σ) := do
  (schema.change visitor content (← schema.root)).fromRoot s

def mapVisited (schema : Schema) (f : Visit → Json) (content : Json) : Except StructureError Json :=
  (schema.changeContent (fun visit (_ : Unit) => (f visit, ())) content ()).map Prod.fst

end Schema

end ContentStore
