import ContentStore.Double.Basic
import ContentStore.Keyed.Ordered
import ContentStore.Keyed.Sorted

/-!
# Schemas

A definition says which content may stand at a position. A schema names definitions and picks the one
that a document's content has to meet; a reference inside a definition names another of the schema's
definitions and is the only way for a schema to be recursive.
-/

namespace ContentStore

/-- What kind of content a definition describes. -/
inductive DataType where
  | string
  | number
  | boolean
  | stringLiteral
  | numberLiteral
  | booleanLiteral
  | enum
  | struct
  | list
  | documentRef
  | file
  | jsonObject
  | ref
  deriving DecidableEq, Repr

namespace DataType

def name : DataType → String
  | .string => "String"
  | .number => "Number"
  | .boolean => "Boolean"
  | .stringLiteral => "StringLiteral"
  | .numberLiteral => "NumberLiteral"
  | .booleanLiteral => "BooleanLiteral"
  | .enum => "Enum"
  | .struct => "Struct"
  | .list => "List"
  | .documentRef => "DocumentRef"
  | .file => "File"
  | .jsonObject => "JsonObject"
  | .ref => "Ref"

def all : List DataType :=
  [.string, .number, .boolean, .stringLiteral, .numberLiteral, .booleanLiteral, .enum, .struct,
    .list, .documentRef, .file, .jsonObject, .ref]

def ofName? (name : String) : Option DataType :=
  all.find? fun dataType => dataType.name == name

theorem ofName?_name (dataType : DataType) : ofName? dataType.name = some dataType := by
  cases dataType <;> decide

end DataType

inductive EnumValue where
  | string (s : String)
  | number (x : Double)

structure EnumMember where
  value : EnumValue
  description : Option String := none

/-- What content may stand at a position. The keys of a struct's properties are distinct. -/
inductive Definition where
  | string (format : Option String)
  | number (format : Option String)
  | boolean
  | stringLiteral (value : String)
  | numberLiteral (value : Double)
  | booleanLiteral (value : Bool)
  | enum (members : OrderedMap EnumMember)
  | struct (properties : List (String × Definition)) (nullable : SortedSet String)
  | list (items : Definition)
  | documentRef (collection : Option String)
  | file (accept : Option (SortedMap String (List String)))
  | jsonObject (format : Option String)
  | ref (name : String)

namespace Definition

def dataType : Definition → DataType
  | .string _ => .string
  | .number _ => .number
  | .boolean => .boolean
  | .stringLiteral _ => .stringLiteral
  | .numberLiteral _ => .numberLiteral
  | .booleanLiteral _ => .booleanLiteral
  | .enum _ => .enum
  | .struct _ _ => .struct
  | .list _ => .list
  | .documentRef _ => .documentRef
  | .file _ => .file
  | .jsonObject _ => .jsonObject
  | .ref _ => .ref

/-- A struct of properties, a repeated key keeping its place and taking its last definition. -/
def ofProperties (properties : List (String × Definition)) : Definition :=
  .struct (Entries.collect properties) SortedMap.empty

/-- Lets more properties of a struct be null; other definitions stay as they are. -/
def withNullable (names : List String) : Definition → Definition
  | .struct properties nullable => .struct properties (nullable.union names)
  | d => d

mutual

def nodes : Definition → List Definition
  | .struct properties nullable => .struct properties nullable :: propertyNodes properties
  | .list items => .list items :: items.nodes
  | d => [d]

def propertyNodes : List (String × Definition) → List Definition
  | [] => []
  | (_, d) :: rest => d.nodes ++ propertyNodes rest

end

mutual

def DistinctKeys : Definition → Prop
  | .struct properties _ => (Entries.keys properties).Nodup ∧ DistinctPropertyKeys properties
  | .list items => items.DistinctKeys
  | _ => True

def DistinctPropertyKeys : List (String × Definition) → Prop
  | [] => True
  | (_, d) :: rest => d.DistinctKeys ∧ DistinctPropertyKeys rest

end

theorem distinctPropertyKeys_iff {properties : List (String × Definition)} :
    DistinctPropertyKeys properties ↔ ∀ entry ∈ properties, entry.2.DistinctKeys := by
  induction properties with
  | nil => simp [DistinctPropertyKeys]
  | cons entry rest ih => simp [DistinctPropertyKeys, ih]

mutual

def mapCollectionIds (f : String → String) : Definition → Definition
  | .struct properties nullable => .struct (mapPropertyCollectionIds f properties) nullable
  | .list items => .list (items.mapCollectionIds f)
  | .documentRef collection => .documentRef (collection.map f)
  | d => d

def mapPropertyCollectionIds (f : String → String) :
    List (String × Definition) → List (String × Definition)
  | [] => []
  | (key, d) :: rest => (key, d.mapCollectionIds f) :: mapPropertyCollectionIds f rest

end

@[simp] theorem keys_mapPropertyCollectionIds (f : String → String)
    (properties : List (String × Definition)) :
    Entries.keys (mapPropertyCollectionIds f properties) = Entries.keys properties := by
  induction properties with
  | nil => rfl
  | cons entry rest ih => simpa [mapPropertyCollectionIds, Entries.keys] using ih

mutual

theorem distinctKeys_mapCollectionIds (f : String → String) :
    (d : Definition) → d.DistinctKeys → (d.mapCollectionIds f).DistinctKeys
  | .struct properties nullable, h => by
      have hk : (Entries.keys properties).Nodup ∧ DistinctPropertyKeys properties := h
      exact ⟨by simpa using hk.1, distinctPropertyKeys_mapPropertyCollectionIds f properties hk.2⟩
  | .list items, h => distinctKeys_mapCollectionIds f items h
  | .string _, _ | .number _, _ | .boolean, _ | .stringLiteral _, _ | .numberLiteral _, _
  | .booleanLiteral _, _ | .enum _, _ | .documentRef _, _ | .file _, _ | .jsonObject _, _
  | .ref _, _ => trivial

theorem distinctPropertyKeys_mapPropertyCollectionIds (f : String → String) :
    (properties : List (String × Definition)) → DistinctPropertyKeys properties →
      DistinctPropertyKeys (mapPropertyCollectionIds f properties)
  | [], _ => trivial
  | (_, d) :: rest, h =>
      ⟨distinctKeys_mapCollectionIds f d h.1,
        distinctPropertyKeys_mapPropertyCollectionIds f rest h.2⟩

end

mutual

/-- Sets the collection of every document reference from its number among the nodes, and gives the
number after the last node. -/
def numberRefs (f : Nat → Option String) : Definition → Nat → Definition × Nat
  | .struct properties nullable, n =>
      let (properties, n) := numberPropertyRefs f properties (n + 1)
      (.struct properties nullable, n)
  | .list items, n =>
      let (items, n) := items.numberRefs f (n + 1)
      (.list items, n)
  | .documentRef _, n => (.documentRef (f n), n + 1)
  | d, n => (d, n + 1)

def numberPropertyRefs (f : Nat → Option String) :
    List (String × Definition) → Nat → List (String × Definition) × Nat
  | [], n => ([], n)
  | (key, d) :: rest, n =>
      let (d, n) := d.numberRefs f n
      let (rest, n) := numberPropertyRefs f rest n
      ((key, d) :: rest, n)

end

end Definition

/-- Named definitions, and the name of the one that content has to meet. The properties of every struct
have distinct keys. -/
structure Schema where
  types : SortedMap String Definition
  rootType : String
  distinct : ∀ entry ∈ types.entries, entry.2.DistinctKeys

namespace Schema

/-- A schema of named definitions; of two with one name the last is kept. -/
def ofTypes (rootType : String) (types : List (String × { d : Definition // d.DistinctKeys })) :
    Schema where
  types := SortedMap.ofList (types.map fun (name, d) => (name, d.val))
  rootType := rootType
  distinct := by
    intro entry he
    obtain ⟨declared, _, rfl⟩ := List.mem_map.1 (SortedMap.mem_of_mem_ofList he)
    exact declared.2.property

def mapCollectionIds (schema : Schema) (f : String → String) : Schema where
  types := schema.types.mapValues (Definition.mapCollectionIds f)
  rootType := schema.rootType
  distinct := by
    intro entry he
    obtain ⟨declared, hd, rfl⟩ := List.mem_map.1 he
    exact Definition.distinctKeys_mapCollectionIds f declared.2 (schema.distinct declared hd)

end Schema

end ContentStore
