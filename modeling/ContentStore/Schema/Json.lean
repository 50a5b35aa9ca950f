import ContentStore.Json.Ordered
import ContentStore.Schema.Basic

/-!
# The JSON form of schemas

A definition is a record whose data type stands under `dataType`, or first in an array. Fields without a
value are left out. A definition is read only if all of it can be read, skipped members included, and
inside another definition its data type may also be given by its place in the list of data types.
-/

namespace ContentStore

open Json (Raw Record)

namespace EnumValue

def toJson : EnumValue → Json
  | .string s => .string s
  | .number x => .number (.float x)

def ofRaw? : Raw → Option EnumValue
  | .string s => some (.string s)
  | raw => raw.double?.map .number

end EnumValue

namespace EnumMember

def toJson (m : EnumMember) : Json :=
  .object (("value", m.value.toJson) :: Json.optional "description" (m.description.map .string))

def ofRaw? (raw : Raw) : Option EnumMember := do
  let record ← Record.ofRaw? ["value", "description"] raw
  let value ← record.required? "value" EnumValue.ofRaw?
  let description ← record.optional? "description" Raw.string?
  return { value, description }

end EnumMember

namespace Definition

def tag : String := "dataType"

def leafFields : Definition → List (String × Json)
  | .string format => Json.optional "format" (format.map .string)
  | .number format => Json.optional "format" (format.map .string)
  | .stringLiteral value => [("value", .string value)]
  | .numberLiteral value => [("value", .number (.float value))]
  | .booleanLiteral value => [("value", .bool value)]
  | .enum members => [("members", members.toJson EnumMember.toJson)]
  | .documentRef collection => Json.optional "collectionId" (collection.map .string)
  | .file accept =>
      Json.optional "accept" (accept.map fun accept => Json.ofEntries Json.ofStrings accept.entries)
  | .jsonObject format => Json.optional "format" (format.map .string)
  | .ref name => [("ref", .string name)]
  | .boolean | .struct _ _ | .list _ => []

def nullableField (nullable : SortedSet String) : List (String × Json) :=
  Json.optional "nullableProperties"
    (if nullable.isEmpty then none else some (Json.ofStrings nullable.toList))

mutual

def toJson : Definition → Json
  | .struct properties nullable =>
      .object ((tag, .string DataType.struct.name) ::
        ("properties", .object (propertiesToJson properties)) :: nullableField nullable)
  | .list items => .object [(tag, .string DataType.list.name), ("items", items.toJson)]
  | d => .object ((tag, .string d.dataType.name) :: d.leafFields)

def propertiesToJson : List (String × Definition) → List (String × Json)
  | [] => []
  | (key, d) :: rest => (key, d.toJson) :: propertiesToJson rest

end

/-- Reads a data type by name, or inside a definition also by place. -/
def dataType? (inner : Bool) : Raw → Option DataType
  | .string name => DataType.ofName? name
  | .number n => if inner then n.toNat?.bind fun place => DataType.all[place]? else none
  | _ => none

def tagged? (inner : Bool) : Raw → Option (DataType × Raw)
  | .object members =>
      match members.filter fun (key, _) => key == tag with
      | [(_, raw)] =>
          (dataType? inner raw).map fun dataType =>
            (dataType, .object (members.filter fun (key, _) => key != tag))
      | _ => none
  | .array (raw :: items) => (dataType? inner raw).map fun dataType => (dataType, .array items)
  | _ => none

def fieldNames : DataType → List String
  | .string | .number | .jsonObject => ["format"]
  | .boolean => []
  | .stringLiteral | .numberLiteral | .booleanLiteral => ["value"]
  | .enum => ["members"]
  | .struct => ["properties", "nullableProperties"]
  | .list => ["items"]
  | .documentRef => ["collectionId"]
  | .file => ["accept"]
  | .ref => ["ref"]

def accept? (raw : Raw) : Option (SortedMap String (List String)) :=
  (raw.members? (Raw.list? Raw.string?)).map SortedMap.ofList

def read? : Nat → Bool → Raw → Option Definition
  | 0, _, _ => none
  | depth + 1, inner, raw => do
      let (dataType, fields) ← tagged? inner raw
      let record ← Record.ofRaw? (fieldNames dataType) fields
      match dataType with
      | .string => return .string (← record.optional? "format" Raw.string?)
      | .number => return .number (← record.optional? "format" Raw.string?)
      | .boolean => return .boolean
      | .stringLiteral => return .stringLiteral (← record.required? "value" Raw.string?)
      | .numberLiteral => return .numberLiteral (← record.required? "value" Raw.double?)
      | .booleanLiteral => return .booleanLiteral (← record.required? "value" Raw.bool?)
      | .enum =>
          return .enum (← record.required? "members" (OrderedMap.ofRaw? EnumMember.ofRaw?))
      | .struct =>
          let properties ← record.required? "properties" (OrderedMap.ofRaw? (read? depth true))
          let nullable ← record.withDefault? "nullableProperties" [] (Raw.list? Raw.string?)
          return .struct properties.entries (SortedSet.ofList nullable)
      | .list => return .list (← record.required? "items" (read? depth true))
      | .documentRef => return .documentRef (← record.optional? "collectionId" Raw.string?)
      | .file => return .file (← record.optional? "accept" accept?)
      | .jsonObject => return .jsonObject (← record.optional? "format" Raw.string?)
      | .ref => return .ref (← record.required? "ref" Raw.string?)

theorem distinctKeys_read? {depth : Nat} {inner : Bool} {raw : Raw} {d : Definition}
    (h : read? depth inner raw = some d) : d.DistinctKeys := by
  induction depth generalizing inner raw d with
  | zero => cases h
  | succ depth ih =>
      simp only [read?, Option.bind_eq_bind, Option.bind_eq_some_iff] at h
      obtain ⟨⟨dataType, fields⟩, -, record, -, h⟩ := h
      cases dataType with
      | struct =>
          simp only [Record.required?, Option.bind_eq_some_iff] at h
          obtain ⟨properties, ⟨field, -, hp⟩, nullable, -, h⟩ := h
          cases h
          refine ⟨properties.distinct, distinctPropertyKeys_iff.2 fun entry he => ?_⟩
          obtain ⟨value, hv⟩ := OrderedMap.exists_of_mem_ofRaw? hp he
          exact ih hv
      | list =>
          simp only [Record.required?, Option.bind_eq_some_iff] at h
          obtain ⟨items, ⟨field, -, hi⟩, h⟩ := h
          cases h
          exact ih (d := items) hi
      | boolean =>
          cases h
          trivial
      | _ =>
          simp only [Option.bind_eq_some_iff] at h
          obtain ⟨_, -, h⟩ := h
          cases h
          trivial

/-- Reads a definition. Every definition inside another is nested once more, so that the limit on
nesting bounds them. -/
def ofRaw? (raw : Raw) : Option Definition :=
  if raw.sound then read? Json.nestingLimit false raw else none

theorem distinctKeys_ofRaw? {raw : Raw} {d : Definition} (h : ofRaw? raw = some d) :
    d.DistinctKeys := by
  unfold ofRaw? at h
  split at h
  · exact distinctKeys_read? h
  · cases h

/-- Reads a definition together with the proof that its structs have distinct keys. -/
def declared? (raw : Raw) : Option { d : Definition // d.DistinctKeys } :=
  (ofRaw? raw).attach.map fun d => ⟨d.val, distinctKeys_ofRaw? d.property⟩

end Definition

namespace Schema

def toJson (schema : Schema) : Json :=
  .object [("types", Json.ofEntries Definition.toJson schema.types.entries),
    ("rootType", .string schema.rootType)]

def ofRaw? (raw : Raw) : Option Schema := do
  let record ← Record.ofRaw? ["types", "rootType"] raw
  let types ← record.required? "types" (Raw.members? Definition.declared?)
  let rootType ← record.required? "rootType" Raw.string?
  return Schema.ofTypes rootType types

end Schema

end ContentStore
