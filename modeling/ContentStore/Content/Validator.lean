import ContentStore.Content.Depth
import ContentStore.Content.Fault
import ContentStore.Content.FileValue
import ContentStore.Content.Format
import ContentStore.Content.Trail

/-!
# Checking content against a schema

One run finds every fault of a value: the parts of structs and lists are checked one after another, and a
value of the wrong type is not looked into. A value is checked against what its definition's references
lead to. An issue is reported with the path on which the run stands.
-/

namespace ContentStore

/-- What content is checked with besides a schema: formats, and a bound on the nesting of free objects. -/
structure Validator where
  formats : FormatRegistry
  maxObjectDepth : Nat := 256

/-- What checking content comes to: issues, or the error of a schema that cannot be used. -/
abbrev Findings := Except StructureError (List Issue)

namespace Validator

open Traversal (inside)

/-- A step of a run, with the issues that were reported so far. -/
abbrev Run := Traversal (List Issue)

def report (fault : Fault) : Run Unit :=
  Traversal.gatherHere fun path issues => issues ++ [fault.issue path]

def checkFormat (v : Validator) (target : FormatTarget) (format : Option String) (value : Json) :
    Run Unit := do
  if let some id := format then
    if let some message := v.formats.reject target id value then
      report (.rejected message)

def isMember (value : Json) : EnumValue → Bool
  | .string s =>
      match value with
      | .string actual => s == actual
      | _ => false
  | .number x =>
      match value with
      | .number n => n.toDouble?.any x.sameValue
      | _ => false

def checkUnknownKeys (declared : List String) (members : List (String × Json)) : Run Unit :=
  (members.filter fun (key, _) => !declared.contains key).forM fun (key, _) =>
    inside (.name key) (report (.unknownKey key))

def documentKeys : List String := ["collectionId", "documentId"]

def checkTextKey (members : List (String × Json)) (key : String) : Run Unit :=
  inside (.name key) <|
    match members.lookup key with
    | none => report (.missingKey key)
    | some (.string _) => pure ()
    | some other => report (.wrongType "string" other)

def checkFixedCollection (fixed : Option String) (members : List (String × Json)) : Run Unit :=
  match fixed, members.lookup "collectionId" with
  | some fixed, some (.string actual) =>
      unless fixed = actual do
        inside (.name "collectionId") (report (.otherCollection fixed))
  | _, _ => pure ()

/-- Checks a reference to a document: exactly two texts, and the fixed collection if any. -/
def checkDocumentRef (fixed : Option String) : Json → Run Unit
  | .object members => do
      documentKeys.forM (checkTextKey members)
      checkUnknownKeys documentKeys members
      checkFixedCollection fixed members
  | value => report (.wrongType "Object" value)

def checkFile (accept : Option (SortedMap String (List String))) (value : Json) : Run Unit := do
  match FileValue.ofJson? value with
  | none => report .notAFile
  | some file =>
      if let some accept := accept then
        unless accepts accept file.name file.mimeType do
          report (.fileNotAccepted file.name file.mimeType accept.keys)

def checkObject (v : Validator) (format : Option String) : Json → Run Unit
  | .object members =>
      if Json.fitsDepth v.maxObjectDepth (.object members) then
        v.checkFormat .jsonObject format (.object members)
      else report .notAnObject
  | .array _ => report .notAnObject
  | value => report (.wrongType "Object" value)

/-- Checks a value whose parts need no check of their own, under a definition that is no reference. -/
def checkLeaf (v : Validator) (d : Definition) (value : Json) : Run Unit :=
  match d with
  | .string format =>
      match value with
      | .string _ => v.checkFormat .string format value
      | _ => report (.wrongType "string" value)
  | .number format =>
      match value with
      | .number _ => v.checkFormat .number format value
      | _ => report (.wrongType "number" value)
  | .boolean =>
      match value with
      | .bool _ => pure ()
      | _ => report (.wrongType "boolean" value)
  | .stringLiteral s =>
      unless isMember value (.string s) do
        report (.wrongType (Fault.expected (.string s)) value)
  | .numberLiteral x =>
      unless isMember value (.number x) do
        report (.wrongType (Fault.expected (.number x)) value)
  | .booleanLiteral b =>
      match value with
      | .bool actual =>
          unless b == actual do
            report (.wrongType (if b then "true" else "false") value)
      | _ => report (.wrongType (if b then "true" else "false") value)
  | .enum members =>
      unless members.values.any fun m => isMember value m.value do
        let allowed := members.values.map fun m => Fault.expected m.value
        report (.wrongType (String.intercalate " | " allowed) value)
  | .struct _ _ => report (.wrongType "Object" value)
  | .list _ => report (.wrongType "Array" value)
  | .documentRef fixed => checkDocumentRef fixed value
  | .file accept => checkFile accept value
  | .jsonObject format => v.checkObject format value
  | .ref _ => pure ()

/-- A part of a value with its check, which waits for the definition. -/
structure Part (β : Type) where
  value : Json
  check : Definition → β

def checkProperties (nullable : SortedSet String) (parts : List (String × Part (Run Unit)))
    (properties : List (String × Definition)) : Run Unit :=
  properties.forM fun (key, d) =>
    inside (.name key) <|
      match parts.lookup key with
      | none => report (.missingKey key)
      | some part => if part.value.isNull && nullable.contains key then pure () else part.check d

def checkItems (parts : List (Part (Run Unit))) (d : Definition) : Run Unit :=
  parts.zipIdx.forM fun (part, place) => inside (.index place) (part.check d)

-- The recursion is on the content, which ends; a definition may lead back to itself.
mutual

def check (v : Validator) (schema : Schema) : Json → Definition → Run Unit
  | .object members, d => do
      match ← schema.resolve d with
      | .struct properties nullable =>
          checkProperties nullable (memberParts v schema members) properties
          checkUnknownKeys (Entries.keys properties) members
      | d => v.checkLeaf d (.object members)
  | .array items, d => do
      match ← schema.resolve d with
      | .list element => checkItems (itemParts v schema items) element
      | d => v.checkLeaf d (.array items)
  | value, d => do v.checkLeaf (← schema.resolve d) value

def itemParts (v : Validator) (schema : Schema) : List Json → List (Part (Run Unit))
  | [] => []
  | item :: rest => ⟨item, check v schema item⟩ :: itemParts v schema rest

def memberParts (v : Validator) (schema : Schema) :
    List (String × Json) → List (String × Part (Run Unit))
  | [] => []
  | (key, value) :: rest => (key, ⟨value, check v schema value⟩) :: memberParts v schema rest

end

def issues (v : Validator) (schema : Schema) (value : Json) (d : Definition) : Findings :=
  ((v.check schema value d).fromRoot []).map Prod.snd

/-- The issues of content under a schema. The schema's structure is checked first. -/
def validate (v : Validator) (schema : Schema) (content : Json) : Findings := do
  schema.checkStructure
  v.issues schema content (← schema.root)

end Validator

def Schema.validate (schema : Schema) (content : Json) : Findings :=
  Validator.validate { formats := .builtins } schema content

end ContentStore
