import ContentStore.Content.Issue
import ContentStore.Double.Notation
import ContentStore.Schema.Basic

/-!
# What can be wrong with content

Each fault has its kind and its message. Texts stand in messages as they are, between quote marks.
-/

namespace ContentStore

/-- A fault of a value under a definition. -/
inductive Fault where
  | wrongType (expected : String) (value : Json)
  | missingKey (key : String)
  | unknownKey (key : String)
  | notAnObject
  | notAFile
  | fileNotAccepted (name mimeType : String) (accepted : List String)
  | otherCollection (fixed : String)
  | rejected (message : String)

namespace Fault

def received : Json → String
  | .null => "null"
  | .bool b => if b then "true" else "false"
  | .number n => n.text
  | .string s => "\"" ++ s ++ "\""
  | .array _ => "Array"
  | .object _ => "Object"

def expected : EnumValue → String
  | .string s => "\"" ++ s ++ "\""
  | .number x => DoubleLayout.plain.write x

def kind : Fault → IssueKind
  | .wrongType _ _ | .missingKey _ | .unknownKey _ | .notAFile => .schema
  | .notAnObject | .fileNotAccepted _ _ _ | .otherCollection _ | .rejected _ => .validation

def message : Fault → String
  | .wrongType expected value =>
      "Invalid type: Expected " ++ expected ++ " but received " ++ received value
  | .missingKey key => "Invalid key: Expected \"" ++ key ++ "\" but received undefined"
  | .unknownKey key => "Invalid key: Expected never but received \"" ++ key ++ "\""
  | .notAnObject => "Invalid JsonObject: Does not serialize to a JSON object"
  | .notAFile => "Invalid file: neither a FileRef nor a ProtoFile"
  | .fileNotAccepted name mimeType accepted =>
      "Invalid file: \"" ++ name ++ "\" (" ++ mimeType ++
        ") is not an accepted file type; accepted: " ++ String.intercalate ", " accepted
  | .otherCollection fixed => "Invalid DocumentRef: collectionId must be \"" ++ fixed ++ "\""
  | .rejected message => message

def issue (fault : Fault) (path : Path) : Issue :=
  ⟨fault.kind, fault.message, path⟩

end Fault

end ContentStore
