import ContentStore.Json.Build
import ContentStore.Json.Record

/-!
# Issues

An issue says what is wrong with a value and where: its path leads from the root through the names of
object members and the places of array items.
-/

namespace ContentStore

open Json (Raw Record)

/-- One step down into a value. -/
inductive Segment where
  | index (place : Nat)
  | name (key : String)
  deriving DecidableEq

abbrev Path := List Segment

namespace Segment

def text : Segment → String
  | .index place => toString place
  | .name key => key

def toJson : Segment → Json
  | .index place => .object [("key", Json.ofNat place)]
  | .name key => .object [("key", .string key)]

/-- Reads a step; a natural number is a place and a text is a name. -/
def ofRaw? (raw : Raw) : Option Segment := do
  let record ← Record.ofRaw? ["key"] raw
  record.required? "key" fun raw =>
    match raw with
    | .string key => some (.name key)
    | raw => raw.nat?.map .index

end Segment

def Path.text (path : Path) : String :=
  String.intercalate "." (path.map Segment.text)

/-- Whether an issue is about the structure of a value or about its meaning. -/
inductive IssueKind where
  | schema
  | validation
  deriving DecidableEq

namespace IssueKind

def name : IssueKind → String
  | .schema => "Schema"
  | .validation => "Validation"

def ofName? (name : String) : Option IssueKind :=
  [IssueKind.schema, .validation].find? fun kind => kind.name == name

/-- Reads an issue kind: its name, or an object with the name as its one key and null under it. -/
def ofRaw? : Raw → Option IssueKind
  | .string name => ofName? name
  | .object [(name, .null)] => ofName? name
  | _ => none

end IssueKind

structure Issue where
  kind : IssueKind
  message : String
  path : Path
  deriving DecidableEq

namespace Issue

def under (segment : Segment) (issue : Issue) : Issue :=
  { issue with path := segment :: issue.path }

/-- The issue for a reader: its path, or `(root)`, and its message. -/
def text (issue : Issue) : String :=
  (if issue.path.isEmpty then "(root)" else issue.path.text) ++ ": " ++ issue.message

def toJson (issue : Issue) : Json :=
  .object [("kind", .string issue.kind.name), ("message", .string issue.message),
    ("path", Json.ofList Segment.toJson issue.path)]

def ofRaw? (raw : Raw) : Option Issue := do
  let record ← Record.ofRaw? ["kind", "message", "path"] raw
  let kind ← record.required? "kind" IssueKind.ofRaw?
  let message ← record.required? "message" Raw.string?
  let path ← record.required? "path" (Raw.list? Segment.ofRaw?)
  return { kind, message, path }

end Issue

end ContentStore
