import ContentStore.Json.Basic

/-!
# Building JSON values

Small builders for the written form of records: members that may be left out, and maps and lists whose
values are written in one way.
-/

namespace ContentStore.Json

def ofString? : Option String → Json
  | some s => .string s
  | none => .null

def optional (key : String) (value : Option Json) : List (String × Json) :=
  match value with
  | some value => [(key, value)]
  | none => []

def ofList {α : Type} (write : α → Json) (values : List α) : Json :=
  .array (values.map write)

def ofEntries {α : Type} (write : α → Json) (entries : List (String × α)) : Json :=
  .object (entries.map fun (key, value) => (key, write value))

def ofStrings (texts : List String) : Json :=
  ofList .string texts

end ContentStore.Json
