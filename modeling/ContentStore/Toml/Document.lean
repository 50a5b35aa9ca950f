import ContentStore.Toml.Value

/-!
# TOML documents

A document is a list of lines: headers, each of which opens a table, and pairs, each of which adds a
value to the table opened last.
-/

namespace ContentStore.Toml

/-- What has been read: the root table, and the path of the table that pairs are added to. -/
structure Reading where
  root : Table
  current : List String

namespace Reading

def addPair (reading : Reading) (key : List String) (value : Value) : Option Reading := do
  let (path, last) ← splitKey key
  let root ← reading.root.edit .onTheWay (Table.addDotted path last value) reading.current
  return { reading with root }

def openTable (reading : Reading) (key : List String) : Option Reading := do
  let (path, last) ← splitKey key
  let root ← reading.root.edit .onTheWay (Table.openTable last) path
  return { root, current := key }

def openNext (reading : Reading) (key : List String) : Option Reading := do
  let (path, last) ← splitKey key
  let root ← reading.root.edit .onTheWay (Table.openNext last) path
  return { root, current := key }

def line? (reading : Reading) (cs : List Char) : Option (Reading × List Char) :=
  match cs with
  | '[' :: '[' :: rest => do
      match ← key? (nestingLimit - 1) rest with
      | (key, ']' :: ']' :: rest) => return (← reading.openNext key, ← lineEnd? rest)
      | _ => none
  | '[' :: rest => do
      match ← key? (nestingLimit - 1) rest with
      | (key, ']' :: rest) => return (← reading.openTable key, ← lineEnd? rest)
      | _ => none
  | cs => do
      match ← key? (nestingLimit - 1) cs with
      | (key, '=' :: rest) =>
          let (value, rest) ← value? (nestingLimit - 1) (dropBlanks rest)
          return (← reading.addPair key value, ← lineEnd? rest)
      | _ => none

def lines? : Nat → Reading → List Char → Option Reading
  | 0, _, _ => none
  | count + 1, reading, cs => do
      match ← dropVoid? false cs with
      | [] => return reading
      | cs =>
          let (reading, rest) ← reading.line? cs
          lines? count reading rest

end Reading

/-- The entries of a document's root table. A byte order mark before the document is passed over. -/
def document? (text : String) : Option (List (String × Item)) :=
  let cs :=
    match text.toList with
    | '\ufeff' :: rest => rest
    | cs => cs
  (Reading.lines? (cs.length + 1) ⟨Table.root, []⟩ cs).map fun reading => reading.root.2

end ContentStore.Toml
