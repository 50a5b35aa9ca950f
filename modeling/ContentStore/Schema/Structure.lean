import ContentStore.Schema.Basic
import ContentStore.Text.Quoted

/-!
# Following references

A reference is followed from name to name until a definition that is no reference. A chain longer than
the schema has names must come back to one of them, so that many steps tell a cycle. The structure check
follows every reference that stands anywhere in the schema.
-/

namespace ContentStore

/-- Why a schema cannot be used. -/
inductive StructureError where
  | missingRootType (name : String)
  | unknownRef (name : String)
  | refCycle (name : String)
  deriving DecidableEq

namespace StructureError

def message : StructureError → String
  | .missingRootType name => "root type " ++ Text.quoted name ++ " is not declared in the schema"
  | .unknownRef name => "referenced type " ++ Text.quoted name ++ " is not declared in the schema"
  | .refCycle name =>
      "type " ++ Text.quoted name ++ " is a chain of references that never reaches a definition"

end StructureError

namespace Schema

def follow (schema : Schema) : Nat → Definition → Except StructureError Definition
  | 0, .ref name => .error (.refCycle name)
  | steps + 1, .ref name =>
      match schema.types.get? name with
      | some d => schema.follow steps d
      | none => .error (.unknownRef name)
  | _, d => .ok d

def resolve (schema : Schema) (d : Definition) : Except StructureError Definition :=
  schema.follow (schema.types.size + 1) d

def root (schema : Schema) : Except StructureError Definition :=
  match schema.types.get? schema.rootType with
  | some d => .ok d
  | none => .error (.missingRootType schema.rootType)

def resolvedRoot (schema : Schema) : Except StructureError Definition := do
  schema.resolve (← schema.root)

def nodes (schema : Schema) : List Definition :=
  schema.types.entries.flatMap fun (_, d) => d.nodes

def checkStructure (schema : Schema) : Except StructureError Unit := do
  let _ ← schema.root
  schema.nodes.forM fun node => do
    let _ ← schema.resolve node

end Schema

end ContentStore
