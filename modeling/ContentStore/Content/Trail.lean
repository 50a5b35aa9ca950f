import ContentStore.Content.Issue
import ContentStore.Schema.Structure

/-!
# Traversals

A traversal goes down into a value and up again. It carries one path, to which each step down is added and
from which the step is taken off on the way up, and what it has gathered so far. A schema that cannot be
used ends the traversal where it stands: the path is not taken back, and nothing gathered is given.
-/

namespace ContentStore

/-- The way to where a traversal stands, and what it has gathered until there. -/
structure Trail (σ : Type) where
  path : Path
  gathered : σ

abbrev Traversal (σ : Type) := StateT (Trail σ) (Except StructureError)

namespace Traversal

variable {σ α : Type}

def push (segment : Segment) : Traversal σ Unit :=
  modify fun trail => { trail with path := trail.path ++ [segment] }

def pop : Traversal σ Unit :=
  modify fun trail => { trail with path := trail.path.dropLast }

/-- Goes one step down, traverses the part there and comes back up. -/
def inside (segment : Segment) (part : Traversal σ α) : Traversal σ α := do
  push segment
  let result ← part
  pop
  return result

/-- Adds to what is gathered something that depends on where the traversal stands. -/
def gatherHere (add : Path → σ → σ) : Traversal σ Unit :=
  modify fun trail => { trail with gathered := add trail.path trail.gathered }

/-- Changes what is gathered, from where the traversal stands, and gives a result for this place. -/
def actHere (act : Path → σ → α × σ) : Traversal σ α :=
  modifyGet fun trail =>
    let (result, gathered) := act trail.path trail.gathered
    (result, { trail with gathered })

def fromRoot (whole : Traversal σ α) (start : σ) : Except StructureError (α × σ) := do
  let (result, trail) ← whole.run ⟨[], start⟩
  return (result, trail.gathered)

end Traversal

end ContentStore
