import ContentStore.Json.Basic

/-!
# A bound on nesting

The walk keeps a list of parts still to look at, each with its depth, and takes one off at each step.
-/

namespace ContentStore.Json

mutual

def partCount : Json → Nat
  | .array items => 1 + itemPartCount items
  | .object members => 1 + memberPartCount members
  | _ => 1

def itemPartCount : List Json → Nat
  | [] => 0
  | item :: rest => item.partCount + itemPartCount rest

def memberPartCount : List (String × Json) → Nat
  | [] => 0
  | (_, value) :: rest => value.partCount + memberPartCount rest

end

def children : Json → List Json
  | .array items => items
  | .object members => members.map Prod.snd
  | _ => []

/-- Looks at up to the given number of parts, the one added last first. -/
def drain (bound : Nat) : Nat → List (Json × Nat) → Bool
  | _, [] => true
  | 0, _ => false
  | steps + 1, (part, depth) :: pending =>
      if bound < depth then false
      else
        drain bound steps ((part.children.reverse.map fun child => (child, depth + 1)) ++ pending)

/-- Whether no part of a value lies more than the given number of steps below it. Every part is looked
at once. -/
def fitsDepth (bound : Nat) (value : Json) : Bool :=
  drain bound value.partCount [(value, 0)]

end ContentStore.Json
