import ContentStore.Json.Number
import ContentStore.Keyed.Sorted

/-!
# JSON values

A value is a tree of objects and arrays over texts, numbers, truth values and null. The members of an
object are kept in order; a value read from text as content has them sorted by key and each key once.
-/

namespace ContentStore

inductive Json where
  | null
  | bool (b : Bool)
  | number (n : Json.Number)
  | string (s : String)
  | array (items : List Json)
  | object (members : List (String × Json))

namespace Json

/-- The member of an object under a key; values that are no objects have none. -/
def get? (value : Json) (key : String) : Option Json :=
  match value with
  | .object members => members.lookup key
  | _ => none

def string? : Json → Option String
  | .string s => some s
  | _ => none

def isNull : Json → Bool
  | .null => true
  | _ => false

def ofNat (n : Nat) : Json :=
  match Integer.ofInt? n with
  | some i => .number (.int i)
  | none => .null

theorem ofNat_eq {n : Nat} (h : n ≤ 18446744073709551615) :
    ofNat n = .number (.int (Integer.ofNat n h)) := by
  have hfits : Integer.ofInt? n = some (Integer.ofNat n h) :=
    Integer.ofInt?_value (Integer.ofNat n h)
  rw [ofNat, hfits]

def setMember (key : String) (value : Json) (members : List (String × Json)) :
    List (String × Json) :=
  members.map fun (k, v) => if k = key then (k, value) else (k, v)

@[simp] theorem keys_setMember (key : String) (value : Json) (members : List (String × Json)) :
    (setMember key value members).map Prod.fst = members.map Prod.fst := by
  simp only [setMember, List.map_map]
  congr 1
  funext member
  simp only [Function.comp_apply]
  split <;> rfl

mutual

def Canonical : Json → Prop
  | .array items => CanonicalItems items
  | .object members => Entries.Ascending members ∧ CanonicalMembers members
  | _ => True

def CanonicalItems : List Json → Prop
  | [] => True
  | item :: rest => item.Canonical ∧ CanonicalItems rest

def CanonicalMembers : List (String × Json) → Prop
  | [] => True
  | (_, value) :: rest => value.Canonical ∧ CanonicalMembers rest

end

mutual

def depth : Json → Nat
  | .array items => depthOfItems items
  | .object members => depthOfMembers members
  | _ => 0

/-- One more than the depth of the deepest item; nothing for no item. -/
def depthOfItems : List Json → Nat
  | [] => 0
  | item :: rest => max (item.depth + 1) (depthOfItems rest)

/-- One more than the depth of the deepest member; nothing for no member. -/
def depthOfMembers : List (String × Json) → Nat
  | [] => 0
  | (_, value) :: rest => max (value.depth + 1) (depthOfMembers rest)

end

end Json

end ContentStore
