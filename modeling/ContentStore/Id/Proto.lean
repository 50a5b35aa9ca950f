import ContentStore.Id.Real

/-!
# Ids by position

A proto id names the entity at a position of its kind's list in one pack or batch: `Proto`, the name of
the kind, an underscore and the position, in decimal digits without leading zeros and below `2 ^ 64`.
-/

namespace ContentStore

abbrev ProtoId.bound : Nat := 18446744073709551616

/-- The id of the entity at a position of its kind's list. -/
structure ProtoId where
  kind : Kind
  index : Nat
  positional : kind.positional = true
  bounded : index < ProtoId.bound
  deriving DecidableEq

namespace ProtoId

@[ext] theorem ext {a b : ProtoId} (hk : a.kind = b.kind) (hi : a.index = b.index) : a = b := by
  cases a; cases b; cases hk; cases hi; rfl

def start : List Char := ['P', 'r', 'o', 't', 'o']

def indexChars (index : Nat) : List Char :=
  Nat.toDigits 10 index

def textOf (kind : Kind) (index : Nat) : String :=
  String.ofList (start ++ kind.name.toList ++ '_' :: indexChars index)

def text (p : ProtoId) : String :=
  textOf p.kind p.index

def ofIndex (kind : Kind) (index : Nat) (bounded : index < bound) : Except IdError ProtoId :=
  if positional : kind.positional = true then .ok { kind, index, positional, bounded }
  else .error (.noPositionalKind kind)

def canonicalDigits (cs : List Char) : Bool :=
  cs.all Char.isDigit &&
    match cs with
    | [] => false
    | ['0'] => true
    | c :: _ => c != '0'

def index? (digits : List Char) : Option Nat :=
  if canonicalDigits digits then some (Nat.ofDigitChars 10 digits 0) else none

def ofText? (text : String) : Option ProtoId := do
  let rest ← Text.dropStart start text.toList
  let (name, digits) ← Text.splitLast '_' rest
  let kind ← Kind.ofName? (String.ofList name)
  let index ← index? digits
  if h : kind.positional = true ∧ index < bound then
    some { kind, index, positional := h.1, bounded := h.2 }
  else none

def parse (text : String) : Except IdError ProtoId :=
  match ofText? text with
  | some p => .ok p
  | none => .error (.notPositional text)

def ofKind? (kind : Kind) (text : String) : Option ProtoId :=
  (ofText? text).filter fun p => p.kind == kind

/-- Proto ids are ordered by kind, then by position. -/
instance : Ord ProtoId where
  compare := compareLex (compareOn fun p => p.kind.rank) (compareOn fun p => p.index)

instance : Std.TransOrd ProtoId :=
  inferInstanceAs (Std.TransCmp (compareLex (compareOn fun p => p.kind.rank)
    (compareOn fun p : ProtoId => p.index)))

instance : Std.LawfulEqOrd ProtoId where
  eq_of_compare := by
    intro a b h
    have h' : (compare a.kind.rank b.kind.rank).then (compare a.index b.index) = .eq := h
    have hk : compare a.kind.rank b.kind.rank = .eq := by
      cases hc : compare a.kind.rank b.kind.rank <;> simp [hc, Ordering.then] at h' ⊢
    rw [hk] at h'
    exact ProtoId.ext (Kind.rank_injective (Nat.compare_eq_eq.1 hk)) (Nat.compare_eq_eq.1 h')

end ProtoId

end ContentStore
