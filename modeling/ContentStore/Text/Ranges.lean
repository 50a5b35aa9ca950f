/-!
# Sets of characters as ranges

A set of characters is given by closed ranges of code points, in ascending order and apart.
-/

namespace ContentStore.Text

def inRanges (ranges : List (Nat × Nat)) (c : Char) : Bool :=
  ranges.any fun (first, last) => first ≤ c.toNat && c.toNat ≤ last

def areApart : List (Nat × Nat) → Bool
  | [] => true
  | [(first, last)] => first ≤ last
  | (first, last) :: next :: rest => first ≤ last && last + 1 < next.1 && areApart (next :: rest)

end ContentStore.Text
