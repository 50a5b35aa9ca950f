/-!
# Finite binary floating point numbers

A double is kept as its exact parts: a sign, a mantissa below `2 ^ 53` and a power of two. Every finite
value has one such form, but zero keeps its sign. Rounding takes a quotient of natural numbers to the
nearest double, and of two equally near ones to the one with the even mantissa.
-/

namespace ContentStore

abbrev Double.leastFull : Nat := 4503599627370496

abbrev Double.bound : Nat := 9007199254740992

def Double.Normal (mantissa : Nat) (exponent : Int) : Prop :=
  mantissa < bound ∧ -1074 ≤ exponent ∧ exponent ≤ 971 ∧ (leastFull ≤ mantissa ∨ exponent = -1074)

instance (mantissa : Nat) (exponent : Int) : Decidable (Double.Normal mantissa exponent) :=
  inferInstanceAs (Decidable (_ ∧ _ ∧ _ ∧ _))

/-- A finite double: `mantissa * 2 ^ exponent`, negated if `negative`. -/
structure Double where
  negative : Bool
  mantissa : Nat
  exponent : Int
  normal : Double.Normal mantissa exponent
  deriving DecidableEq

namespace Double

def zero : Double := ⟨false, 0, -1074, by decide⟩

/-- Whether two doubles are the same number; the sign of zero does not count. -/
def sameValue (x y : Double) : Bool :=
  (x.mantissa == 0 && y.mantissa == 0) ||
    (x.negative == y.negative && x.mantissa == y.mantissa && x.exponent == y.exponent)

def isWhole (x : Double) : Bool :=
  0 ≤ x.exponent || x.mantissa % Nat.pow 2 (-x.exponent).toNat == 0

def roundHalfEven (numerator denominator : Nat) : Nat :=
  let whole := numerator / denominator
  let twice := 2 * (numerator % denominator)
  if twice < denominator then whole
  else if denominator < twice then whole + 1
  else if whole % 2 = 0 then whole
  else whole + 1

def scaled (numerator denominator : Nat) (power : Int) : Nat × Nat :=
  (numerator * Nat.pow 2 (-power).toNat, denominator * Nat.pow 2 power.toNat)

/-- The power of two by which a positive quotient has 53 binary digits before the point, or the least
power that a double may have. -/
def unitPower (numerator denominator : Nat) : Int :=
  let low := (Nat.log2 numerator : Int) - Nat.log2 denominator - 53
  let (top, bottom) := scaled numerator denominator low
  max (if bound ≤ top / bottom then low + 1 else low) (-1074)

/-- The double nearest to a quotient; there is none beyond the largest double. -/
def nearest? (negative : Bool) (numerator denominator : Nat) : Option Double :=
  if numerator = 0 then some { zero with negative }
  else
    let power := unitPower numerator denominator
    let (top, bottom) := scaled numerator denominator power
    let rounded := roundHalfEven top bottom
    let (mantissa, exponent) := if rounded = bound then (leastFull, power + 1) else (rounded, power)
    if normal : Normal mantissa exponent then some { negative, mantissa, exponent, normal } else none

/-- The double nearest to an integer. -/
def ofInt? (n : Int) : Option Double :=
  nearest? (n < 0) n.natAbs 1

example : ofInt? 9007199254740993 = ofInt? 9007199254740992 := by decide +kernel
example : nearest? false 1 10 = some ⟨false, 7205759403792794, -56, by decide⟩ := by decide +kernel
example : (ofInt? (2 ^ 1024)).isNone = true := by decide +kernel

end Double

/-- A decimal number `digits * 10 ^ power`. -/
structure Decimal where
  digits : Nat
  power : Int
  deriving DecidableEq

namespace Decimal

/-- The double nearest to a decimal with a sign. A decimal of magnitude over `10 ^ 310` has none, one
below `10 ^ (-330)` is nearest to zero, and neither is worked out. -/
def nearest? (negative : Bool) (d : Decimal) : Option Double :=
  let magnitude := d.power + (Nat.toDigits 10 d.digits).length
  if d.digits = 0 ∨ magnitude < -330 then some { Double.zero with negative }
  else if 310 < magnitude then none
  else Double.nearest? negative (d.digits * Nat.pow 10 d.power.toNat)
    (Nat.pow 10 (-d.power).toNat)

example : nearest? false ⟨5, -324⟩ = some ⟨false, 1, -1074, by decide⟩ := by decide +kernel
example : nearest? false ⟨0, 400⟩ = some Double.zero := by decide +kernel
example : nearest? true ⟨17976931348623159, 292⟩ = none := by decide +kernel

end Decimal

end ContentStore
