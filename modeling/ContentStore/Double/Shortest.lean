import ContentStore.Double.Basic

/-!
# The shortest decimal of a double

Among the decimals that round to a double the shortest has the coarsest grid `10 ^ power`, and of two
on that grid the nearer one is taken. Where both are equally near, a rule for ties decides. All tests
compare natural numbers exactly.
-/

namespace ContentStore

/-- Which of two equally near decimals is taken: the one with the even last digit, or the greater one. -/
inductive Tie where
  | even
  | upward
  deriving DecidableEq

def Tie.toLower (tie : Tie) (lower : Nat) : Bool :=
  match tie with
  | .even => lower % 2 == 0
  | .upward => false

namespace Double

/-- The interval of numbers that round to a positive double, with its value, in quarters of its unit
`2 ^ exponent`: lower end, value, upper end. Below a power of two the next double is half as far. -/
def roundingInterval (x : Double) : Nat × Nat × Nat :=
  let value := 4 * x.mantissa
  let below := if x.mantissa = leastFull ∧ x.exponent ≠ -1074 then 1 else 2
  (value - below, value, value + 2)

/-- A point of the grid `10 ^ power` in the rounding interval, the nearer of the two around the value. -/
def onGrid? (tie : Tie) (x : Double) (power : Int) : Option Decimal :=
  let quarter := x.exponent - 2
  let step := Nat.pow 10 power.toNat * Nat.pow 2 (-quarter).toNat
  let unit := Nat.pow 10 (-power).toNat * Nat.pow 2 quarter.toNat
  let (low, value, high) := x.roundingInterval
  let inside (digits : Nat) : Bool :=
    if x.mantissa % 2 = 0 then low * unit ≤ digits * step && digits * step ≤ high * unit
    else low * unit < digits * step && digits * step < high * unit
  let lower := value * unit / step
  let upper := lower + 1
  match inside lower, inside upper with
  | false, false => none
  | true, false => some ⟨lower, power⟩
  | false, true => some ⟨upper, power⟩
  | true, true =>
      let toLower := value * unit - lower * step
      let toUpper := upper * step - value * unit
      if toLower < toUpper ∨ (toLower = toUpper ∧ tie.toLower lower) then some ⟨lower, power⟩
      else some ⟨upper, power⟩

def exactDecimal (x : Double) : Decimal :=
  if 0 ≤ x.exponent then ⟨x.mantissa * Nat.pow 2 x.exponent.toNat, 0⟩
  else ⟨x.mantissa * Nat.pow 5 (-x.exponent).toNat, x.exponent⟩

/-- The shortest decimal that rounds to a double's magnitude. The search starts above the magnitude's
own power of ten and needs at most 17 digits. -/
def shortest (tie : Tie) (x : Double) : Decimal :=
  if x.mantissa = 0 then ⟨0, 0⟩
  else
    let binary := (Nat.log2 x.mantissa : Int) + x.exponent
    let start := (binary * 30103).fdiv 100000 + 2
    ((List.range 24).findSome? fun (i : Nat) => x.onGrid? tie (start - i)).getD x.exactDecimal

example : (Double.nearest? false 1 10).map (shortest .even) = some ⟨1, -1⟩ := by decide +kernel
example : (Decimal.nearest? false ⟨5, -324⟩).map (shortest .even) = some ⟨5, -324⟩ := by
  decide +kernel
example : (Decimal.nearest? false ⟨30000000000000004, -17⟩).map (shortest .even) =
    some ⟨30000000000000004, -17⟩ := by decide +kernel
example : (Decimal.nearest? false ⟨1, 23⟩).map (shortest .upward) = some ⟨1, 23⟩ := by
  decide +kernel
example : (Double.nearest? false 1 33554432).map (shortest .even) =
    some ⟨29802322387695312, -24⟩ := by decide +kernel
example : (Double.nearest? false 1 33554432).map (shortest .upward) =
    some ⟨29802322387695313, -24⟩ := by decide +kernel

end Double

end ContentStore
