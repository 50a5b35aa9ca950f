import ContentStore.Double.Shortest

/-!
# Written forms of a double

A layout says which numbers are written without an exponent, how a whole number ends, and which of two
equally near decimals is written. Every layout writes the shortest digits.
-/

namespace ContentStore

/-- The decisions of one written form of doubles. -/
structure DoubleLayout where
  /-- Whether a number is written without an exponent, from the place of its point after the first of
  its digits. -/
  positional : Int → Bool
  /-- What follows the last digit of a whole number written without an exponent. -/
  wholeEnding : List Char
  /-- Which of two equally near shortest decimals is written. -/
  tie : Tie

namespace DoubleLayout

/-- JSON text: an exponent from `1e+16` on and below `1e-5`, and a whole number ends in `.0`; a tie
goes to the even digit. -/
def json : DoubleLayout where
  positional point := -5 < point && point ≤ 16
  wholeEnding := ['.', '0']
  tie := .even

/-- Messages: never an exponent, and a whole number has no point; a tie goes to the greater magnitude. -/
def plain : DoubleLayout where
  positional _ := true
  wholeEnding := []
  tie := .upward

def writePositional (layout : DoubleLayout) (digits : List Char) (point : Int) : List Char :=
  if (digits.length : Int) ≤ point then
    digits ++ List.replicate (point - digits.length).toNat '0' ++ layout.wholeEnding
  else if 0 < point then
    digits.take point.toNat ++ '.' :: digits.drop point.toNat
  else
    '0' :: '.' :: List.replicate (-point).toNat '0' ++ digits

def writeExponent (digits : List Char) (point : Int) : List Char :=
  let power := point - 1
  let fraction := if digits.length ≤ 1 then [] else '.' :: digits.drop 1
  digits.take 1 ++ fraction ++
    'e' :: (if power < 0 then '-' else '+') :: Nat.toDigits 10 power.natAbs

def write (layout : DoubleLayout) (x : Double) : String :=
  let sign := if x.negative then ['-'] else []
  if x.mantissa = 0 then String.ofList (sign ++ '0' :: layout.wholeEnding)
  else
    let decimal := x.shortest layout.tie
    let digits := Nat.toDigits 10 decimal.digits
    let point := decimal.power + digits.length
    String.ofList (sign ++
      if layout.positional point then layout.writePositional digits point
      else writeExponent digits point)

end DoubleLayout

example : (Double.ofInt? 100).map DoubleLayout.json.write = some "100.0" := by decide +kernel
example : (Double.ofInt? (10 ^ 15)).map DoubleLayout.json.write = some "1000000000000000.0" := by
  decide +kernel
example : (Double.ofInt? (10 ^ 16)).map DoubleLayout.json.write = some "1e+16" := by decide +kernel
example : (Decimal.nearest? true ⟨1, -5⟩).map DoubleLayout.json.write = some "-0.00001" := by
  decide +kernel
example : (Decimal.nearest? false ⟨15, 299⟩).map DoubleLayout.json.write = some "1.5e+300" := by
  decide +kernel
example : (Decimal.nearest? false ⟨1, -6⟩).map DoubleLayout.json.write = some "1e-6" := by
  decide +kernel
example : (Decimal.nearest? false ⟨1, -7⟩).map DoubleLayout.plain.write = some "0.0000001" := by
  decide +kernel
example : (Double.nearest? true 4503599627370497 4).map DoubleLayout.json.write =
    some "-1125899906842624.2" := by decide +kernel
example : (Double.nearest? true 4503599627370497 4).map DoubleLayout.plain.write =
    some "-1125899906842624.3" := by decide +kernel
example : (Decimal.nearest? true ⟨0, 0⟩).map DoubleLayout.plain.write = some "-0" := by
  decide +kernel

end ContentStore
