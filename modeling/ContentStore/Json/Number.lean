import ContentStore.Double.Notation

/-!
# Numbers of JSON values

A number is an integer of 64 bits, signed or unsigned, or a finite double. A literal without point and
exponent is an integer where it fits; every other literal, and minus zero, is a double.
-/

namespace ContentStore.Json

/-- An integer that fits in 64 bits, signed or unsigned. -/
structure Integer where
  value : Int
  lower : -9223372036854775808 ≤ value
  upper : value ≤ 18446744073709551615
  deriving DecidableEq

inductive Number where
  | int (n : Integer)
  | float (x : Double)
  deriving DecidableEq

namespace Integer

def ofInt? (value : Int) : Option Integer :=
  if h : -9223372036854775808 ≤ value ∧ value ≤ 18446744073709551615 then
    some ⟨value, h.1, h.2⟩
  else none

def ofNat (n : Nat) (h : n ≤ 18446744073709551615) : Integer :=
  ⟨n, by omega, by omega⟩

theorem ofInt?_value (n : Integer) : ofInt? n.value = some n := by
  simp [ofInt?, n.lower, n.upper]

end Integer

namespace Number

def toDouble? : Number → Option Double
  | .int n => Double.ofInt? n.value
  | .float x => some x

def toNat? : Number → Option Nat
  | .int n => if 0 ≤ n.value then some n.value.toNat else none
  | .float _ => none

theorem toNat?_ofNat {n : Nat} (h : n ≤ 18446744073709551615) :
    (Number.int (Integer.ofNat n h)).toNat? = some n := by
  show (if (0 : Int) ≤ n then some (n : Int).toNat else none) = some n
  rw [if_pos (by omega), Int.toNat_natCast]

def isWhole : Number → Bool
  | .int _ => true
  | .float x => x.isWhole

def text : Number → String
  | .int n => toString n.value
  | .float x => DoubleLayout.json.write x

end Number

/-- The parts of a number literal: sign, digits before the point, digits after it, exponent. -/
structure Literal where
  negative : Bool
  whole : List Char
  fraction : List Char
  exponent : Option Int

namespace Literal

def exponent? (cs : List Char) : Option Int :=
  let (negative, digits) :=
    match cs with
    | '-' :: rest => (true, rest)
    | '+' :: rest => (false, rest)
    | rest => (false, rest)
  if digits ≠ [] ∧ digits.all Char.isDigit then
    let size := Nat.ofDigitChars 10 digits 0
    some (if negative then -size else size)
  else none

/-- Takes a literal apart by JSON's number grammar: no leading zeros, a digit on each side of the point. -/
def ofChars? (cs : List Char) : Option Literal :=
  let (negative, cs) :=
    match cs with
    | '-' :: rest => (true, rest)
    | cs => (false, cs)
  let whole := cs.takeWhile Char.isDigit
  let cs := cs.dropWhile Char.isDigit
  let (point, fraction, cs) :=
    match cs with
    | '.' :: rest => (true, rest.takeWhile Char.isDigit, rest.dropWhile Char.isDigit)
    | cs => (false, [], cs)
  if whole = [] ∨ (whole.length ≠ 1 ∧ whole.head? = some '0') ∨ (point ∧ fraction = []) then none
  else
    match cs with
    | [] => some { negative, whole, fraction, exponent := none }
    | c :: rest =>
        if c = 'e' ∨ c = 'E' then
          (exponent? rest).map fun power => { negative, whole, fraction, exponent := some power }
        else none

def isInteger (l : Literal) : Bool :=
  l.fraction.isEmpty && l.exponent.isNone

/-- The number of a literal. There is none for a literal that rounds to no finite double. -/
def number? (l : Literal) : Option Number :=
  let digits := Nat.ofDigitChars 10 (l.whole ++ l.fraction) 0
  let value : Int := if l.negative then -digits else digits
  let fits :=
    if l.isInteger ∧ ¬ (l.negative ∧ digits = 0) then Integer.ofInt? value else none
  match fits with
  | some n => some (.int n)
  | none =>
      let power := l.exponent.getD 0 - l.fraction.length
      ((Decimal.mk digits power).nearest? l.negative).map Number.float

end Literal

end ContentStore.Json
