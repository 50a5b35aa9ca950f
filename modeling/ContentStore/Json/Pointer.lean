import ContentStore.Json.Basic

/-!
# Pointers into JSON values

A pointer is empty or a list of steps, each after a slash. In a step `~1` stands for a slash and `~0` for
a tilde. A step into an array is a place without sign and leading zeros.
-/

namespace ContentStore.Json

def splitAll (separator : Char) : List Char → List (List Char)
  | [] => [[]]
  | c :: rest =>
      if c = separator then [] :: splitAll separator rest
      else
        match splitAll separator rest with
        | part :: parts => (c :: part) :: parts
        | [] => [[c]]

def replacePair (a b c : Char) : List Char → List Char
  | x :: y :: rest =>
      if x = a ∧ y = b then c :: replacePair a b c rest else x :: replacePair a b c (y :: rest)
  | cs => cs

def pointerStep (step : List Char) : String :=
  String.ofList (replacePair '~' '0' '~' (replacePair '~' '1' '/' step))

def pointerPlace? (step : String) : Option Nat :=
  let digits := step.toList
  if digits ≠ [] ∧ digits.all Char.isDigit ∧ (digits.length = 1 ∨ digits.head? ≠ some '0') then
    some (Nat.ofDigitChars 10 digits 0)
  else none

def follow? (value : Json) (step : String) : Option Json :=
  match value with
  | .object members => members.lookup step
  | .array items => (pointerPlace? step).bind fun place => items[place]?
  | _ => none

def at? (value : Json) (pointer : String) : Option Json :=
  match pointer.toList with
  | [] => some value
  | '/' :: steps => (splitAll '/' steps).foldlM (fun value step => value.follow? (pointerStep step)) value
  | _ => none

end ContentStore.Json
