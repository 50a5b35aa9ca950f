import ContentStore.Content.Calendar
import ContentStore.Double.Basic
import ContentStore.Text.Ascii
import ContentStore.Toml.Text

/-!
# Values and tables of TOML

Of a value only integers are kept; of any other it is checked that it is written well. Tables are kept
with the way in which they came about, since that decides whether more may be added to them.
-/

namespace ContentStore.Toml

/-- A value: an integer of 64 bits, or something else. -/
inductive Value where
  | integer (n : Int)
  | other
  deriving DecidableEq

/-- How a table came about: by a header or as the root, as part of another header, or by a dotted key. -/
inductive Origin where
  | header
  | onTheWay
  | dotted
  deriving DecidableEq

/-- What stands under a key: a value, a table, or the tables of an array, each opened by a header. -/
inductive Item where
  | value (v : Value)
  | table (origin : Origin) (entries : List (String × Item))
  | tables (earlier : List (List (String × Item))) (last : List (String × Item))

abbrev Table := Origin × List (String × Item)

namespace Table

def root : Table := (.header, [])

def put (key : String) (item : Item) (entries : List (String × Item)) : List (String × Item) :=
  entries.map fun (k, i) => if k = key then (k, item) else (k, i)

/-- Edits the table at the end of a path. Missing tables are made with a given origin; through a dotted
key no table made by a header may be entered. An array stands for its last table. -/
def edit (origin : Origin) (change : Table → Option Table) : List String → Table → Option Table
  | [], table => change table
  | key :: path, (kind, entries) =>
      match entries.lookup key with
      | none => do
          let (made, inner) ← edit origin change path (origin, [])
          return (kind, entries ++ [(key, .table made inner)])
      | some (.table inside inner) => do
          if origin = .dotted ∧ inside = .header then none
          else
            let (inside, inner) ← edit origin change path (inside, inner)
            return (kind, put key (.table inside inner) entries)
      | some (.tables earlier last) => do
          let (_, last) ← edit origin change path (.header, last)
          return (kind, put key (.tables earlier last) entries)
      | some (.value _) => none

def addValue (key : String) (value : Value) : Table → Option Table
  | (kind, entries) =>
      if (entries.lookup key).isSome then none else some (kind, entries ++ [(key, .value value)])

/-- Adds a value under a dotted key; the table of the last part must itself come from a dotted key. -/
def addDotted (path : List String) (key : String) (value : Value) (table : Table) : Option Table :=
  edit .dotted (fun inner =>
    if (inner.1 = .dotted) = (path = []) then none else addValue key value inner) path table

/-- Opens a table by a header. One that was only on the way to another is opened now. -/
def openTable (key : String) : Table → Option Table
  | (kind, entries) =>
      match entries.lookup key with
      | none => some (kind, entries ++ [(key, .table .header [])])
      | some (.table .onTheWay inner) => some (kind, put key (.table .header inner) entries)
      | some _ => none

def openNext (key : String) : Table → Option Table
  | (kind, entries) =>
      match entries.lookup key with
      | none => some (kind, entries ++ [(key, .tables [] [])])
      | some (.tables earlier last) =>
          some (kind, put key (.tables (earlier ++ [last]) []) entries)
      | some _ => none

end Table

/-- Splits a key of several parts before its last part. -/
def splitKey : List String → Option (List String × String)
  | [] => none
  | [key] => some ([], key)
  | part :: rest => (splitKey rest).map fun (path, key) => (part :: path, key)

def digitGroups? (digit : Char → Bool) (cs : List Char) : Option (List Char) :=
  match Text.splitFirst '_' cs with
  | none => if cs ≠ [] ∧ cs.all digit then some cs else none
  | some _ =>
      if cs.head?.any digit ∧ cs.getLast?.any digit ∧ (cs.all fun c => digit c || c = '_') ∧
          ((cs.zip (cs.drop 1)).all fun (a, b) => !(a = '_' && b = '_')) then
        some (cs.filter fun c => c != '_')
      else none

def takeSign : List Char → Bool × List Char
  | '-' :: rest => (true, rest)
  | '+' :: rest => (false, rest)
  | cs => (false, cs)

def wholeDigits? (cs : List Char) : Option (List Char) := do
  let digits ← digitGroups? Char.isDigit cs
  if digits.length ≠ 1 ∧ digits.head? = some '0' then none else some digits

/-- An integer that fits in 64 bits with its sign. -/
def bounded? (n : Int) : Option Value :=
  if -9223372036854775808 ≤ n ∧ n ≤ 9223372036854775807 then some (.integer n) else none

def inBase? (base : Nat) (cs : List Char) : Option Value := do
  let isDigit (c : Char) : Bool := (Json.Token.hexDigit? c).any (· < base)
  let digits ← digitGroups? isDigit cs
  let digits ← digits.mapM Json.Token.hexDigit?
  bounded? (digits.foldl (fun value digit => value * base + digit) 0 : Nat)

def integer? : List Char → Option Value
  | '0' :: 'x' :: digits => inBase? 16 digits
  | '0' :: 'o' :: digits => inBase? 8 digits
  | '0' :: 'b' :: digits => inBase? 2 digits
  | cs => do
      let (negative, cs) := takeSign cs
      let digits ← wholeDigits? cs
      let size : Int := Nat.ofDigitChars 10 digits 0
      bounded? (if negative then -size else size)

/-- A number with a point or an exponent; there is none above the largest double. -/
def float? (cs : List Char) : Option Value := do
  let (negative, cs) := takeSign cs
  if cs = ['i', 'n', 'f'] ∨ cs = ['n', 'a', 'n'] then return .other
  let (mantissa, exponent) :=
    match Text.splitFirst 'e' (cs.map fun c => if c = 'E' then 'e' else c) with
    | some (mantissa, exponent) => (mantissa, some exponent)
    | none => (cs, none)
  let (whole, fraction) :=
    match Text.splitFirst '.' mantissa with
    | some (whole, fraction) => (whole, some fraction)
    | none => (mantissa, none)
  if exponent.isNone ∧ fraction.isNone then none
  else
    let whole ← wholeDigits? whole
    let fraction ← (fraction.map (digitGroups? Char.isDigit)).getD (some [])
    let (below, power) := takeSign (exponent.getD ['0'])
    let power ← digitGroups? Char.isDigit power
    let size : Int := Nat.ofDigitChars 10 power 0
    let decimal : Decimal :=
      ⟨Nat.ofDigitChars 10 (whole ++ fraction) 0, (if below then -size else size) - fraction.length⟩
    if negative ∨ (decimal.nearest? false).isSome then some .other else none

def takeClock? (cs : List Char) : Option (List Char) :=
  (Calendar.takeTime? cs).bind Calendar.takeFraction?

def clock (afterDate : Bool) (cs : List Char) : Bool :=
  match takeClock? cs with
  | some [] => true
  | some rest => afterDate && Calendar.offset rest && !rest.contains '−'
  | none => false

def moment? (cs : List Char) : Option Value :=
  match Calendar.takeDate? cs with
  | some [] => some .other
  | some (c :: rest) => if (c = 'T' ∨ c = 't') ∧ clock true rest then some .other else none
  | none => if clock false cs then some .other else none

def bool? (cs : List Char) : Option Value :=
  if cs = ['t', 'r', 'u', 'e'] ∨ cs = ['f', 'a', 'l', 's', 'e'] then some .other else none

def wordChar (c : Char) : Bool :=
  c.isAlphanum || c = '+' || c = '-' || c = '.' || c = '_' || c = ':'

def word? (cs : List Char) : Option (Value × List Char) :=
  let word := cs.takeWhile wordChar
  let rest := cs.drop word.length
  match Calendar.takeDate? word, rest with
  | some [], ' ' :: c :: more =>
      if c.isDigit then
        let time := (c :: more).takeWhile wordChar
        if clock true time then some (.other, (c :: more).drop time.length) else none
      else some (.other, rest)
  | _, _ =>
      ((bool? word).or ((integer? word).or ((float? word).or (moment? word)))).map fun v => (v, rest)

/-- Takes the items of an array up to its end, at most the given number. A comma may follow the last. -/
def items? (item? : List Char → Option (Value × List Char)) : Nat → List Char → Option (List Char)
  | 0, _ => none
  | count + 1, cs => do
      match ← dropVoid? false cs with
      | ']' :: rest => some rest
      | cs =>
          let (_, rest) ← item? cs
          match ← dropVoid? false rest with
          | ',' :: rest => items? item? count rest
          | ']' :: rest => some rest
          | _ => none

/-- The greatest number of arrays and inline tables inside one another, and of parts of a key. -/
def nestingLimit : Nat := 80

def pairs? (value? : List Char → Option (Value × List Char)) :
    Nat → Table → List Char → Option (List Char)
  | 0, _, _ => none
  | count + 1, table, cs => do
      let (key, rest) ← key? (nestingLimit - 1) cs
      let (path, last) ← splitKey key
      match rest with
      | '=' :: rest =>
          let (value, rest) ← value? (dropBlanks rest)
          let table ← table.addDotted path last value
          match dropBlanks rest with
          | ',' :: rest => pairs? value? count table rest
          | '\x7d' :: rest => some rest
          | _ => none
      | _ => none

def value? : Nat → List Char → Option (Value × List Char)
  | _, '"' :: rest => (string? ('"' :: rest)).map fun rest => (.other, rest)
  | _, '\'' :: rest => (string? ('\'' :: rest)).map fun rest => (.other, rest)
  | depth + 1, '[' :: rest =>
      (items? (value? depth) (rest.length + 1) rest).map fun rest => (.other, rest)
  | depth + 1, '\x7b' :: rest =>
      match dropBlanks rest with
      | '\x7d' :: rest => some (.other, rest)
      | rest => (pairs? (value? depth) (rest.length + 1) Table.root rest).map fun rest => (.other, rest)
  | _, cs => word? cs

end ContentStore.Toml
