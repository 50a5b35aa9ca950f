import ContentStore.Json.Number

/-!
# Tokens of JSON text

A text is cut into punctuation, literal names, numbers and strings; blanks between them carry no meaning.
A number too large for a double and a string with half a surrogate pair are tokens without a value: the
text around them can be read, but whoever needs the value cannot.
-/

namespace ContentStore.Json

inductive Token where
  | openArray
  | closeArray
  | openObject
  | closeObject
  | comma
  | colon
  | null
  | bool (b : Bool)
  | number (value : Option Number)
  | string (value : Option String)
  deriving DecidableEq

namespace Token

def blank (c : Char) : Bool :=
  c = ' ' || c = '\n' || c = '\r' || c = '\t'

def punctuation? (c : Char) : Option Token :=
  if c = '[' then some .openArray
  else if c = ']' then some .closeArray
  else if c = '\x7b' then some .openObject
  else if c = '\x7d' then some .closeObject
  else if c = ',' then some .comma
  else if c = ':' then some .colon
  else none

def numeral (c : Char) : Bool :=
  c.isDigit || c = '-' || c = '+' || c = '.' || c = 'e' || c = 'E'

def ofName? (name : List Char) : Option Token :=
  if name = ['n', 'u', 'l', 'l'] then some .null
  else if name = ['t', 'r', 'u', 'e'] then some (.bool true)
  else if name = ['f', 'a', 'l', 's', 'e'] then some (.bool false)
  else none

def ofNumeral? (cs : List Char) : Option Token :=
  (Literal.ofChars? cs).map fun literal => .number literal.number?

def hexDigit? (c : Char) : Option Nat :=
  if c.isDigit then some (c.toNat - '0'.toNat)
  else if 'a' ≤ c ∧ c ≤ 'f' then some (c.toNat - 'a'.toNat + 10)
  else if 'A' ≤ c ∧ c ≤ 'F' then some (c.toNat - 'A'.toNat + 10)
  else none

def codeUnit? (a b c d : Char) : Option Nat := do
  let a ← hexDigit? a
  let b ← hexDigit? b
  let c ← hexDigit? c
  let d ← hexDigit? d
  return ((a * 16 + b) * 16 + c) * 16 + d

def shortEscape? (c : Char) : Option Char :=
  if c = '"' ∨ c = '\\' ∨ c = '/' then some c
  else if c = 'b' then some '\x08'
  else if c = 'f' then some '\x0c'
  else if c = 'n' then some '\n'
  else if c = 'r' then some '\r'
  else if c = 't' then some '\t'
  else none

def leading (unit : Nat) : Bool := 0xd800 ≤ unit && unit < 0xdc00

def trailing (unit : Nat) : Bool := 0xdc00 ≤ unit && unit < 0xe000

/-- A piece of a string: a character, or a code unit written in hexadecimal. -/
inductive Piece where
  | char (c : Char)
  | unit (code : Nat)

/-- The pieces of the text between quote marks; there are none where an escape is malformed. -/
def pieces? : List Char → Option (List Piece)
  | [] => some []
  | '\\' :: 'u' :: a :: b :: c :: d :: rest => do
      let code ← codeUnit? a b c d
      let pieces ← pieces? rest
      return .unit code :: pieces
  | '\\' :: e :: rest => do
      let c ← shortEscape? e
      let pieces ← pieces? rest
      return .char c :: pieces
  | c :: rest => do
      let pieces ← pieces? rest
      return .char c :: pieces

/-- The text of pieces, a surrogate pair being one character; half a pair alone has no text. -/
def textOfPieces? : List Piece → Option (List Char)
  | [] => some []
  | .char c :: rest => (textOfPieces? rest).map (c :: ·)
  | .unit code :: .unit low :: rest =>
      if leading code then
        if trailing low then
          let c := Char.ofNat (0x10000 + (code - 0xd800) * 0x400 + (low - 0xdc00))
          (textOfPieces? rest).map (c :: ·)
        else none
      else if trailing code then none
      else (textOfPieces? (.unit low :: rest)).map (Char.ofNat code :: ·)
  | .unit code :: rest =>
      if leading code ∨ trailing code then none
      else (textOfPieces? rest).map (Char.ofNat code :: ·)

def ofBody? (body : List Char) : Option Token :=
  (pieces? body).map fun pieces => .string ((textOfPieces? pieces).map String.ofList)

/-- What the text read so far ends in; the characters of an unfinished token stand last first. -/
inductive Mode where
  | ground
  | name (letters : List Char)
  | numeral (chars : List Char)
  | text (body : List Char)
  | escape (body : List Char)

/-- The tokens found so far, last first, and the unfinished one. -/
structure Scan where
  mode : Mode
  found : List Token

namespace Scan

def start (found : List Token) (c : Char) : Option Scan :=
  if blank c then some ⟨.ground, found⟩
  else if c = '"' then some ⟨.text [], found⟩
  else if c = '-' ∨ c.isDigit then some ⟨.numeral [c], found⟩
  else if c.isAlpha then some ⟨.name [c], found⟩
  else (punctuation? c).map fun token => ⟨.ground, token :: found⟩

def step (scan : Scan) (c : Char) : Option Scan :=
  match scan.mode with
  | .ground => start scan.found c
  | .name letters =>
      if c.isAlpha then some ⟨.name (c :: letters), scan.found⟩
      else (ofName? letters.reverse).bind fun token => start (token :: scan.found) c
  | .numeral chars =>
      if numeral c then some ⟨.numeral (c :: chars), scan.found⟩
      else (ofNumeral? chars.reverse).bind fun token => start (token :: scan.found) c
  | .text body =>
      if c = '"' then (ofBody? body.reverse).map fun token => ⟨.ground, token :: scan.found⟩
      else if c = '\\' then some ⟨.escape (c :: body), scan.found⟩
      else if c.toNat < 32 then none
      else some ⟨.text (c :: body), scan.found⟩
  | .escape body =>
      if c.toNat < 32 then none else some ⟨.text (c :: body), scan.found⟩

/-- Ends the text; a string may not be left open. -/
def finish (scan : Scan) : Option (List Token) :=
  match scan.mode with
  | .ground => some scan.found.reverse
  | .name letters => (ofName? letters.reverse).map fun token => (token :: scan.found).reverse
  | .numeral chars => (ofNumeral? chars.reverse).map fun token => (token :: scan.found).reverse
  | .text _ | .escape _ => none

end Scan

def scan? (cs : List Char) : Option (List Token) :=
  (cs.foldlM Scan.step ⟨.ground, []⟩).bind Scan.finish

def escaped (c : Char) : List Char :=
  if c = '"' then ['\\', '"']
  else if c = '\\' then ['\\', '\\']
  else if c = '\x08' then ['\\', 'b']
  else if c = '\x0c' then ['\\', 'f']
  else if c = '\n' then ['\\', 'n']
  else if c = '\r' then ['\\', 'r']
  else if c = '\t' then ['\\', 't']
  else if c.toNat < 32 then
    ['\\', 'u', '0', '0', Nat.digitChar (c.toNat / 16), Nat.digitChar (c.toNat % 16)]
  else [c]

def quote (s : String) : String :=
  String.ofList ('"' :: s.toList.flatMap escaped ++ ['"'])

/-- The text of a token; a token without a value has none. -/
def text : Token → String
  | .openArray => "["
  | .closeArray => "]"
  | .openObject => "\x7b"
  | .closeObject => "\x7d"
  | .comma => ","
  | .colon => ":"
  | .null => "null"
  | .bool b => if b then "true" else "false"
  | .number value => (value.map Number.text).getD ""
  | .string value => (value.map quote).getD ""

example : scan? "[1, true]".toList =
    some [.openArray, .number (some (.int (Integer.ofNat 1 (by decide)))), .comma, .bool true,
      .closeArray] := by
  decide +kernel
example : scan? "\"\\ud83d\\ude00\\u0041\"".toList = some [.string (some "😀A")] := by
  decide +kernel
example : scan? "\"\\ud83d\"".toList = some [.string none] := by decide +kernel
example : scan? "1e400".toList = some [.number none] := by decide +kernel
example : scan? "01".toList = none := by decide +kernel

end Token

end ContentStore.Json
