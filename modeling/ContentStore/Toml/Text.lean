import ContentStore.Json.Token

/-!
# Blanks, comments, keys and strings of TOML

Every function takes a piece off the front of a text and gives what it found with the text after it, or
nothing where the text does not start with such a piece.
-/

namespace ContentStore.Toml

def blank (c : Char) : Bool :=
  c = ' ' || c = '\t'

/-- Whether a character may stand in comments and strings: a tab, or no control character. -/
def printable (c : Char) : Bool :=
  c = '\t' || (32 ≤ c.toNat && c.toNat ≠ 127)

def dropBlanks (cs : List Char) : List Char :=
  cs.dropWhile blank

def lineBreak? : List Char → Option (List Char)
  | '\n' :: rest => some rest
  | '\r' :: '\n' :: rest => some rest
  | _ => none

/-- Takes the end of a line, a comment before it included. The end of the text ends its line. -/
def lineEnd? (cs : List Char) : Option (List Char) :=
  let cs :=
    match dropBlanks cs with
    | '#' :: rest => rest.dropWhile printable
    | cs => cs
  match cs with
  | [] => some []
  | cs => lineBreak? cs

/-- Takes blanks, line breaks and comments; inside a comment until the end of its line. -/
def dropVoid? (comment : Bool) : List Char → Option (List Char)
  | [] => some []
  | '\r' :: '\n' :: rest => dropVoid? false rest
  | c :: rest =>
      if c = '\n' then dropVoid? false rest
      else if comment then if printable c then dropVoid? true rest else none
      else if blank c then dropVoid? false rest
      else if c = '#' then dropVoid? true rest
      else some (c :: rest)

def codePoint? (digits : List Char) : Option Char := do
  let digits ← digits.mapM Json.Token.hexDigit?
  let code := digits.foldl (fun value digit => value * 16 + digit) 0
  if h : code.isValidChar then some (Char.ofNatAux code h) else none

def shortEscape? (c : Char) : Option Char :=
  match c with
  | 'b' => some '\x08'
  | 't' => some '\t'
  | 'n' => some '\n'
  | 'f' => some '\x0c'
  | 'r' => some '\r'
  | '"' => some '"'
  | '\\' => some '\\'
  | _ => none

def basic? : List Char → Option (List Char × List Char)
  | '"' :: rest => some ([], rest)
  | '\\' :: 'u' :: a :: b :: c :: d :: rest => do
      let x ← codePoint? [a, b, c, d]
      let (text, rest) ← basic? rest
      return (x :: text, rest)
  | '\\' :: 'U' :: a :: b :: c :: d :: e :: f :: g :: h :: rest => do
      let x ← codePoint? [a, b, c, d, e, f, g, h]
      let (text, rest) ← basic? rest
      return (x :: text, rest)
  | '\\' :: e :: rest => do
      let x ← shortEscape? e
      let (text, rest) ← basic? rest
      return (x :: text, rest)
  | c :: rest => do
      if c ≠ '\\' ∧ printable c then
        let (text, rest) ← basic? rest
        return (c :: text, rest)
      else none
  | [] => none

def literal? (cs : List Char) : Option (List Char × List Char) :=
  let text := cs.takeWhile fun c => printable c && c != '\''
  match cs.drop text.length with
  | '\'' :: rest => some (text, rest)
  | _ => none

/-- Where the reading of a string of several lines stands: in its text, after some quote marks, after a
backslash, in an escape with digits still to come, or in the blanks that a backslash at the end of a line
drops, before or after the line break. -/
inductive Inside where
  | text
  | quotes (count : Nat)
  | escape
  | digits (left : Nat) (code : List Char)
  | lineTail
  | nextLine

/-- Where reading stands after a character of the text; `escapes` tells whether a backslash escapes. -/
def afterText? (escapes : Bool) (quote : Char) (c : Char) : Option Inside :=
  if c = quote then some (.quotes 1)
  else if escapes ∧ c = '\\' then some .escape
  else if c = '\n' ∨ printable c then some .text
  else none

def afterEscape? (c : Char) : Option Inside :=
  if c = 'u' then some (.digits 4 [])
  else if c = 'U' then some (.digits 8 [])
  else if c = '\n' then some .nextLine
  else if blank c then some .lineTail
  else (shortEscape? c).map fun _ => .text

/-- Takes the rest of a string of several lines. Three quote marks close it, and up to two more before
them belong to it. -/
def multiline? (escapes : Bool) (quote : Char) : Inside → List Char → Option (List Char)
  | .quotes count, [] => if 3 ≤ count then some [] else none
  | _, [] => none
  | inside, '\r' :: '\n' :: rest =>
      match inside with
      | .text => multiline? escapes quote .text rest
      | .quotes count =>
          if 3 ≤ count then some ('\r' :: '\n' :: rest) else multiline? escapes quote .text rest
      | .escape | .lineTail | .nextLine => multiline? escapes quote .nextLine rest
      | .digits _ _ => none
  | inside, c :: rest =>
      match inside with
      | .text =>
          match afterText? escapes quote c with
          | some inside => multiline? escapes quote inside rest
          | none => none
      | .quotes count =>
          if c = quote ∧ count < 5 then multiline? escapes quote (.quotes (count + 1)) rest
          else if 3 ≤ count then some (c :: rest)
          else
            match afterText? escapes quote c with
            | some inside => multiline? escapes quote inside rest
            | none => none
      | .escape =>
          match afterEscape? c with
          | some inside => multiline? escapes quote inside rest
          | none => none
      | .digits left code =>
          if left ≤ 1 then
            if (codePoint? (c :: code).reverse).isSome then multiline? escapes quote .text rest else none
          else multiline? escapes quote (.digits (left - 1) (c :: code)) rest
      | .lineTail =>
          if blank c then multiline? escapes quote .lineTail rest
          else if c = '\n' then multiline? escapes quote .nextLine rest
          else none
      | .nextLine =>
          if blank c ∨ c = '\n' then multiline? escapes quote .nextLine rest
          else
            match afterText? escapes quote c with
            | some inside => multiline? escapes quote inside rest
            | none => none

def string? : List Char → Option (List Char)
  | '"' :: '"' :: '"' :: rest => multiline? true '"' .text rest
  | '\'' :: '\'' :: '\'' :: rest => multiline? false '\'' .text rest
  | '"' :: rest => (basic? rest).map Prod.snd
  | '\'' :: rest => (literal? rest).map Prod.snd
  | _ => none

def bareKeyChar (c : Char) : Bool :=
  c.isAlphanum || c = '_' || c = '-'

def keyPart? : List Char → Option (String × List Char)
  | '"' :: rest => (basic? rest).map fun (key, rest) => (String.ofList key, rest)
  | '\'' :: rest => (literal? rest).map fun (key, rest) => (String.ofList key, rest)
  | cs =>
      let key := cs.takeWhile bareKeyChar
      if key.isEmpty then none else some (String.ofList key, cs.drop key.length)

def key? : Nat → List Char → Option (List String × List Char)
  | 0, _ => none
  | parts + 1, cs => do
      let (part, rest) ← keyPart? (dropBlanks cs)
      match dropBlanks rest with
      | '.' :: rest =>
          let (more, rest) ← key? parts rest
          return (part :: more, rest)
      | rest => return ([part], rest)

end ContentStore.Toml
