import ContentStore.Json.Basic
import ContentStore.Json.Token

/-!
# JSON values as they stand in a text

A raw value keeps the members of an object as they were written, repeated keys included. A part that has
no value is marked faulty: a token without a value, an object with such a key, and every array or object
inside `nestingLimit` others. A reader that skips a faulty part goes on; one that needs it fails.

Reading is a fold over the tokens with a stack of the arrays and objects that are still open.
-/

namespace ContentStore.Json

/-- A JSON value as it stands in a text. -/
inductive Raw where
  | faulty
  | null
  | bool (b : Bool)
  | number (n : Number)
  | string (s : String)
  | array (items : List Raw)
  | object (members : List (String × Raw))

def nestingLimit : Nat := 127

namespace Raw

/-- An array or object that is still open, with what it holds so far, last first: an array, an object
between two members, or an object whose next member has its key and awaits its value. An object is sound
while none of its keys is lost. -/
inductive Frame where
  | array (items : List Raw)
  | object (sound : Bool) (members : List (String × Raw))
  | member (sound : Bool) (members : List (String × Raw)) (key : Option String)

/-- What may come next inside an open frame. -/
inductive Expected where
  | value
  | itemOrClose
  | key
  | keyOrClose
  | colon
  | commaOrClose

/-- The state between two tokens. -/
inductive Parse where
  | pending (stack : List Frame) (expected : Expected)
  | done (value : Raw)

namespace Parse

def initial : Parse := .pending [] .value

def deliver (value : Raw) : List Frame → Option Parse
  | [] => some (.done value)
  | .array items :: stack => some (.pending (.array (value :: items) :: stack) .commaOrClose)
  | .member sound members (some key) :: stack =>
      some (.pending (.object sound ((key, value) :: members) :: stack) .commaOrClose)
  | .member _ members none :: stack =>
      some (.pending (.object false members :: stack) .commaOrClose)
  | .object _ _ :: _ => none

/-- A closed array or object, faulty if too many are open around it. -/
def closed (stack : List Frame) (value : Raw) : Raw :=
  if stack.length < nestingLimit then value else .faulty

def closeArray : List Frame → Option Parse
  | .array items :: stack => deliver (closed stack (.array items.reverse)) stack
  | _ => none

def closeObject : List Frame → Option Parse
  | .object sound members :: stack =>
      deliver (closed stack (if sound then .object members.reverse else .faulty)) stack
  | _ => none

def beginValue (stack : List Frame) : Token → Option Parse
  | .null => deliver .null stack
  | .bool b => deliver (.bool b) stack
  | .number value => deliver ((value.map Raw.number).getD .faulty) stack
  | .string value => deliver ((value.map Raw.string).getD .faulty) stack
  | .openArray => some (.pending (.array [] :: stack) .itemOrClose)
  | .openObject => some (.pending (.object true [] :: stack) .keyOrClose)
  | _ => none

def beginMember : List Frame → Token → Option Parse
  | .object sound members :: stack, .string key =>
      some (.pending (.member sound members key :: stack) .colon)
  | _, _ => none

/-- Takes one token. Nothing may follow a finished value. -/
def step : Parse → Token → Option Parse
  | .pending stack .value, token => beginValue stack token
  | .pending stack .itemOrClose, .closeArray => closeArray stack
  | .pending stack .itemOrClose, token => beginValue stack token
  | .pending stack .keyOrClose, .closeObject => closeObject stack
  | .pending stack .keyOrClose, token => beginMember stack token
  | .pending stack .key, token => beginMember stack token
  | .pending stack .colon, .colon => some (.pending stack .value)
  | .pending stack .commaOrClose, .closeArray => closeArray stack
  | .pending stack .commaOrClose, .closeObject => closeObject stack
  | .pending (.array items :: stack) .commaOrClose, .comma =>
      some (.pending (.array items :: stack) .value)
  | .pending (.object sound members :: stack) .commaOrClose, .comma =>
      some (.pending (.object sound members :: stack) .key)
  | _, _ => none

def value? : Parse → Option Raw
  | .done value => some value
  | .pending _ _ => none

end Parse

def ofTokens? (tokens : List Token) : Option Raw :=
  (tokens.foldlM Parse.step Parse.initial).bind Parse.value?

def ofText? (text : String) : Option Raw :=
  (Token.scan? text.toList).bind ofTokens?

mutual

def sound : Raw → Bool
  | .faulty => false
  | .array items => soundItems items
  | .object members => soundMembers members
  | _ => true

def soundItems : List Raw → Bool
  | [] => true
  | item :: rest => item.sound && soundItems rest

def soundMembers : List (String × Raw) → Bool
  | [] => true
  | (_, value) :: rest => value.sound && soundMembers rest

end

mutual

/-- The value as content: members sorted by key, the last of several with one key. -/
def toJson? : Raw → Option Json
  | .faulty => none
  | .null => some .null
  | .bool b => some (.bool b)
  | .number n => some (.number n)
  | .string s => some (.string s)
  | .array items => (itemsToJson? items).map .array
  | .object members => (membersToJson? members).map fun members => .object (Entries.sort members)

def itemsToJson? : List Raw → Option (List Json)
  | [] => some []
  | item :: rest => do
      let item ← item.toJson?
      let rest ← itemsToJson? rest
      return item :: rest

def membersToJson? : List (String × Raw) → Option (List (String × Json))
  | [] => some []
  | (key, value) :: rest => do
      let value ← value.toJson?
      let rest ← membersToJson? rest
      return (key, value) :: rest

end

mutual

def ofJson : Json → Raw
  | .null => .null
  | .bool b => .bool b
  | .number n => .number n
  | .string s => .string s
  | .array items => .array (ofItems items)
  | .object members => .object (ofMembers members)

def ofItems : List Json → List Raw
  | [] => []
  | item :: rest => ofJson item :: ofItems rest

def ofMembers : List (String × Json) → List (String × Raw)
  | [] => []
  | (key, value) :: rest => (key, ofJson value) :: ofMembers rest

end

end Raw

def ofText? (text : String) : Option Json :=
  (Raw.ofText? text).bind Raw.toJson?

end ContentStore.Json
