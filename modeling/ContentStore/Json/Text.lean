import ContentStore.Json.Raw

/-!
# The text of a JSON value

A value is written without blanks, its members in the order in which they stand. The tokens come first
and their texts are joined, so that reading can be followed token by token.
-/

namespace ContentStore.Json

mutual

def tokensOnto : Json → List Token → List Token
  | .null, rest => .null :: rest
  | .bool b, rest => .bool b :: rest
  | .number n, rest => .number (some n) :: rest
  | .string s, rest => .string (some s) :: rest
  | .array items, rest => .openArray :: itemTokensOnto true items (.closeArray :: rest)
  | .object members, rest => .openObject :: memberTokensOnto true members (.closeObject :: rest)

def itemTokensOnto (first : Bool) : List Json → List Token → List Token
  | [], rest => rest
  | item :: items, rest =>
      let tokens := item.tokensOnto (itemTokensOnto false items rest)
      if first then tokens else .comma :: tokens

def memberTokensOnto (first : Bool) : List (String × Json) → List Token → List Token
  | [], rest => rest
  | (key, value) :: members, rest =>
      let tokens := .string (some key) :: .colon ::
        value.tokensOnto (memberTokensOnto false members rest)
      if first then tokens else .comma :: tokens

end

def tokens (value : Json) : List Token :=
  value.tokensOnto []

def text (value : Json) : String :=
  String.join (value.tokens.map Token.text)

example : (ofText? "\x7b\"b\":[1,-0,2.50],\"a\":null,\"b\":\"\\n\"\x7d").map text =
    some "\x7b\"a\":null,\"b\":\"\\n\"\x7d" := by
  decide +kernel
example : (ofText? "[1,-0,2.50,18446744073709551616]").map text =
    some "[1,-0.0,2.5,1.8446744073709552e+19]" := by
  decide +kernel

end ContentStore.Json
