import ContentStore.Json.Text
import ContentStore.Proofs.Json.TokenText

/-!
# The text of a value reads back

A value whose arrays and objects are not nested beyond the limit is found again in its text, member by
member. The reader takes the tokens of a value as one step that delivers the value to what is open around
it, so a text is read by following the value's own structure.
-/

namespace ContentStore.Json

open Raw (ofJson ofItems ofMembers Parse Frame)

mutual

def nesting : Json → Nat
  | .array items => nestingOfItems items + 1
  | .object members => nestingOfMembers members + 1
  | _ => 0

def nestingOfItems : List Json → Nat
  | [] => 0
  | item :: rest => max item.nesting (nestingOfItems rest)

def nestingOfMembers : List (String × Json) → Nat
  | [] => 0
  | (_, value) :: rest => max value.nesting (nestingOfMembers rest)

end

theorem nestingOfItems_le_iff {items : List Json} {bound : Nat} :
    nestingOfItems items ≤ bound ↔ ∀ item ∈ items, item.nesting ≤ bound := by
  induction items with
  | nil => simp [nestingOfItems]
  | cons item rest ih => simp [nestingOfItems, ih]

theorem nestingOfMembers_le_iff {members : List (String × Json)} {bound : Nat} :
    nestingOfMembers members ≤ bound ↔ ∀ member ∈ members, member.2.nesting ≤ bound := by
  induction members with
  | nil => simp [nestingOfMembers]
  | cons member rest ih => simp [nestingOfMembers, ih]

/-! ## Tokens -/

theorem delimited_itemTokensOnto (items : List Json) {rest : List Token} (h : Token.Delimited rest) :
    Token.Delimited (itemTokensOnto false items rest) := by
  cases items with
  | nil => exact h
  | cons item items => exact Token.delimited_cons rfl _

theorem delimited_memberTokensOnto (members : List (String × Json)) {rest : List Token}
    (h : Token.Delimited rest) : Token.Delimited (memberTokensOnto false members rest) := by
  cases members with
  | nil => exact h
  | cons member members => exact Token.delimited_cons rfl _

mutual

theorem separated_tokensOnto : (value : Json) → {rest : List Token} → Token.Separated rest →
    Token.Delimited rest → Token.Separated (value.tokensOnto rest)
  | .null, _, h, hd | .bool _, _, h, hd | .number _, _, h, hd => ⟨trivial, fun _ => hd, h⟩
  | .string _, _, h, _ => ⟨trivial, nofun, h⟩
  | .array items, _, h, _ =>
      ⟨trivial, nofun, separated_itemTokensOnto true items ⟨trivial, nofun, h⟩
        (Token.delimited_cons rfl _)⟩
  | .object members, _, h, _ =>
      ⟨trivial, nofun, separated_memberTokensOnto true members ⟨trivial, nofun, h⟩
        (Token.delimited_cons rfl _)⟩

theorem separated_itemTokensOnto (first : Bool) : (items : List Json) → {rest : List Token} →
    Token.Separated rest → Token.Delimited rest →
      Token.Separated (itemTokensOnto first items rest)
  | [], _, h, _ => h
  | item :: items, _, h, hd => by
      have hitem := separated_tokensOnto item (separated_itemTokensOnto false items h hd)
        (delimited_itemTokensOnto items hd)
      cases first with
      | true => exact hitem
      | false => exact ⟨trivial, nofun, hitem⟩

theorem separated_memberTokensOnto (first : Bool) : (members : List (String × Json)) →
    {rest : List Token} → Token.Separated rest → Token.Delimited rest →
      Token.Separated (memberTokensOnto first members rest)
  | [], _, h, _ => h
  | (key, value) :: members, _, h, hd => by
      have hvalue := separated_tokensOnto value (separated_memberTokensOnto false members h hd)
        (delimited_memberTokensOnto members hd)
      have hmember : Token.Separated (.string (some key) :: .colon ::
          value.tokensOnto (memberTokensOnto false members _)) :=
        ⟨trivial, nofun, trivial, nofun, hvalue⟩
      cases first with
      | true => exact hmember
      | false => exact ⟨trivial, nofun, hmember⟩

end

/-- The text of a value is cut into the value's tokens. -/
theorem scan?_text (value : Json) : Token.scan? value.text.toList = some value.tokens :=
  Token.scan?_join (show Token.Separated (value.tokensOnto []) from
    separated_tokensOnto value trivial Token.delimited_nil)

/-! ## Values -/

def parse (state : Parse) (tokens : List Token) : Option Parse :=
  tokens.foldlM Parse.step state

/-- A first item is read like any other. -/
theorem parse_first (value : Json) (stack : List Frame) (rest : List Token) :
    parse (.pending stack .itemOrClose) (value.tokensOnto rest) =
      parse (.pending stack .value) (value.tokensOnto rest) := by
  cases value <;> rfl

theorem closed_of_lt {stack : List Frame} (h : stack.length < nestingLimit) (raw : Raw) :
    Parse.closed stack raw = raw :=
  if_pos h

mutual

/-- The tokens of a value deliver the value to what is open around it. -/
theorem parse_tokensOnto : (value : Json) → (stack : List Frame) → (rest : List Token) →
    stack.length + value.nesting ≤ nestingLimit →
      parse (.pending stack .value) (value.tokensOnto rest) =
        (Parse.deliver (ofJson value) stack).bind (parse · rest)
  | .null, _, _, _ | .bool _, _, _, _ | .number _, _, _, _ | .string _, _, _, _ => rfl
  | .array [], stack, rest, h => by
      simp only [nesting, nestingOfItems] at h
      show (Parse.deliver (Parse.closed stack (.array [])) stack).bind _ = _
      rw [closed_of_lt (by omega)]
      rfl
  | .array (item :: items), stack, rest, h => by
      simp only [nesting, nestingOfItems] at h
      show parse (.pending (.array [] :: stack) .itemOrClose)
        (item.tokensOnto (itemTokensOnto false items (.closeArray :: rest))) = _
      rw [parse_first, parse_tokensOnto item _ _ (by simp; omega)]
      show parse (.pending (.array [ofJson item] :: stack) .commaOrClose) _ = _
      rw [parse_itemTokensOnto items _ stack rest (by omega)]
      rfl
  | .object [], stack, rest, h => by
      simp only [nesting, nestingOfMembers] at h
      show (Parse.deliver (Parse.closed stack (.object [])) stack).bind _ = _
      rw [closed_of_lt (by omega)]
      rfl
  | .object ((key, value) :: members), stack, rest, h => by
      simp only [nesting, nestingOfMembers] at h
      show parse (.pending (.member true [] (some key) :: stack) .value)
        (value.tokensOnto (memberTokensOnto false members (.closeObject :: rest))) = _
      rw [parse_tokensOnto value _ _ (by simp; omega)]
      show parse (.pending (.object true [(key, ofJson value)] :: stack) .commaOrClose) _ = _
      rw [parse_memberTokensOnto members _ stack rest (by omega)]
      rfl

/-- The tokens of items close the array with the items added. -/
theorem parse_itemTokensOnto : (items : List Json) → (done : List Raw) → (stack : List Frame) →
    (rest : List Token) → stack.length + 1 + nestingOfItems items ≤ nestingLimit →
      parse (.pending (.array done :: stack) .commaOrClose)
          (itemTokensOnto false items (.closeArray :: rest)) =
        (Parse.deliver (.array (done.reverse ++ ofItems items)) stack).bind (parse · rest)
  | [], done, stack, rest, h => by
      show (Parse.deliver (Parse.closed stack (.array done.reverse)) stack).bind _ = _
      rw [closed_of_lt (by omega), ofItems, List.append_nil]
      rfl
  | item :: items, done, stack, rest, h => by
      simp only [nestingOfItems] at h
      show parse (.pending (.array done :: stack) .value)
        (item.tokensOnto (itemTokensOnto false items (.closeArray :: rest))) = _
      rw [parse_tokensOnto item _ _ (by simp; omega)]
      show parse (.pending (.array (ofJson item :: done) :: stack) .commaOrClose) _ = _
      rw [parse_itemTokensOnto items _ stack rest (by omega)]
      simp [ofItems]

/-- The tokens of members close the object with the members added. -/
theorem parse_memberTokensOnto : (members : List (String × Json)) → (done : List (String × Raw)) →
    (stack : List Frame) → (rest : List Token) →
      stack.length + 1 + nestingOfMembers members ≤ nestingLimit →
        parse (.pending (.object true done :: stack) .commaOrClose)
            (memberTokensOnto false members (.closeObject :: rest)) =
          (Parse.deliver (.object (done.reverse ++ ofMembers members)) stack).bind (parse · rest)
  | [], done, stack, rest, h => by
      show (Parse.deliver (Parse.closed stack (.object done.reverse)) stack).bind _ = _
      rw [closed_of_lt (by omega), ofMembers, List.append_nil]
      rfl
  | (key, value) :: members, done, stack, rest, h => by
      simp only [nestingOfMembers] at h
      show parse (.pending (.member true done (some key) :: stack) .value)
        (value.tokensOnto (memberTokensOnto false members (.closeObject :: rest))) = _
      rw [parse_tokensOnto value _ _ (by simp; omega)]
      show parse (.pending (.object true ((key, ofJson value) :: done) :: stack) .commaOrClose) _ = _
      rw [parse_memberTokensOnto members _ stack rest (by omega)]
      simp [ofMembers]

end

/-- A value that is not nested beyond the limit is found again in its text. -/
theorem ofText?_text {value : Json} (h : value.nesting ≤ nestingLimit) :
    Raw.ofText? value.text = some (ofJson value) := by
  have hparse : parse Parse.initial value.tokens = some (.done (ofJson value)) :=
    parse_tokensOnto value [] [] (by simpa using h)
  rw [Raw.ofText?, scan?_text, Option.bind_some, Raw.ofTokens?]
  show (parse Parse.initial value.tokens).bind _ = _
  rw [hparse]
  rfl

/-! ## Values as content -/

mutual

/-- No part of a written value is faulty. -/
theorem sound_ofJson : (value : Json) → (ofJson value).sound = true
  | .null | .bool _ | .number _ | .string _ => rfl
  | .array items => sound_ofItems items
  | .object members => sound_ofMembers members

theorem sound_ofItems : (items : List Json) → Raw.soundItems (ofItems items) = true
  | [] => rfl
  | item :: rest => by
      rw [ofItems, Raw.soundItems, sound_ofJson item, sound_ofItems rest]
      rfl

theorem sound_ofMembers : (members : List (String × Json)) →
    Raw.soundMembers (ofMembers members) = true
  | [] => rfl
  | (key, value) :: rest => by
      rw [ofMembers, Raw.soundMembers, sound_ofJson value, sound_ofMembers rest]
      rfl

end

mutual

/-- A written value whose keys are in order is the same value as content. -/
theorem toJson?_ofJson : (value : Json) → value.Canonical → (ofJson value).toJson? = some value
  | .null, _ | .bool _, _ | .number _, _ | .string _, _ => rfl
  | .array items, h => by
      rw [ofJson, Raw.toJson?, itemsToJson?_ofItems items h, Option.map_some]
  | .object members, h => by
      have hmembers : Entries.Ascending members ∧ CanonicalMembers members := h
      rw [ofJson, Raw.toJson?, membersToJson?_ofMembers members hmembers.2, Option.map_some,
        Entries.sort_of_ascending hmembers.1]

theorem itemsToJson?_ofItems : (items : List Json) → CanonicalItems items →
    Raw.itemsToJson? (ofItems items) = some items
  | [], _ => rfl
  | item :: rest, h => by
      rw [ofItems, Raw.itemsToJson?, toJson?_ofJson item h.1, itemsToJson?_ofItems rest h.2]
      rfl

theorem membersToJson?_ofMembers : (members : List (String × Json)) → CanonicalMembers members →
    Raw.membersToJson? (ofMembers members) = some members
  | [], _ => rfl
  | (key, value) :: rest, h => by
      rw [ofMembers, Raw.membersToJson?, toJson?_ofJson value h.1,
        membersToJson?_ofMembers rest h.2]
      rfl

end

end ContentStore.Json
