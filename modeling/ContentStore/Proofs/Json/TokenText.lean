import ContentStore.Json.Token
import ContentStore.Proofs.Json.NumberText
import Mathlib.Tactic.SplitIfs

/-!
# The text of tokens reads back

A string is found again between its quote marks, whatever characters it has. The texts of tokens in a row
are cut into the same tokens, as long as no two words touch: a word ends only where another token begins.
-/

namespace ContentStore.Json.Token

/-! ## Strings -/

/-- A character is written as a short escape, as a code unit, or as itself. -/
theorem escaped_cases (c : Char) :
    (∃ e, e ≠ 'u' ∧ 32 ≤ e.toNat ∧ shortEscape? e = some c ∧ escaped c = ['\\', e]) ∨
      (c.toNat < 32 ∧ escaped c =
        ['\\', 'u', '0', '0', Nat.digitChar (c.toNat / 16), Nat.digitChar (c.toNat % 16)]) ∨
      (c ≠ '"' ∧ c ≠ '\\' ∧ 32 ≤ c.toNat ∧ escaped c = [c]) := by
  have hshort {e : Char} (he : e ≠ 'u') (hprinted : 32 ≤ e.toNat) {s : Char} (hs : shortEscape? e = some s)
      (h : c = s) : ∃ e', e' ≠ 'u' ∧ 32 ≤ e'.toNat ∧ shortEscape? e' = some c ∧ ['\\', e] = ['\\', e'] :=
    ⟨e, he, hprinted, h ▸ hs, rfl⟩
  unfold escaped
  split_ifs with hquote hslash hb hf hn hr ht hcontrol
  · exact .inl (hshort (by decide) (by decide) rfl hquote)
  · exact .inl (hshort (by decide) (by decide) rfl hslash)
  · exact .inl (hshort (by decide) (by decide) rfl hb)
  · exact .inl (hshort (by decide) (by decide) rfl hf)
  · exact .inl (hshort (by decide) (by decide) rfl hn)
  · exact .inl (hshort (by decide) (by decide) rfl hr)
  · exact .inl (hshort (by decide) (by decide) rfl ht)
  · exact .inr (.inl ⟨hcontrol, rfl⟩)
  · exact .inr (.inr ⟨hquote, hslash, Nat.le_of_not_lt hcontrol, rfl⟩)

theorem hexDigit?_digitChar {n : Nat} (h : n < 16) : hexDigit? (Nat.digitChar n) = some n := by
  have hall : ∀ n < 16, hexDigit? (Nat.digitChar n) = some n := by decide
  exact hall n h

theorem codeUnit?_digits {n : Nat} (h : n < 32) :
    codeUnit? '0' '0' (Nat.digitChar (n / 16)) (Nat.digitChar (n % 16)) = some n := by
  rw [codeUnit?, hexDigit?_digitChar (by omega), hexDigit?_digitChar (by omega)]
  simp [hexDigit?]
  omega

def bodyText? (body : List Char) : Option (List Char) :=
  (pieces? body).bind textOfPieces?

/-- A code unit that belongs to no surrogate pair is a character by itself. -/
theorem textOfPieces?_unit {code : Nat} (h : code < 0xd800) (pieces : List Piece) :
    textOfPieces? (.unit code :: pieces) = (textOfPieces? pieces).map (Char.ofNat code :: ·) := by
  have hleading : leading code = false := by
    simp [leading]
    omega
  have htrailing : trailing code = false := by
    simp [trailing]
    omega
  cases pieces with
  | nil => simp [textOfPieces?, hleading, htrailing]
  | cons piece pieces => cases piece <;> simp [textOfPieces?, hleading, htrailing]

theorem bodyText?_plain {c : Char} (hc : c ≠ '\\') (rest : List Char) :
    bodyText? (c :: rest) = (bodyText? rest).map (c :: ·) := by
  have hpieces : pieces? (c :: rest) = (pieces? rest).map (.char c :: ·) := by
    rw [pieces?.eq_4 c rest (fun _ _ _ _ _ h _ => hc h) (fun _ _ h _ => hc h)]
    cases pieces? rest <;> rfl
  rw [bodyText?, hpieces, bodyText?]
  cases pieces? rest <;> rfl

theorem bodyText?_short {e c : Char} (he : e ≠ 'u') (hc : shortEscape? e = some c)
    (rest : List Char) : bodyText? ('\\' :: e :: rest) = (bodyText? rest).map (c :: ·) := by
  have hpieces : pieces? ('\\' :: e :: rest) = (pieces? rest).map (.char c :: ·) := by
    rw [pieces?.eq_3 e rest, hc]
    · cases pieces? rest <;> rfl
    · intro _ _ _ _ _ h
      exact absurd h he
  rw [bodyText?, hpieces, bodyText?]
  cases pieces? rest <;> rfl

theorem bodyText?_unit {code : Nat} (hcode : code < 32) (rest : List Char) :
    bodyText? ('\\' :: 'u' :: '0' :: '0' :: Nat.digitChar (code / 16) :: Nat.digitChar (code % 16) ::
      rest) = (bodyText? rest).map (Char.ofNat code :: ·) := by
  rw [bodyText?, pieces?, codeUnit?_digits hcode, bodyText?]
  cases pieces? rest with
  | none => rfl
  | some pieces => exact textOfPieces?_unit (by omega) pieces

/-- An escaped character says the character, before anything else. -/
theorem bodyText?_escaped (c : Char) (rest : List Char) :
    bodyText? (escaped c ++ rest) = (bodyText? rest).map (c :: ·) := by
  rcases escaped_cases c with ⟨e, he, -, hc, heq⟩ | ⟨hcontrol, heq⟩ | ⟨-, hslash, -, heq⟩
  · rw [heq]
    exact bodyText?_short he hc rest
  · rw [heq]
    simpa using bodyText?_unit hcontrol rest
  · rw [heq]
    exact bodyText?_plain hslash rest

theorem bodyText?_flatMap (cs : List Char) : bodyText? (cs.flatMap escaped) = some cs := by
  induction cs with
  | nil => rfl
  | cons c cs ih => rw [List.flatMap_cons, bodyText?_escaped, ih, Option.map_some]

/-! ## Scanning a string -/

def run (scan : Scan) (cs : List Char) : Option Scan :=
  cs.foldlM Scan.step scan

theorem run_cons (scan : Scan) (c : Char) (cs : List Char) :
    run scan (c :: cs) = (scan.step c).bind (run · cs) :=
  List.foldlM_cons

theorem run_append (scan : Scan) (cs ds : List Char) :
    run scan (cs ++ ds) = (run scan cs).bind (run · ds) :=
  List.foldlM_append

theorem step_plain {c : Char} (hquote : c ≠ '"') (hslash : c ≠ '\\') (hc : 32 ≤ c.toNat)
    (body : List Char) (found : List Token) :
    Scan.step ⟨.text body, found⟩ c = some ⟨.text (c :: body), found⟩ := by
  simp [Scan.step, hquote, hslash, Nat.not_lt.2 hc]

theorem step_digitChar {n : Nat} (h : n < 16) (body : List Char) (found : List Token) :
    Scan.step ⟨.text body, found⟩ (Nat.digitChar n) =
      some ⟨.text (Nat.digitChar n :: body), found⟩ := by
  have hall : ∀ n < 16, Nat.digitChar n ≠ '"' ∧ Nat.digitChar n ≠ '\\' ∧
      32 ≤ (Nat.digitChar n).toNat := by decide
  obtain ⟨hquote, hslash, hc⟩ := hall n h
  exact step_plain hquote hslash hc body found

/-- The characters of an escape stay inside the string. -/
theorem run_escaped (c : Char) (body : List Char) (found : List Token) :
    run ⟨.text body, found⟩ (escaped c) = some ⟨.text ((escaped c).reverse ++ body), found⟩ := by
  rcases escaped_cases c with ⟨e, -, he, -, heq⟩ | ⟨hcontrol, heq⟩ | ⟨hquote, hslash, hc, heq⟩
  · rw [heq]
    simp [run, Scan.step, Nat.not_lt.2 he]
  · rw [heq]
    show (run ⟨.text ('0' :: '0' :: 'u' :: '\\' :: body), found⟩ _) = _
    rw [run_cons, step_digitChar (by omega), Option.bind_some, run_cons, step_digitChar (by omega)]
    rfl
  · rw [heq, run_cons, step_plain hquote hslash hc]
    rfl

theorem run_flatMap (cs body : List Char) (found : List Token) :
    run ⟨.text body, found⟩ (cs.flatMap escaped) =
      some ⟨.text ((cs.flatMap escaped).reverse ++ body), found⟩ := by
  induction cs generalizing body with
  | nil => rfl
  | cons c cs ih =>
      rw [List.flatMap_cons, run_append, run_escaped, Option.bind_some, ih]
      simp

theorem ofBody?_flatMap (s : String) :
    ofBody? (s.toList.flatMap escaped) = some (.string (some s)) := by
  obtain ⟨pieces, hpieces, htext⟩ := Option.bind_eq_some_iff.1 (bodyText?_flatMap s.toList)
  simp [ofBody?, hpieces, htext]

/-- A string between its quote marks is found as one token. -/
theorem run_quote (s : String) (found : List Token) :
    run ⟨.ground, found⟩ (quote s).toList = some ⟨.ground, .string (some s) :: found⟩ := by
  rw [quote, String.toList_ofList, List.cons_append, run_cons]
  show run ⟨.text [], found⟩ _ = _
  rw [run_append, run_flatMap, Option.bind_some, run_cons]
  simp [Scan.step, ofBody?_flatMap, run]

/-! ## Scanning tokens -/

def isWord : Token → Bool
  | .null | .bool _ | .number _ => true
  | _ => false

/-- No word comes first. -/
def Delimited (tokens : List Token) : Prop :=
  ∀ token ∈ tokens.head?, token.isWord = false

theorem delimited_nil : Delimited [] :=
  fun _ ht => nomatch ht

theorem delimited_cons {token : Token} (h : token.isWord = false) (rest : List Token) :
    Delimited (token :: rest) := by
  intro first hfirst
  obtain rfl := Option.some.inj hfirst
  exact h

def Valued : Token → Prop
  | .number none | .string none => False
  | _ => True

def Separated : List Token → Prop
  | [] => True
  | token :: rest => token.Valued ∧ (token.isWord = true → Delimited rest) ∧ Separated rest

def delimiter (c : Char) : Bool :=
  !c.isAlpha && !numeral c

/-- Up to what may follow, the tokens found are all there is: the last may be a word that is not ended yet. -/
structure Settled (scan : Scan) (found : List Token) : Prop where
  finish : scan.finish = some found.reverse
  step : ∀ c, delimiter c = true → scan.step c = Scan.start found c

theorem settled_ground (found : List Token) : Settled ⟨.ground, found⟩ found :=
  ⟨rfl, fun _ _ => rfl⟩

theorem settled_name (name : List Char) {token : Token} (h : ofName? name = some token)
    (found : List Token) : Settled ⟨.name name.reverse, found⟩ (token :: found) := by
  constructor
  · simp [Scan.finish, h]
  · intro c hc
    have : c.isAlpha = false := by simpa using (Bool.and_eq_true_iff.1 hc).1
    simp [Scan.step, h, this]

theorem settled_numeral {cs : List Char} {token : Token} (h : ofNumeral? cs = some token)
    (found : List Token) : Settled ⟨.numeral cs.reverse, found⟩ (token :: found) := by
  constructor
  · simp [Scan.finish, h]
  · intro c hc
    have : numeral c = false := by simpa using (Bool.and_eq_true_iff.1 hc).2
    simp [Scan.step, h, this]

theorem numeral_of_isDigit {c : Char} (h : c.isDigit = true) : numeral c = true := by
  simp [numeral, h]

theorem numeral_chars {l : Literal} (h : l.WellFormed) : ∀ c ∈ l.chars, numeral c = true := by
  have hend : ∀ c ∈ Literal.endChars l.exponent, numeral c = true := by
    cases l.exponent with
    | none => simp [Literal.endChars]
    | some power =>
        intro c hc
        rcases List.mem_cons.1 hc with rfl | hc
        · rfl
        · rcases List.mem_cons.1 hc with rfl | hc
          · split <;> rfl
          · exact numeral_of_isDigit (Literal.isDigit_of_mem_toDigits hc)
  have htail : ∀ c ∈ l.tailChars, numeral c = true := by
    unfold Literal.tailChars
    split
    · exact hend
    · intro c hc
      rcases List.mem_cons.1 hc with rfl | hc
      · rfl
      · exact (List.mem_append.1 hc).elim (fun hc => numeral_of_isDigit (h.fraction c hc)) (hend c)
  intro c hc
  rcases List.mem_append.1 hc with hc | hc
  · cases hnegative : l.negative <;> simp_all [numeral]
  · exact (List.mem_append.1 hc).elim (fun hc => numeral_of_isDigit (h.whole c hc)) (htail c)

theorem run_numeral {cs : List Char} (h : ∀ c ∈ cs, numeral c = true) (ds : List Char)
    (found : List Token) :
    run ⟨.numeral ds, found⟩ cs = some ⟨.numeral (cs.reverse ++ ds), found⟩ := by
  induction cs generalizing ds with
  | nil => rfl
  | cons c cs ih =>
      have hc : numeral c = true := h c (by simp)
      rw [run_cons, show Scan.step ⟨.numeral ds, found⟩ c = some ⟨.numeral (c :: ds), found⟩ by
        simp [Scan.step, hc], Option.bind_some, ih fun c hc => h c (by simp [hc])]
      simp

/-- The text of a literal is taken as one numeral. -/
theorem run_literal {l : Literal} (h : l.WellFormed) (found : List Token) :
    run ⟨.ground, found⟩ l.chars = some ⟨.numeral l.chars.reverse, found⟩ := by
  have hnumeral := numeral_chars h
  have hfirst : ∃ c cs, l.chars = c :: cs ∧ (c = '-' ∨ c.isDigit = true) := by
    unfold Literal.chars
    cases l.negative with
    | true => exact ⟨'-', _, rfl, .inl rfl⟩
    | false =>
        obtain ⟨c, cs, hcs⟩ := List.exists_cons_of_ne_nil h.nonempty
        exact ⟨c, _, by rw [hcs]; rfl, .inr (h.whole c (by simp [hcs]))⟩
  obtain ⟨c, cs, hcs, hc⟩ := hfirst
  rw [hcs] at hnumeral ⊢
  have hstart : Scan.start found c = some ⟨.numeral [c], found⟩ := by
    rcases hc with rfl | hc
    · rfl
    · have hne {d : Char} (hd : d.isDigit = false) : c ≠ d := by
        rintro rfl
        rw [hc] at hd
        cases hd
      simp [Scan.start, blank, hc, hne (d := ' ') rfl, hne (d := '\n') rfl, hne (d := '\r') rfl,
        hne (d := '\t') rfl, hne (d := '"') rfl]
  rw [run_cons]
  show (Scan.start found c).bind _ = _
  rw [hstart, Option.bind_some, run_numeral fun c hc => hnumeral c (by simp [hc])]
  simp

theorem exists_run {token : Token} (h : token.Valued) (found : List Token) :
    ∃ scan, run ⟨.ground, found⟩ token.text.toList = some scan ∧ Settled scan (token :: found) ∧
      (token.isWord = false → scan = ⟨.ground, token :: found⟩) := by
  cases token with
  | null => exact ⟨_, rfl, settled_name ['n', 'u', 'l', 'l'] rfl found, nofun⟩
  | bool b =>
      cases b with
      | true => exact ⟨_, rfl, settled_name ['t', 'r', 'u', 'e'] rfl found, nofun⟩
      | false => exact ⟨_, rfl, settled_name ['f', 'a', 'l', 's', 'e'] rfl found, nofun⟩
  | number value =>
      cases value with
      | none => exact h.elim
      | some n =>
          have hliteral : ofNumeral? n.literal.chars = some (.number (some n)) := by
            rw [ofNumeral?, Literal.ofChars?_chars n.wellFormed_literal, Option.map_some,
              n.number?_literal]
          refine ⟨_, ?_, settled_numeral hliteral found, nofun⟩
          show run _ n.text.toList = _
          rw [Number.toList_text, run_literal n.wellFormed_literal]
  | string value =>
      cases value with
      | none => exact h.elim
      | some s => exact ⟨_, run_quote s found, settled_ground _, fun _ => rfl⟩
  | _ => exact ⟨_, rfl, settled_ground _, fun _ => rfl⟩

theorem exists_delimiter {token : Token} (h : token.Valued) (hword : token.isWord = false) :
    ∃ c cs, token.text.toList = c :: cs ∧ delimiter c = true := by
  cases token with
  | null | bool b | number value => cases hword
  | string value =>
      cases value with
      | none => exact h.elim
      | some s => exact ⟨'"', s.toList.flatMap escaped ++ ['"'], by simp [text, quote], rfl⟩
  | _ => exact ⟨_, _, rfl, rfl⟩

/-- The texts of separated tokens in a row are cut into these tokens. -/
theorem run_tokens {tokens : List Token} (h : Separated tokens) {scan : Scan} {found : List Token}
    (hscan : Settled scan found) (hstart : scan = ⟨.ground, found⟩ ∨ Delimited tokens) :
    (run scan (tokens.flatMap fun token => token.text.toList)).bind Scan.finish =
      some (found.reverse ++ tokens) := by
  induction tokens generalizing scan found with
  | nil => simpa [run] using hscan.finish
  | cons token rest ih =>
      obtain ⟨hvalued, hword, hrest⟩ := h
      obtain ⟨next, hnext, hsettled, hground⟩ := exists_run hvalued found
      have hrun : run scan token.text.toList = some next := by
        rcases hstart with rfl | hdelimited
        · exact hnext
        · obtain ⟨c, cs, hcs, hc⟩ := exists_delimiter hvalued (hdelimited token rfl)
          rw [hcs, run_cons] at hnext ⊢
          rw [hscan.step c hc]
          exact hnext
      rw [List.flatMap_cons, run_append, hrun, Option.bind_some, ih hrest hsettled]
      · simp
      · cases hkind : token.isWord with
        | true => exact .inr (hword hkind)
        | false => exact .inl (hground hkind)

theorem toList_join (texts : List String) :
    (String.join texts).toList = texts.flatMap String.toList := by
  induction texts with
  | nil => rfl
  | cons text texts ih => rw [String.join_cons, String.toList_append, ih, List.flatMap_cons]

/-- The text of separated tokens is cut into these tokens. -/
theorem scan?_join {tokens : List Token} (h : Separated tokens) :
    scan? (String.join (tokens.map Token.text)).toList = some tokens := by
  rw [toList_join, List.flatMap_map]
  exact run_tokens h (settled_ground []) (.inl rfl)

end ContentStore.Json.Token
