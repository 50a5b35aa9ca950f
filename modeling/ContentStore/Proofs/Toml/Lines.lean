import ContentStore.Keyed.Ordered
import ContentStore.Proofs.Json.NumberText
import ContentStore.Toml.Document

/-!
# Documents of plain lines

A document in which every line gives a bare key a number has these keys with these numbers in its root
table, in the order of the lines.
-/

namespace ContentStore.Toml

structure BareKey (key : String) : Prop where
  ne_nil : key.toList ≠ []
  chars : ∀ c ∈ key.toList, bareKeyChar c = true

def lineChars (key : String) (n : Nat) : List Char :=
  key.toList ++ ' ' :: '=' :: ' ' :: (Nat.toDigits 10 n ++ ['\n'])

def linesChars (pairs : List (String × Nat)) : List Char :=
  pairs.flatMap fun pair => lineChars pair.1 pair.2

/-! ## Numbers -/

theorem wordChar_of_isDigit {c : Char} (hc : c.isDigit = true) : wordChar c = true := by
  simp [wordChar, Char.isAlphanum, hc]

theorem splitFirst_eq_none {separator : Char} {cs : List Char} (h : separator ∉ cs) :
    Text.splitFirst separator cs = none := by
  induction cs with
  | nil => rfl
  | cons c rest ih =>
      rw [List.mem_cons, not_or] at h
      rw [Text.splitFirst, if_neg (Ne.symm h.1), ih h.2]
      rfl

theorem wholeDigits?_toDigits (n : Nat) : wholeDigits? (Nat.toDigits 10 n) = some (Nat.toDigits 10 n) := by
  have hdigits : ∀ c ∈ Nat.toDigits 10 n, c.isDigit = true := fun c => Json.Literal.isDigit_of_mem_toDigits
  have hbreak : '_' ∉ Nat.toDigits 10 n := by
    intro hmem
    cases hdigits '_' hmem
  have hleading : ¬ ((Nat.toDigits 10 n).length ≠ 1 ∧ (Nat.toDigits 10 n).head? = some '0') := by
    intro h
    by_cases hn : n = 0
    · rw [hn] at h
      exact h.1 rfl
    · exact Json.Literal.head?_toDigits hn h.2
  have hall : (Nat.toDigits 10 n).all Char.isDigit = true := List.all_eq_true.2 hdigits
  have hgroups : digitGroups? Char.isDigit (Nat.toDigits 10 n) = some (Nat.toDigits 10 n) := by
    rw [digitGroups?, splitFirst_eq_none hbreak]
    exact if_pos ⟨Nat.toDigits_ne_nil, hall⟩
  rw [wholeDigits?, hgroups]
  exact if_neg hleading

theorem exists_digit_cons (n : Nat) : ∃ c cs, Nat.toDigits 10 n = c :: cs ∧ c.isDigit = true := by
  cases hd : Nat.toDigits 10 n with
  | nil => exact absurd hd Nat.toDigits_ne_nil
  | cons c cs =>
      exact ⟨c, cs, rfl, Json.Literal.isDigit_of_mem_toDigits
        (hd ▸ List.mem_cons_self : c ∈ Nat.toDigits 10 n)⟩

theorem takeSign_of_isDigit {cs : List Char} (h : ∀ c ∈ cs, c.isDigit = true) :
    takeSign cs = (false, cs) := by
  unfold takeSign
  split
  · cases h '-' List.mem_cons_self
  · cases h '+' List.mem_cons_self
  · rfl

def maxInteger : Nat := 9223372036854775807

theorem integer?_toDigits {n : Nat} (hn : n ≤ maxInteger) :
    integer? (Nat.toDigits 10 n) = some (.integer n) := by
  have hdigits : ∀ c ∈ Nat.toDigits 10 n, c.isDigit = true := fun c => Json.Literal.isDigit_of_mem_toDigits
  have hbounds : -9223372036854775808 ≤ (n : Int) ∧ (n : Int) ≤ 9223372036854775807 := by
    unfold maxInteger at hn
    omega
  have hbounded : bounded? n = some (.integer n) := if_pos hbounds
  unfold integer?
  -- A second character that names a base is no digit.
  split
  · next heq => cases hdigits 'x' (by simp [heq])
  · next heq => cases hdigits 'o' (by simp [heq])
  · next heq => cases hdigits 'b' (by simp [heq])
  · rw [takeSign_of_isDigit hdigits]
    simpa [wholeDigits?_toDigits, Nat.ofDigitChars_ten_toDigits] using hbounded

theorem bool?_toDigits (n : Nat) : bool? (Nat.toDigits 10 n) = none := by
  have hdigits : ∀ c ∈ Nat.toDigits 10 n, c.isDigit = true := fun c => Json.Literal.isDigit_of_mem_toDigits
  unfold bool?
  rw [if_neg]
  rintro (h | h)
  · cases hdigits 't' (by simp [h])
  · cases hdigits 'f' (by simp [h])

theorem word?_toDigits {n : Nat} (hn : n ≤ maxInteger) (rest : List Char) :
    word? (Nat.toDigits 10 n ++ '\n' :: rest) = some (.integer n, '\n' :: rest) := by
  have hword : (Nat.toDigits 10 n ++ '\n' :: rest).takeWhile wordChar = Nat.toDigits 10 n := by
    rw [List.takeWhile_append_of_pos fun c hc =>
      wordChar_of_isDigit (Json.Literal.isDigit_of_mem_toDigits hc)]
    simp [wordChar]
  unfold word?
  simp only [hword, List.drop_left]
  split
  · next heq => cases heq
  · rw [bool?_toDigits, integer?_toDigits hn]
    rfl

/-- A value that starts with a digit is one word. -/
theorem value?_of_isDigit (depth : Nat) {c : Char} (hc : c.isDigit = true) (cs : List Char) :
    value? depth (c :: cs) = word? (c :: cs) := by
  unfold value?
  split
  case h_5 => rfl
  -- Quote marks and brackets are no digits.
  all_goals
    next heq =>
      cases heq
      cases hc

theorem value?_toDigits (depth : Nat) {n : Nat} (hn : n ≤ maxInteger) (rest : List Char) :
    value? depth (Nat.toDigits 10 n ++ '\n' :: rest) = some (.integer n, '\n' :: rest) := by
  have hword := word?_toDigits hn rest
  obtain ⟨c, cs, hdigits, hc⟩ := exists_digit_cons n
  rw [hdigits, List.cons_append] at hword ⊢
  rw [value?_of_isDigit depth hc, hword]

/-! ## Keys -/

theorem ne_of_bareKeyChar {c d : Char} (hc : bareKeyChar c = true) (hd : bareKeyChar d = false) : c ≠ d := by
  rintro rfl
  rw [hc] at hd
  cases hd

theorem dropBlanks_of_bareKeyChar {c : Char} (hc : bareKeyChar c = true) (cs : List Char) :
    dropBlanks (c :: cs) = c :: cs := by
  have hspace : c ≠ ' ' := ne_of_bareKeyChar hc (by decide)
  have htab : c ≠ '\t' := ne_of_bareKeyChar hc (by decide)
  simp [dropBlanks, blank, hspace, htab]

theorem dropBlanks_toDigits (n : Nat) (rest : List Char) :
    dropBlanks (' ' :: (Nat.toDigits 10 n ++ rest)) = Nat.toDigits 10 n ++ rest := by
  obtain ⟨c, cs, hdigits, hc⟩ := exists_digit_cons n
  have hbare : bareKeyChar c = true := by simp [bareKeyChar, Char.isAlphanum, hc]
  rw [hdigits]
  exact dropBlanks_of_bareKeyChar hbare (cs ++ rest)

theorem BareKey.exists_cons {key : String} (h : BareKey key) :
    ∃ c cs, key.toList = c :: cs ∧ bareKeyChar c = true := by
  cases hkey : key.toList with
  | nil => exact absurd hkey h.ne_nil
  | cons c cs => exact ⟨c, cs, rfl, h.chars c (by simp [hkey])⟩

/-- A text that begins with a bare key begins with no other character. -/
theorem BareKey.append_ne_cons {key : String} (h : BareKey key) {d : Char} (hd : bareKeyChar d = false)
    (rest cs : List Char) : key.toList ++ rest ≠ d :: cs := by
  obtain ⟨c, more, hkey, hc⟩ := h.exists_cons
  intro heq
  rw [hkey, List.cons_append, List.cons.injEq] at heq
  exact ne_of_bareKeyChar hc hd heq.1

theorem keyPart?_bare {key : String} (h : BareKey key) (rest : List Char) :
    keyPart? (key.toList ++ ' ' :: rest) = some (key, ' ' :: rest) := by
  have htake : (key.toList ++ ' ' :: rest).takeWhile bareKeyChar = key.toList := by
    rw [List.takeWhile_append_of_pos h.chars]
    simp [bareKeyChar]
  unfold keyPart?
  split
  · next heq => exact absurd heq (h.append_ne_cons (by decide) _ _)
  · next heq => exact absurd heq (h.append_ne_cons (by decide) _ _)
  · simp [htake, h.ne_nil]

theorem key?_bare (parts : Nat) {key : String} (h : BareKey key) (rest : List Char) :
    key? (parts + 1) (key.toList ++ ' ' :: '=' :: rest) = some ([key], '=' :: rest) := by
  have hblanks : dropBlanks (key.toList ++ ' ' :: '=' :: rest) = key.toList ++ ' ' :: '=' :: rest := by
    obtain ⟨c, cs, hkey, hc⟩ := h.exists_cons
    rw [hkey, List.cons_append, dropBlanks_of_bareKeyChar hc]
  rw [key?, hblanks, keyPart?_bare h]
  rfl

/-! ## Lines -/

theorem addPair_bare {key : String} {entries : List (String × Item)} (hnew : entries.lookup key = none)
    (value : Value) : Reading.addPair ⟨(.header, entries), []⟩ [key] value =
      some ⟨(.header, entries ++ [(key, .value value)]), []⟩ := by
  simp [Reading.addPair, splitKey, Table.edit, Table.addDotted, Table.addValue, hnew]

/-- A line adds its pair to the root table and is passed over. -/
theorem line?_lineChars {key : String} (h : BareKey key) {n : Nat} (hn : n ≤ maxInteger)
    {entries : List (String × Item)} (hnew : entries.lookup key = none) (rest : List Char) :
    Reading.line? ⟨(.header, entries), []⟩ (lineChars key n ++ rest) =
      some (⟨(.header, entries ++ [(key, .value (.integer n))]), []⟩, rest) := by
  have hline : lineChars key n ++ rest =
      key.toList ++ ' ' :: '=' :: ' ' :: (Nat.toDigits 10 n ++ '\n' :: rest) := by
    simp [lineChars]
  have hkey := key?_bare (nestingLimit - 2) h (' ' :: (Nat.toDigits 10 n ++ '\n' :: rest))
  have hvalue := value?_toDigits (nestingLimit - 1) hn rest
  have hblanks := dropBlanks_toDigits n ('\n' :: rest)
  rw [hline]
  unfold Reading.line?
  split
  · next heq => exact absurd heq (h.append_ne_cons (by decide) _ _)
  · next heq => exact absurd heq (h.append_ne_cons (by decide) _ _)
  · change key? (nestingLimit - 1) _ = _ at hkey
    rw [hkey]
    simp only [Option.bind_eq_bind, Option.bind_some, hblanks, hvalue, addPair_bare hnew]
    rfl

theorem dropVoid?_of_bareKeyChar {c : Char} (hc : bareKeyChar c = true) (cs : List Char) :
    dropVoid? false (c :: cs) = some (c :: cs) := by
  have hbreak : c ≠ '\n' := ne_of_bareKeyChar hc (by decide)
  have hcomment : c ≠ '#' := ne_of_bareKeyChar hc (by decide)
  have hspace : c ≠ ' ' := ne_of_bareKeyChar hc (by decide)
  have htab : c ≠ '\t' := ne_of_bareKeyChar hc (by decide)
  unfold dropVoid?
  split
  · next heq => cases heq
  · next heq =>
      cases heq
      cases hc
  · next heq =>
      cases heq
      simp [blank, hbreak, hcomment, hspace, htab]

/-- Pairs that a document can give line by line. -/
structure Lines (pairs : List (String × Nat)) : Prop where
  distinct : (Entries.keys pairs).Nodup
  bare : ∀ pair ∈ pairs, BareKey pair.1
  fits : ∀ pair ∈ pairs, pair.2 ≤ maxInteger

theorem Lines.of_cons {pair : String × Nat} {pairs : List (String × Nat)} (h : Lines (pair :: pairs)) :
    Lines pairs where
  distinct := (List.nodup_cons.1 h.distinct).2
  bare := fun other hmem => h.bare other (List.mem_cons_of_mem _ hmem)
  fits := fun other hmem => h.fits other (List.mem_cons_of_mem _ hmem)

def entriesOf (pairs : List (String × Nat)) : List (String × Item) :=
  pairs.map fun pair => (pair.1, .value (.integer pair.2))

theorem lines?_linesChars {pairs : List (String × Nat)} (h : Lines pairs) {entries : List (String × Item)}
    (hnew : ∀ key ∈ Entries.keys pairs, entries.lookup key = none) {count : Nat}
    (hcount : pairs.length < count) :
    Reading.lines? count ⟨(.header, entries), []⟩ (linesChars pairs) =
      some ⟨(.header, entries ++ entriesOf pairs), []⟩ := by
  induction pairs generalizing entries count with
  | nil =>
      obtain ⟨count, rfl⟩ := Nat.exists_eq_add_one_of_ne_zero (Nat.ne_of_gt hcount)
      simp [Reading.lines?, linesChars, dropVoid?, entriesOf]
  | cons pair rest ih =>
      obtain ⟨key, n⟩ := pair
      obtain ⟨count, rfl⟩ := Nat.exists_eq_add_one_of_ne_zero (Nat.ne_of_gt (Nat.zero_lt_of_lt hcount))
      have hkey : BareKey key := h.bare (key, n) List.mem_cons_self
      have hfits : n ≤ maxInteger := h.fits (key, n) List.mem_cons_self
      have hline := line?_lineChars hkey hfits (hnew key List.mem_cons_self) (linesChars rest)
      have hfresh : key ∉ Entries.keys rest := (List.nodup_cons.1 h.distinct).1
      have hlater : ∀ other ∈ Entries.keys rest,
          (entries ++ [(key, Item.value (.integer n))]).lookup other = none := by
        intro other hother
        have hne : (other == key) = false := by
          rw [beq_eq_false_iff_ne]
          rintro rfl
          exact hfresh hother
        rw [List.lookup_append, hnew other (List.mem_cons_of_mem _ hother)]
        simp [List.lookup_cons, hne]
      have hrest := ih h.of_cons hlater (Nat.lt_of_succ_lt_succ hcount)
      obtain ⟨c, cs, hfirst, hc⟩ := hkey.exists_cons
      have htext : lineChars key n ++ linesChars rest =
          c :: (cs ++ ' ' :: '=' :: ' ' :: (Nat.toDigits 10 n ++ ['\n']) ++ linesChars rest) := by
        rw [lineChars, hfirst]
        rfl
      have hvoid := dropVoid?_of_bareKeyChar hc
        (cs ++ ' ' :: '=' :: ' ' :: (Nat.toDigits 10 n ++ ['\n']) ++ linesChars rest)
      rw [htext] at hline
      change Reading.lines? (count + 1) _ (lineChars key n ++ linesChars rest) = _
      rw [htext, Reading.lines?, hvoid]
      simp only [Option.bind_eq_bind, Option.bind_some, hline, hrest]
      simp [entriesOf]

theorem length_le_linesChars (pairs : List (String × Nat)) : pairs.length ≤ (linesChars pairs).length := by
  induction pairs with
  | nil => exact Nat.le_refl 0
  | cons pair rest ih =>
      have hline : 0 < (lineChars pair.1 pair.2).length := by simp [lineChars]
      simp only [linesChars, List.flatMap_cons, List.length_append, List.length_cons] at ih ⊢
      omega

theorem linesChars_ne_mark {pairs : List (String × Nat)} (h : Lines pairs) (rest : List Char) :
    linesChars pairs ≠ '\ufeff' :: rest := by
  cases pairs with
  | nil => exact nofun
  | cons pair pairs =>
      have hbare : BareKey pair.1 := h.bare pair List.mem_cons_self
      rw [linesChars, List.flatMap_cons, lineChars, List.append_assoc]
      exact hbare.append_ne_cons (by decide) _ rest

/-- A document of plain lines has their pairs in its root table, in order. -/
theorem document?_linesChars {pairs : List (String × Nat)} (h : Lines pairs) :
    document? (String.ofList (linesChars pairs)) = some (entriesOf pairs) := by
  have hcount : pairs.length < (linesChars pairs).length + 1 :=
    Nat.lt_succ_of_le (length_le_linesChars pairs)
  have hlines := lines?_linesChars h (fun key _ => List.lookup_nil) hcount
  unfold document?
  rw [String.toList_ofList]
  split
  · next rest heq => exact absurd heq (linesChars_ne_mark h rest)
  · exact congrArg (Option.map fun reading => reading.root.2) hlines

end ContentStore.Toml
