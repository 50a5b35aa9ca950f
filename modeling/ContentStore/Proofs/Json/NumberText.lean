import ContentStore.Json.Number
import ContentStore.Proofs.Double.Shortest
import ContentStore.Proofs.Id.Proto

/-!
# The text of a number reads back

The text of a number is the text of a literal by JSON's grammar. A literal is found again in its text, and
the literal of a number has the number as its value.
-/

namespace ContentStore.Json

namespace Literal

/-! ## The text of a literal -/

def exponentChars (power : Int) : List Char :=
  (if power < 0 then '-' else '+') :: Nat.toDigits 10 power.natAbs

def endChars : Option Int → List Char
  | none => []
  | some power => 'e' :: exponentChars power

def tailChars (l : Literal) : List Char :=
  match l.fraction with
  | [] => endChars l.exponent
  | fraction => '.' :: (fraction ++ endChars l.exponent)

def chars (l : Literal) : List Char :=
  (if l.negative then ['-'] else []) ++ (l.whole ++ l.tailChars)

/-- The parts of a literal are digits, and it has no needless leading zero. -/
structure WellFormed (l : Literal) : Prop where
  nonempty : l.whole ≠ []
  whole : ∀ c ∈ l.whole, c.isDigit = true
  leading : l.whole.length ≠ 1 → l.whole.head? ≠ some '0'
  fraction : ∀ c ∈ l.fraction, c.isDigit = true

/-- Nothing follows, or something that is no digit. -/
def NoDigit (cs : List Char) : Prop :=
  ∀ c ∈ cs.head?, c.isDigit = false

theorem takeWhile_digits {digits cs : List Char} (hdigits : ∀ c ∈ digits, c.isDigit = true)
    (hcs : NoDigit cs) : (digits ++ cs).takeWhile Char.isDigit = digits := by
  rw [List.takeWhile_append_of_pos hdigits]
  cases cs with
  | nil => simp
  | cons c cs => simp [hcs c rfl]

theorem dropWhile_digits {digits cs : List Char} (hdigits : ∀ c ∈ digits, c.isDigit = true)
    (hcs : NoDigit cs) : (digits ++ cs).dropWhile Char.isDigit = cs := by
  rw [List.dropWhile_append_of_pos hdigits]
  cases cs with
  | nil => rfl
  | cons c cs => simp [hcs c rfl]

theorem isDigit_of_mem_toDigits {n : Nat} {c : Char} (hc : c ∈ Nat.toDigits 10 n) :
    c.isDigit = true :=
  Nat.isDigit_of_mem_toDigits (by decide) (by decide) hc

theorem exponent?_exponentChars (power : Int) : exponent? (exponentChars power) = some power := by
  have hall : (Nat.toDigits 10 power.natAbs).all Char.isDigit = true :=
    List.all_eq_true.2 fun _ hc => isDigit_of_mem_toDigits hc
  unfold exponentChars
  split
  · next hneg =>
      simp only [exponent?, hall, Nat.ofDigitChars_ten_toDigits]
      rw [if_pos ⟨Nat.toDigits_ne_nil, trivial⟩, if_pos trivial]
      congr 1
      omega
  · next hpos =>
      simp only [exponent?, hall, Nat.ofDigitChars_ten_toDigits]
      rw [if_pos ⟨Nat.toDigits_ne_nil, trivial⟩, if_neg Bool.false_ne_true]
      congr 1
      omega

theorem noDigit_endChars (exponent : Option Int) : NoDigit (endChars exponent) := by
  cases exponent <;> simp [NoDigit, endChars]

theorem noDigit_tailChars (l : Literal) : NoDigit l.tailChars := by
  unfold tailChars
  split
  · exact noDigit_endChars l.exponent
  · simp [NoDigit]

def ofEnd? (negative : Bool) (whole fraction : List Char) : List Char → Option Literal
  | [] => some { negative, whole, fraction, exponent := none }
  | c :: rest =>
      if c = 'e' ∨ c = 'E' then
        (exponent? rest).map fun power => { negative, whole, fraction, exponent := some power }
      else none

def ofUnsigned? (negative : Bool) (cs : List Char) : Option Literal :=
  let whole := cs.takeWhile Char.isDigit
  let cs := cs.dropWhile Char.isDigit
  let (point, fraction, cs) :=
    match cs with
    | '.' :: rest => (true, rest.takeWhile Char.isDigit, rest.dropWhile Char.isDigit)
    | cs => (false, [], cs)
  if whole = [] ∨ (whole.length ≠ 1 ∧ whole.head? = some '0') ∨ (point ∧ fraction = []) then none
  else ofEnd? negative whole fraction cs

theorem ofChars?_minus (cs : List Char) : ofChars? ('-' :: cs) = ofUnsigned? true cs := rfl

theorem ofChars?_digit {c : Char} (hc : c.isDigit = true) (cs : List Char) :
    ofChars? (c :: cs) = ofUnsigned? false (c :: cs) := by
  unfold ofChars?
  split
  rename_i heq
  split at heq
  · next hminus =>
      obtain ⟨rfl, -⟩ := List.cons.inj hminus
      cases hc
  · obtain ⟨rfl, rfl⟩ := Prod.mk.inj heq
    rfl

theorem ofEnd?_endChars (negative : Bool) (whole fraction : List Char) (exponent : Option Int) :
    ofEnd? negative whole fraction (endChars exponent) =
      some ⟨negative, whole, fraction, exponent⟩ := by
  cases exponent with
  | none => rfl
  | some power => simp [ofEnd?, endChars, exponent?_exponentChars]

theorem ofUnsigned?_chars {l : Literal} (h : l.WellFormed) :
    ofUnsigned? l.negative (l.whole ++ l.tailChars) = some l := by
  unfold ofUnsigned?
  rw [takeWhile_digits h.whole l.noDigit_tailChars, dropWhile_digits h.whole l.noDigit_tailChars]
  obtain ⟨negative, whole, fraction, exponent⟩ := l
  obtain ⟨hnonempty, -, hleading, hfraction⟩ := h
  have hwhole (point : Bool) (hpoint : point = true → fraction ≠ []) :
      ¬ (whole = [] ∨ (whole.length ≠ 1 ∧ whole.head? = some '0') ∨
        (point = true ∧ fraction = [])) := by
    rintro (hnil | ⟨hlong, hzero⟩ | ⟨htrue, hnone⟩)
    · exact hnonempty hnil
    · exact hleading hlong hzero
    · exact hpoint htrue hnone
  cases fraction with
  | nil =>
      cases exponent with
      | none => exact (if_neg (hwhole false (by simp))).trans (ofEnd?_endChars negative whole [] none)
      | some power =>
          exact (if_neg (hwhole false (by simp))).trans
            (ofEnd?_endChars negative whole [] (some power))
  | cons digit digits =>
      simp only [tailChars]
      rw [takeWhile_digits hfraction (noDigit_endChars exponent),
        dropWhile_digits hfraction (noDigit_endChars exponent),
        if_neg (by simpa using hwhole true (by simp)), ofEnd?_endChars]

/-- A literal is found again in its text. -/
theorem ofChars?_chars {l : Literal} (h : l.WellFormed) : ofChars? l.chars = some l := by
  rw [← ofUnsigned?_chars h, chars]
  cases hsign : l.negative with
  | true => exact ofChars?_minus _
  | false =>
      have hnonempty := h.nonempty
      have hwhole := h.whole
      cases hdigits : l.whole with
      | nil => exact absurd hdigits hnonempty
      | cons c cs => exact ofChars?_digit (hwhole c (by simp [hdigits])) _

/-! ## The value of a literal -/

def decimal (l : Literal) : Decimal :=
  ⟨Nat.ofDigitChars 10 (l.whole ++ l.fraction) 0, l.exponent.getD 0 - l.fraction.length⟩

/-- A literal written as an integer is read as the integer, unless it is minus zero. -/
theorem number?_of_isInteger {l : Literal} {n : Integer} (h : l.isInteger = true)
    (hzero : ¬ (l.negative = true ∧ Nat.ofDigitChars 10 (l.whole ++ l.fraction) 0 = 0))
    (hvalue : (if l.negative = true then -(Nat.ofDigitChars 10 (l.whole ++ l.fraction) 0 : Int)
      else Nat.ofDigitChars 10 (l.whole ++ l.fraction) 0) = n.value) :
    l.number? = some (.int n) := by
  unfold number?
  dsimp only
  rw [if_pos ⟨h, hzero⟩, hvalue, Integer.ofInt?_value]

/-- A literal that is not written as an integer is read as the double nearest to its decimal. -/
theorem number?_of_not_isInteger {l : Literal} (h : l.isInteger = false) :
    l.number? = (l.decimal.nearest? l.negative).map Number.float := by
  simp [number?, decimal, h]

def positional (negative : Bool) (digits : List Char) (point : Int) : Literal :=
  if (digits.length : Int) ≤ point then
    ⟨negative, digits ++ List.replicate (point - digits.length).toNat '0', ['0'], none⟩
  else if 0 < point then
    ⟨negative, digits.take point.toNat, digits.drop point.toNat, none⟩
  else
    ⟨negative, ['0'], List.replicate (-point).toNat '0' ++ digits, none⟩

def scientific (negative : Bool) (digits : List Char) (point : Int) : Literal :=
  ⟨negative, digits.take 1, digits.drop 1, some (point - 1)⟩

theorem chars_of_fraction {l : Literal} (h : l.fraction ≠ []) :
    l.chars = (if l.negative then ['-'] else []) ++
      (l.whole ++ '.' :: (l.fraction ++ endChars l.exponent)) := by
  have htail : l.tailChars = '.' :: (l.fraction ++ endChars l.exponent) := by
    unfold tailChars
    split
    · next hnil => exact absurd hnil h
    · rfl
  rw [chars, htail]

theorem fraction_positional (negative : Bool) {digits : List Char} (hdigits : digits ≠ [])
    (point : Int) : (positional negative digits point).fraction ≠ [] := by
  unfold positional
  split
  · simp
  · split
    · rw [ne_eq, List.drop_eq_nil_iff]
      omega
    · simp [hdigits]

theorem isInteger_positional (negative : Bool) {digits : List Char} (hdigits : digits ≠ [])
    (point : Int) : (positional negative digits point).isInteger = false := by
  simp [isInteger, fraction_positional negative hdigits point]

@[simp] theorem negative_positional (negative : Bool) (digits : List Char) (point : Int) :
    (positional negative digits point).negative = negative := by
  unfold positional
  split
  · rfl
  · split <;> rfl

@[simp] theorem exponent_positional (negative : Bool) (digits : List Char) (point : Int) :
    (positional negative digits point).exponent = none := by
  unfold positional
  split
  · rfl
  · split <;> rfl

theorem chars_positional (negative : Bool) {digits : List Char} (hdigits : digits ≠ [])
    (point : Int) :
    (positional negative digits point).chars =
      (if negative then ['-'] else []) ++ DoubleLayout.json.writePositional digits point := by
  rw [chars_of_fraction (fraction_positional negative hdigits point), negative_positional,
    exponent_positional]
  congr 1
  unfold positional DoubleLayout.writePositional
  split
  · simp [endChars, DoubleLayout.json]
  · split <;> simp [endChars]

theorem chars_scientific (negative : Bool) {digits : List Char} (hdigits : digits ≠ [])
    (point : Int) :
    (scientific negative digits point).chars =
      (if negative then ['-'] else []) ++ DoubleLayout.writeExponent digits point := by
  obtain ⟨digit, rest, rfl⟩ := List.exists_cons_of_ne_nil hdigits
  cases rest with
  | nil => rfl
  | cons second rest =>
      rw [chars_of_fraction (by simp [scientific])]
      simp [scientific, DoubleLayout.writeExponent, endChars, exponentChars]

/-- Digits of a positive number have no leading zero. -/
theorem head?_toDigits {n : Nat} (hn : n ≠ 0) : (Nat.toDigits 10 n).head? ≠ some '0' := by
  cases hdigits : Nat.toDigits 10 n with
  | nil => simp
  | cons c cs => simpa using ProtoId.toDigits_head_ne_zero (Nat.pos_of_ne_zero hn) hdigits

theorem wellFormed_positional (negative : Bool) {n : Nat} (hn : n ≠ 0) (point : Int) :
    (positional negative (Nat.toDigits 10 n) point).WellFormed := by
  have hdigits : ∀ c ∈ Nat.toDigits 10 n, c.isDigit = true := fun _ hc => isDigit_of_mem_toDigits hc
  have hhead := head?_toDigits hn
  have hnonempty : Nat.toDigits 10 n ≠ [] := Nat.toDigits_ne_nil
  generalize Nat.toDigits 10 n = digits at *
  have hzeros (count : Nat) : ∀ c ∈ List.replicate count '0', c.isDigit = true := by
    intro c hc
    rw [List.eq_of_mem_replicate hc]
    rfl
  unfold positional
  split
  · refine ⟨by simp [hnonempty], ?_, ?_, by simp⟩
    · exact fun c hc => (List.mem_append.1 hc).elim (hdigits c) (hzeros _ c)
    · intro _
      rwa [List.head?_append_of_ne_nil _ hnonempty]
  · split
    · next hpoint =>
        refine ⟨?_, fun c hc => hdigits c (List.mem_of_mem_take hc), ?_,
          fun c hc => hdigits c (List.mem_of_mem_drop hc)⟩
        · rw [ne_eq, List.take_eq_nil_iff]
          rintro (hzero | hnil)
          · omega
          · exact hnonempty hnil
        · intro _
          rwa [List.head?_take, if_neg (by omega)]
    · refine ⟨by simp, by simp, by simp, ?_⟩
      exact fun c hc => (List.mem_append.1 hc).elim (hzeros _ c) (hdigits c)

theorem wellFormed_scientific (negative : Bool) (n : Nat) (point : Int) :
    (scientific negative (Nat.toDigits 10 n) point).WellFormed := by
  have hpos := Nat.length_toDigits_pos (b := 10) (n := n)
  refine ⟨?_, fun c hc => isDigit_of_mem_toDigits (List.mem_of_mem_take hc), ?_,
    fun c hc => isDigit_of_mem_toDigits (List.mem_of_mem_drop hc)⟩
  · simp [scientific, Nat.toDigits_ne_nil]
  · intro hlong
    simp only [scientific, List.length_take] at hlong
    omega

theorem decimal_scientific (negative : Bool) (n : Nat) (power : Int) :
    (scientific negative (Nat.toDigits 10 n) (power + (Nat.toDigits 10 n).length)).decimal =
      ⟨n, power⟩ := by
  have hpos := Nat.length_toDigits_pos (b := 10) (n := n)
  simp only [decimal, scientific, List.take_append_drop, Nat.ofDigitChars_ten_toDigits,
    Option.getD_some, List.length_drop]
  congr 1
  omega

theorem value_positional (negative : Bool) (n : Nat) (power : Int) :
    (positional negative (Nat.toDigits 10 n) (power + (Nat.toDigits 10 n).length)).decimal.value =
      (Decimal.mk n power).value := by
  have hdigits := Nat.ofDigitChars_ten_toDigits (n := n)
  generalize Nat.toDigits 10 n = digits at *
  unfold positional
  split
  · next hwhole =>
      obtain ⟨places, rfl⟩ := Int.eq_ofNat_of_zero_le (show 0 ≤ power by omega)
      have hcount : ((places : Int) + digits.length - digits.length).toNat = places := by omega
      simp only [decimal, Decimal.value, hcount, Nat.ofDigitChars_append, hdigits,
        Nat.ofDigitChars_replicate_zero, Option.getD_none]
      simp [Nat.ofDigitChars_cons]
      field_simp
  · split
    · simp only [decimal, List.take_append_drop, hdigits, List.length_drop, Option.getD_none]
      congr 2
      omega
    · have hcount : ((-(power + digits.length)).toNat : Int) = -(power + digits.length) := by omega
      simp only [decimal, Option.getD_none, List.length_append, List.length_replicate, Nat.cast_add,
        hcount]
      rw [Nat.ofDigitChars_append, Nat.ofDigitChars_append]
      simp [Nat.ofDigitChars_cons, Nat.ofDigitChars_replicate_zero, hdigits]

end Literal

namespace Number

open Literal (positional scientific)

/-! ## The literal of a number -/

def literal : Number → Literal
  | .int n => ⟨n.value < 0, Nat.toDigits 10 n.value.natAbs, [], none⟩
  | .float x =>
      if x.mantissa = 0 then ⟨x.negative, ['0'], ['0'], none⟩
      else
        let decimal := x.shortest .even
        let digits := Nat.toDigits 10 decimal.digits
        let point := decimal.power + digits.length
        if DoubleLayout.json.positional point then positional x.negative digits point
        else scientific x.negative digits point

theorem toList_text (n : Number) : n.text.toList = n.literal.chars := by
  cases n with
  | int n =>
      have hchars : (Number.int n).literal.chars =
          (if n.value < 0 then ['-'] else []) ++ Nat.toDigits 10 n.value.natAbs := by
        simp [literal, Literal.chars, Literal.tailChars, Literal.endChars]
      rw [hchars, text, Int.toString_eq_repr, Int.repr_eq_if]
      split
      · next hpos =>
          rw [if_neg (by omega), Nat.toList_repr]
          congr 1
          omega
      · next hneg =>
          rw [if_pos (by omega), String.toList_append, Nat.toList_repr]
          congr 2
          omega
  | float x =>
      simp only [text, DoubleLayout.write, literal]
      split
      · cases x.negative <;> simp [Literal.chars, Literal.tailChars, Literal.endChars, DoubleLayout.json]
      · rw [String.toList_ofList, show DoubleLayout.json.tie = .even from rfl]
        generalize (x.shortest .even).power +
          ((Nat.toDigits 10 (x.shortest .even).digits).length : Int) = point
        cases DoubleLayout.json.positional point with
        | true => exact (Literal.chars_positional x.negative Nat.toDigits_ne_nil point).symm
        | false => exact (Literal.chars_scientific x.negative Nat.toDigits_ne_nil point).symm

theorem wellFormed_literal (n : Number) : n.literal.WellFormed := by
  cases n with
  | int n =>
      refine ⟨Nat.toDigits_ne_nil, fun _ hc => Literal.isDigit_of_mem_toDigits hc, ?_, by simp [literal]⟩
      intro hlong
      refine Literal.head?_toDigits fun hzero => hlong ?_
      simp [literal, hzero]
  | float x =>
      simp only [literal]
      split
      · exact ⟨by simp, by simp, by simp, by simp⟩
      · next hx =>
          split
          · have hnearest := Double.nearest_shortest .even hx
            exact Literal.wellFormed_positional _ (Decimal.digits_ne_zero_of_nearest hx hnearest) _
          · exact Literal.wellFormed_scientific _ _ _

theorem number?_literal (n : Number) : n.literal.number? = some n := by
  cases n with
  | int n =>
      have hdigits : Nat.ofDigitChars 10 (Nat.toDigits 10 n.value.natAbs ++ []) 0 = n.value.natAbs := by
        rw [List.append_nil, Nat.ofDigitChars_ten_toDigits]
      refine Literal.number?_of_isInteger rfl ?_ ?_
      · simp only [literal, hdigits, decide_eq_true_eq]
        omega
      · simp only [literal, hdigits, decide_eq_true_eq]
        split <;> omega
  | float x =>
      simp only [literal]
      split
      · next hx =>
          rw [Literal.number?_of_not_isInteger rfl, Decimal.nearest?_of_digits_eq_zero rfl,
            ← Double.eq_zero hx]
          rfl
      · next hx =>
          have hnearest := Double.nearest_shortest .even hx
          split
          · rw [Literal.number?_of_not_isInteger (Literal.isInteger_positional _ Nat.toDigits_ne_nil _),
              Literal.negative_positional, Decimal.nearest?_eq_some hx]
            · rfl
            · rwa [Literal.value_positional]
          · rw [Literal.number?_of_not_isInteger (by simp [Literal.isInteger, scientific]),
              Literal.decimal_scientific]
            exact congrArg (Option.map _) (Decimal.nearest?_eq_some hx hnearest)

end Number

end ContentStore.Json
