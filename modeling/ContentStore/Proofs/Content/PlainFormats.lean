import ContentStore.Content.Format
import ContentStore.Proofs.Content.CalendarText
import Mathlib.Data.List.TakeWhile

/-!
# Dates and times by their bytes

A date or a time of day can also be told in two steps: the bytes of the text must have the right shape,
digits and separators at fixed places, and a reader of patterns must read the text. The reader alone may
admit more, such as short fields or blanks, and the shape admits fields out of range; both together admit
the dates and the times of day and nothing else.
-/

namespace ContentStore.Calendar

/-! ## Bytes of a text -/

def bytes (text : String) : List UInt8 :=
  text.toUTF8.data.toList

def codes (cs : List Char) : List UInt8 :=
  cs.map fun c => UInt8.ofNat c.toNat

@[simp] theorem length_codes (cs : List Char) : (codes cs).length = cs.length :=
  List.length_map _

@[simp] theorem codes_append (cs ds : List Char) : codes (cs ++ ds) = codes cs ++ codes ds :=
  List.map_append

@[simp] theorem codes_cons (c : Char) (cs : List Char) : codes (c :: cs) = UInt8.ofNat c.toNat :: codes cs :=
  rfl

theorem bytes_injective {s t : String} (h : bytes s = bytes t) : s = t :=
  String.toByteArray_inj.1 (ByteArray.ext (Array.toList_inj.1 h))

theorem utf8EncodeChar_of_ascii {c : Char} (h : c.toNat < 128) :
    String.utf8EncodeChar c = [UInt8.ofNat c.toNat] := by
  have hle : c.val.toNat ≤ 127 := Nat.lt_succ_iff.1 h
  simp only [String.utf8EncodeChar, hle, if_true]
  rfl

/-- A character of ASCII is one byte, its code. -/
theorem bytes_ofList {cs : List Char} (h : ∀ c ∈ cs, c.toNat < 128) :
    bytes (String.ofList cs) = codes cs := by
  rw [bytes, String.toUTF8, String.toByteArray_ofList, List.utf8Encode, List.toList_data_toByteArray]
  induction cs with
  | nil => rfl
  | cons c cs ih =>
      rw [List.flatMap_cons, utf8EncodeChar_of_ascii (h c (by simp)), ih fun d hd => h d (by simp [hd])]
      rfl

/-- Only the characters themselves have their codes for bytes. -/
theorem bytes_eq_codes_iff {text : String} {cs : List Char} (h : ∀ c ∈ cs, c.toNat < 128) :
    bytes text = codes cs ↔ text.toList = cs := by
  rw [← bytes_ofList h]
  constructor
  · intro heq
    rw [bytes_injective heq, String.toList_ofList]
  · intro heq
    rw [← heq, String.ofList_toList]

theorem ascii_of_isDigit {c : Char} (h : c.isDigit = true) : c.toNat < 128 :=
  Nat.lt_of_le_of_lt (Char.isDigit_iff_toNat.1 h).2 (by decide)

theorem ascii_padded (width n : Nat) : ∀ c ∈ padded width n, c.toNat < 128 :=
  fun _ hc => ascii_of_isDigit (isDigit_of_mem_padded hc)

theorem ascii_clockText (hour minute : Nat) : ∀ c ∈ clockText hour minute, c.toNat < 128 :=
  List.forall_mem_append.2 ⟨ascii_padded 2 hour, List.forall_mem_cons.2 ⟨by decide, ascii_padded 2 minute⟩⟩

theorem ascii_dateText (year month day : Nat) : ∀ c ∈ dateText year month day, c.toNat < 128 :=
  List.forall_mem_append.2 ⟨ascii_padded 4 year, List.forall_mem_cons.2 ⟨by decide,
    List.forall_mem_append.2 ⟨ascii_padded 2 month, List.forall_mem_cons.2 ⟨by decide, ascii_padded 2 day⟩⟩⟩⟩

theorem TimeText.ascii {hours minutes seconds : Nat} {cs : List Char}
    (h : TimeText hours minutes seconds cs) : ∀ c ∈ cs, c.toNat < 128 := by
  cases h with
  | minutes => exact ascii_clockText _ _
  | seconds =>
      exact List.forall_mem_append.2 ⟨ascii_clockText _ _,
        List.forall_mem_cons.2 ⟨by decide, ascii_padded 2 _⟩⟩
  | fraction _ _ _ _ hdigits =>
      refine List.forall_mem_append.2 ⟨ascii_clockText _ _, List.forall_mem_cons.2 ⟨by decide,
        List.forall_mem_append.2 ⟨ascii_padded 2 _, List.forall_mem_cons.2 ⟨by decide, ?_⟩⟩⟩⟩
      exact fun c hc => ascii_of_isDigit (hdigits c hc)

/-! ## Shapes -/

def isDigitCode (b : UInt8) : Bool :=
  48 ≤ b && b ≤ 57

/-- Whether bytes have the shape of a date: ten, of which the fifth and the eighth are hyphens and the
others digits. -/
def dateShaped (bytes : List UInt8) : Bool :=
  bytes.length == 10 &&
    bytes.zipIdx.all fun (b, i) => if i == 4 || i == 7 then b == 45 else isDigitCode b

def digitsAt (bytes : List UInt8) (start stop : Nat) : Bool :=
  start ≤ stop && stop ≤ bytes.length && (bytes.extract start stop).all isDigitCode

def clockShaped (bytes : List UInt8) : Bool :=
  5 ≤ bytes.length && digitsAt bytes 0 2 && bytes[2]? == some 58 && digitsAt bytes 3 5

def secondsShaped (bytes : List UInt8) : Bool :=
  bytes[5]? == some 58 && digitsAt bytes 6 8

def fractionShaped (bytes : List UInt8) : Bool :=
  bytes[8]? == some 46 && digitsAt bytes 9 bytes.length

/-- Whether bytes have the shape of a time of day: two or three fields, and perhaps a point and more digits
after the third. -/
def timeShaped (bytes : List UInt8) : Bool :=
  match bytes.length with
  | 5 => clockShaped bytes
  | 8 => clockShaped bytes && secondsShaped bytes
  | n => 10 ≤ n && clockShaped bytes && secondsShaped bytes && fractionShaped bytes

/-- The codes of digits are the bytes from 48 to 57. -/
theorem isDigitCode_iff {b : UInt8} :
    isDigitCode b = true ↔ ∃ c : Char, c.isDigit = true ∧ b = UInt8.ofNat c.toNat := by
  have hcode : isDigitCode b = true ↔ 48 ≤ b.toNat ∧ b.toNat ≤ 57 := by
    simp [isDigitCode, UInt8.le_iff_toNat_le]
  rw [hcode]
  constructor
  · intro h
    have hlt : b.toNat - 48 < 10 := by omega
    refine ⟨Nat.digitChar (b.toNat - 48), by rw [Nat.isDigit_digitChar, decide_eq_true hlt], ?_⟩
    rw [Nat.toNat_digitChar_of_lt_ten hlt, Nat.add_sub_of_le h.1, UInt8.ofNat_toNat]
  · rintro ⟨c, hc, rfl⟩
    have hrange : 48 ≤ c.toNat ∧ c.toNat ≤ 57 := Char.isDigit_iff_toNat.1 hc
    rw [UInt8.toNat_ofNat_of_lt' (by change c.toNat < 256; omega)]
    exact hrange

theorem all_isDigitCode_iff {bs : List UInt8} :
    bs.all isDigitCode = true ↔ ∃ cs : List Char, (∀ c ∈ cs, c.isDigit = true) ∧ bs = codes cs := by
  constructor
  · intro h
    induction bs with
    | nil => exact ⟨[], by simp, rfl⟩
    | cons b bs ih =>
        rw [List.all_cons, Bool.and_eq_true] at h
        obtain ⟨c, hc, hb⟩ := isDigitCode_iff.1 h.1
        obtain ⟨cs, hcs, hbs⟩ := ih h.2
        exact ⟨c :: cs, List.forall_mem_cons.2 ⟨hc, hcs⟩, by rw [hb, hbs]; rfl⟩
  · rintro ⟨cs, hcs, rfl⟩
    simp only [codes, List.all_map, List.all_eq_true]
    exact fun c hc => isDigitCode_iff.2 ⟨c, hcs c hc, rfl⟩

/-- Digits as bytes are the codes of a number written with as many digits. -/
theorem exists_codes_padded (width : Nat) (bs : List UInt8) (hwidth : bs.length = width)
    (h : bs.all isDigitCode = true) : ∃ n, n < 10 ^ width ∧ bs = codes (padded width n) := by
  obtain ⟨cs, hcs, rfl⟩ := all_isDigitCode_iff.1 h
  obtain ⟨n, hn, hread⟩ := exists_padded hcs
  have hlength : cs.length = width := by rwa [codes, List.length_map] at hwidth
  rw [hlength] at hn hread
  exact ⟨n, hn, congrArg codes hread⟩

theorem all_isDigitCode_padded (width n : Nat) : (codes (padded width n)).all isDigitCode = true :=
  all_isDigitCode_iff.2 ⟨padded width n, fun _ => isDigit_of_mem_padded, rfl⟩

theorem codes_dateText (year month day : Nat) :
    codes (dateText year month day) =
      codes (padded 4 year) ++ 45 :: (codes (padded 2 month) ++ 45 :: codes (padded 2 day)) :=
  rfl

theorem codes_clockText (hour minute : Nat) :
    codes (clockText hour minute) = codes (padded 2 hour) ++ 58 :: codes (padded 2 minute) :=
  rfl

/-- Bytes in the shape of a date are the codes of three numbers with hyphens between them. -/
theorem dateShaped_iff {bs : List UInt8} :
    dateShaped bs = true ↔
      ∃ year month day, year < 10 ^ 4 ∧ month < 10 ^ 2 ∧ day < 10 ^ 2 ∧
        bs = codes (dateText year month day) := by
  constructor
  · intro h
    have hlength : bs.length = 10 := by
      simp only [dateShaped, Bool.and_eq_true, beq_iff_eq] at h
      exact h.1
    match bs, hlength with
    | [b₀, b₁, b₂, b₃, b₄, b₅, b₆, b₇, b₈, b₉], _ =>
      simp [dateShaped, List.zipIdx] at h
      obtain ⟨year, hyear, hy⟩ := exists_codes_padded 4 [b₀, b₁, b₂, b₃] rfl (by simp [h])
      obtain ⟨month, hmonth, hm⟩ := exists_codes_padded 2 [b₅, b₆] rfl (by simp [h])
      obtain ⟨day, hday, hd⟩ := exists_codes_padded 2 [b₈, b₉] rfl (by simp [h])
      refine ⟨year, month, day, hyear, hmonth, hday, ?_⟩
      rw [codes_dateText, ← hy, ← hm, ← hd]
      simp [h]
  · rintro ⟨year, month, day, -, -, -, rfl⟩
    have hyear := all_isDigitCode_padded 4 year
    have hmonth := all_isDigitCode_padded 2 month
    have hday := all_isDigitCode_padded 2 day
    simp [codes, padded] at hyear hmonth hday
    simp [dateShaped, dateText, codes, padded, List.zipIdx, hyear, hmonth, hday]

/-- Bytes begin with two fields when they are the codes of two numbers with a colon between them, and
more. -/
theorem clockShaped_iff {bs : List UInt8} :
    clockShaped bs = true ↔
      ∃ hour minute rest, hour < 10 ^ 2 ∧ minute < 10 ^ 2 ∧ bs = codes (clockText hour minute) ++ rest := by
  constructor
  · intro h
    match bs, h with
    | b₀ :: b₁ :: b₂ :: b₃ :: b₄ :: rest, h =>
      simp [clockShaped, digitsAt] at h
      obtain ⟨hour, hhour, hh⟩ := exists_codes_padded 2 [b₀, b₁] rfl (by simp [h])
      obtain ⟨minute, hminute, hm⟩ := exists_codes_padded 2 [b₃, b₄] rfl (by simp [h])
      refine ⟨hour, minute, rest, hhour, hminute, ?_⟩
      rw [codes_clockText, ← hh, ← hm]
      simp [h]
  · rintro ⟨hour, minute, rest, -, -, rfl⟩
    have hhour := all_isDigitCode_padded 2 hour
    have hminute := all_isDigitCode_padded 2 minute
    simp [codes, padded] at hhour hminute
    simp [clockShaped, digitsAt, clockText, codes, padded, hhour, hminute]

theorem secondsShaped_iff {hour minute : Nat} {bs : List UInt8} :
    secondsShaped (codes (clockText hour minute) ++ bs) = true ↔
      ∃ second rest, second < 10 ^ 2 ∧ bs = codes (':' :: padded 2 second) ++ rest := by
  constructor
  · intro h
    rcases bs with _ | ⟨b₀, _ | ⟨b₁, _ | ⟨b₂, rest⟩⟩⟩ <;>
      simp [secondsShaped, digitsAt, clockText, codes, padded] at h
    obtain ⟨second, hsecond, hs⟩ := exists_codes_padded 2 [b₁, b₂] rfl (by simp [h])
    refine ⟨second, rest, hsecond, ?_⟩
    have hfield : codes (':' :: padded 2 second) = 58 :: [b₁, b₂] := by rw [hs]; rfl
    rw [hfield, h.1]
    rfl
  · rintro ⟨second, rest, -, rfl⟩
    have hsecond := all_isDigitCode_padded 2 second
    simp [codes, padded] at hsecond
    simp [secondsShaped, digitsAt, clockText, codes, padded, hsecond]

theorem fractionShaped_iff {hour minute second : Nat} {bs : List UInt8} :
    fractionShaped (codes (clockText hour minute ++ ':' :: padded 2 second) ++ bs) = true ↔
      ∃ digits : List Char, (∀ c ∈ digits, c.isDigit = true) ∧ bs = codes ('.' :: digits) := by
  cases bs with
  | nil => simp [fractionShaped, clockText, codes, padded]
  | cons b bs =>
      have hshaped : fractionShaped (codes (clockText hour minute ++ ':' :: padded 2 second) ++ b :: bs) =
          true ↔ b = 46 ∧ bs.all isDigitCode = true := by
        simp [fractionShaped, digitsAt, clockText, codes, padded]
      rw [hshaped, all_isDigitCode_iff]
      constructor
      · rintro ⟨rfl, digits, hdigits, rfl⟩
        exact ⟨digits, hdigits, rfl⟩
      · rintro ⟨digits, hdigits, heq⟩
        obtain ⟨rfl, rfl⟩ := List.cons.inj heq
        exact ⟨rfl, digits, hdigits, rfl⟩

theorem clockShaped_codes {hour minute : Nat} (hhour : hour ≤ 99) (hminute : minute ≤ 99) (rest : List Char) :
    clockShaped (codes (clockText hour minute ++ rest)) = true :=
  clockShaped_iff.2 ⟨hour, minute, codes rest, Nat.lt_succ_of_le hhour, Nat.lt_succ_of_le hminute,
    codes_append _ _⟩

theorem secondsShaped_codes (hour minute : Nat) {second : Nat} (hsecond : second ≤ 99) (rest : List Char) :
    secondsShaped (codes (clockText hour minute ++ ':' :: (padded 2 second ++ rest))) = true := by
  rw [codes_append]
  exact secondsShaped_iff.2 ⟨second, codes rest, Nat.lt_succ_of_le hsecond, codes_append (_ :: _) _⟩

/-- Fields of two digits have the shape of a time of day. -/
theorem timeShaped_codes {cs : List Char} (h : TimeText 99 99 99 cs) : timeShaped (codes cs) = true := by
  cases h with
  | @minutes hour minute hhour hminute =>
      have hclock := clockShaped_codes hhour hminute []
      rwa [List.append_nil] at hclock
  | @seconds hour minute second hhour hminute hsecond =>
      have hlength : (codes (clockText hour minute ++ ':' :: padded 2 second)).length = 8 := rfl
      have hseconds := secondsShaped_codes hour minute hsecond []
      rw [List.append_nil] at hseconds
      simp only [timeShaped, hlength, clockShaped_codes hhour hminute, hseconds, Bool.and_true]
  | @fraction hour minute second digits hhour hminute hsecond hne hdigits =>
      have hlong :
          10 ≤ (codes (clockText hour minute ++ ':' :: (padded 2 second ++ '.' :: digits))).length := by
        have := List.length_pos_iff.2 hne
        simp [clockText]
        omega
      have hfraction : fractionShaped
          (codes (clockText hour minute ++ ':' :: padded 2 second) ++ codes ('.' :: digits)) = true :=
        fractionShaped_iff.2 ⟨digits, hdigits, rfl⟩
      rw [← codes_append, List.append_assoc, List.cons_append] at hfraction
      unfold timeShaped
      split
      · omega
      · omega
      · rw [decide_eq_true hlong, clockShaped_codes hhour hminute,
          secondsShaped_codes hour minute hsecond, hfraction]
        rfl

/-- Bytes in the shape of a time of day are the codes of fields of two digits each. -/
theorem timeShaped_iff {bs : List UInt8} :
    timeShaped bs = true ↔ ∃ cs, TimeText 99 99 99 cs ∧ bs = codes cs := by
  constructor
  · intro h
    unfold timeShaped at h
    split at h
    · next hlength =>
        obtain ⟨hour, minute, rest, hhour, hminute, rfl⟩ := clockShaped_iff.1 h
        obtain rfl : rest = [] := by
          simp [clockText] at hlength
          exact List.eq_nil_of_length_eq_zero (by omega)
        exact ⟨_, .minutes (Nat.le_of_lt_succ hhour) (Nat.le_of_lt_succ hminute), List.append_nil _⟩
    · next hlength =>
        rw [Bool.and_eq_true] at h
        obtain ⟨hour, minute, rest, hhour, hminute, rfl⟩ := clockShaped_iff.1 h.1
        obtain ⟨second, rest, hsecond, rfl⟩ := secondsShaped_iff.1 h.2
        obtain rfl : rest = [] := by
          simp [clockText] at hlength
          exact List.eq_nil_of_length_eq_zero (by omega)
        refine ⟨_, .seconds (Nat.le_of_lt_succ hhour) (Nat.le_of_lt_succ hminute)
          (Nat.le_of_lt_succ hsecond), ?_⟩
        rw [List.append_nil, codes_append]
    · simp only [Bool.and_eq_true, decide_eq_true_eq] at h
      obtain ⟨⟨⟨hlength, hclock⟩, hseconds⟩, hfraction⟩ := h
      obtain ⟨hour, minute, rest, hhour, hminute, rfl⟩ := clockShaped_iff.1 hclock
      obtain ⟨second, rest, hsecond, rfl⟩ := secondsShaped_iff.1 hseconds
      rw [← List.append_assoc, ← codes_append] at hfraction hlength ⊢
      obtain ⟨digits, hdigits, rfl⟩ := fractionShaped_iff.1 hfraction
      -- A point with nothing after it makes nine bytes.
      have hne : digits ≠ [] := by
        rintro rfl
        simp [clockText] at hlength
      refine ⟨_, .fraction (Nat.le_of_lt_succ hhour) (Nat.le_of_lt_succ hminute)
        (Nat.le_of_lt_succ hsecond) hne hdigits, ?_⟩
      simp
  · rintro ⟨cs, hcs, rfl⟩
    exact timeShaped_codes hcs

/-! ## Readers of patterns -/

/-- What tells whether a text can be read by a pattern. -/
abbrev PatternReader := (pattern text : String) → Bool

def timePatterns : List String :=
  ["%H:%M", "%H:%M:%S", "%H:%M:%S%.f"]

def acceptsDate (reads : PatternReader) (text : String) : Bool :=
  dateShaped (bytes text) && reads "%Y-%m-%d" text

def acceptsTime (reads : PatternReader) (text : String) : Bool :=
  timeShaped (bytes text) && timePatterns.any fun pattern => reads pattern text

/-- Of some patterns, a text is read by its own when its fields are in range, and by none when they are
not. -/
def PatternReader.Agrees (reads : PatternReader) (patterns : List String) (own : String)
    (text : List Char) (inRange : Prop) : Prop :=
  (inRange → reads own (String.ofList text) = true) ∧
    ∀ pattern ∈ patterns, reads pattern (String.ofList text) = true → inRange

/-- A reader that reads dates and times of day with every digit of their fields when the fields are in
range, the day exists, and not otherwise. Nothing is said about other texts. -/
structure PatternReader.ReadsWritten (reads : PatternReader) : Prop where
  date {year month day : Nat} (hyear : year < 10 ^ 4) (hmonth : month < 10 ^ 2) (hday : day < 10 ^ 2) :
    reads.Agrees ["%Y-%m-%d"] "%Y-%m-%d" (dateText year month day) (IsDay year month day)
  minutes {hour minute : Nat} (hhour : hour ≤ 99) (hminute : minute ≤ 99) :
    reads.Agrees timePatterns "%H:%M" (clockText hour minute) (hour ≤ 23 ∧ minute ≤ 59)
  seconds {hour minute second : Nat} (hhour : hour ≤ 99) (hminute : minute ≤ 99) (hsecond : second ≤ 99) :
    reads.Agrees timePatterns "%H:%M:%S" (clockText hour minute ++ ':' :: padded 2 second)
      (hour ≤ 23 ∧ minute ≤ 59 ∧ second ≤ 60)
  fraction {hour minute second : Nat} {digits : List Char} (hhour : hour ≤ 99) (hminute : minute ≤ 99)
      (hsecond : second ≤ 99) (hne : digits ≠ []) (hdigits : ∀ c ∈ digits, c.isDigit = true) :
    reads.Agrees timePatterns "%H:%M:%S%.f"
      (clockText hour minute ++ ':' :: (padded 2 second ++ '.' :: digits))
      (hour ≤ 23 ∧ minute ≤ 59 ∧ second ≤ 60)

variable {reads : PatternReader}

theorem PatternReader.Agrees.any_iff {patterns : List String} {own : String} {text : List Char}
    {inRange : Prop} (h : reads.Agrees patterns own text inRange) (hown : own ∈ patterns) :
    (patterns.any fun pattern => reads pattern (String.ofList text)) = true ↔ inRange := by
  rw [List.any_eq_true]
  constructor
  · rintro ⟨pattern, hpattern, hread⟩
    exact h.2 pattern hpattern hread
  · intro hrange
    exact ⟨own, hown, h.1 hrange⟩

/-- Together the shape and a reader admit the dates. -/
theorem acceptsDate_iff (hreads : reads.ReadsWritten) {text : String} :
    acceptsDate reads text = true ↔ PlainDate text.toList := by
  rw [acceptsDate, Bool.and_eq_true, dateShaped_iff]
  constructor
  · rintro ⟨⟨year, month, day, hyear, hmonth, hday, hbytes⟩, hread⟩
    have htext := (bytes_eq_codes_iff (ascii_dateText year month day)).1 hbytes
    rw [← String.ofList_toList (s := text), htext] at hread
    exact ⟨year, month, day, hyear, (hreads.date hyear hmonth hday).2 _ (List.mem_singleton_self _) hread,
      htext⟩
  · rintro ⟨year, month, day, hyear, hday, htext⟩
    have hmonthLt : month < 10 ^ 2 := by have := hday.inYear; omega
    have hdayLt : day < 10 ^ 2 := by have := hday.inMonth; omega
    refine ⟨⟨year, month, day, hyear, hmonthLt, hdayLt,
      (bytes_eq_codes_iff (ascii_dateText year month day)).2 htext⟩, ?_⟩
    rw [← String.ofList_toList (s := text), htext]
    exact (hreads.date hyear hmonthLt hdayLt).1 hday

/-- A text in the shape of a time of day that some pattern reads is one. -/
theorem plainTime_of_reads (hreads : reads.ReadsWritten) {cs : List Char} (h : TimeText 99 99 99 cs)
    (hread : (timePatterns.any fun pattern => reads pattern (String.ofList cs)) = true) : PlainTime cs := by
  cases h with
  | minutes hhour hminute =>
      have hrange := ((hreads.minutes hhour hminute).any_iff (by decide)).1 hread
      exact .minutes hrange.1 hrange.2
  | seconds hhour hminute hsecond =>
      have hrange := ((hreads.seconds hhour hminute hsecond).any_iff (by decide)).1 hread
      exact .seconds hrange.1 hrange.2.1 hrange.2.2
  | fraction hhour hminute hsecond hne hdigits =>
      have hrange := ((hreads.fraction hhour hminute hsecond hne hdigits).any_iff (by decide)).1 hread
      exact .fraction hrange.1 hrange.2.1 hrange.2.2 hne hdigits

/-- Some pattern reads a time of day. -/
theorem reads_of_plainTime (hreads : reads.ReadsWritten) {cs : List Char} (h : PlainTime cs) :
    (timePatterns.any fun pattern => reads pattern (String.ofList cs)) = true := by
  cases h with
  | minutes hhour hminute =>
      exact ((hreads.minutes (by omega) (by omega)).any_iff (by decide)).2 ⟨hhour, hminute⟩
  | seconds hhour hminute hsecond =>
      exact ((hreads.seconds (by omega) (by omega) (by omega)).any_iff (by decide)).2
        ⟨hhour, hminute, hsecond⟩
  | fraction hhour hminute hsecond hne hdigits =>
      exact ((hreads.fraction (by omega) (by omega) (by omega) hne hdigits).any_iff (by decide)).2
        ⟨hhour, hminute, hsecond⟩

/-- Together the shape and a reader admit the times of day. -/
theorem acceptsTime_iff (hreads : reads.ReadsWritten) {text : String} :
    acceptsTime reads text = true ↔ PlainTime text.toList := by
  rw [acceptsTime, Bool.and_eq_true, timeShaped_iff]
  constructor
  · rintro ⟨⟨cs, hcs, hbytes⟩, hread⟩
    have htext := (bytes_eq_codes_iff hcs.ascii).1 hbytes
    rw [← String.ofList_toList (s := text), htext] at hread
    rw [htext]
    exact plainTime_of_reads hreads hcs hread
  · intro h
    have hshape : TimeText 99 99 99 text.toList := h.mono (by decide) (by decide) (by decide)
    have hread := reads_of_plainTime hreads h
    rw [String.ofList_toList] at hread
    exact ⟨⟨text.toList, hshape, (bytes_eq_codes_iff hshape.ascii).2 rfl⟩, hread⟩

/-! ## A lenient reader -/

/-- Takes a number off the front of a text: at most so many digits, after any blanks. -/
def takeNumber? (width : Nat) (text : List Char) : Option (Nat × List Char) :=
  let trimmed := text.dropWhile Char.isWhitespace
  let digits := (trimmed.take width).takeWhile Char.isDigit
  if digits = [] then none else some (Nat.ofDigitChars 10 digits 0, trimmed.drop digits.length)

def takeNumbers? (separator : Char) : List Nat → List Char → Option (List Nat × List Char)
  | [], text => some ([], text)
  | [width], text => (takeNumber? width text).map fun (n, rest) => ([n], rest)
  | width :: widths, text =>
      match takeNumber? width text with
      | some (n, c :: rest) =>
          if c = separator then
            (takeNumbers? separator widths rest).map fun (ns, rest) => (n :: ns, rest)
          else none
      | _ => none

/-- A reader for which a field may have fewer digits, and blanks before them. -/
def lenientReader : PatternReader := fun pattern text =>
  match pattern with
  | "%Y-%m-%d" =>
      match takeNumbers? '-' [4, 2, 2] text.toList with
      | some ([year, month, day], []) => isDate year month day
      | _ => false
  | "%H:%M" =>
      match takeNumbers? ':' [2, 2] text.toList with
      | some ([hour, minute], []) => isTime hour minute 0
      | _ => false
  | "%H:%M:%S" =>
      match takeNumbers? ':' [2, 2, 2] text.toList with
      | some ([hour, minute, second], []) => isTime hour minute second
      | _ => false
  | "%H:%M:%S%.f" =>
      match takeNumbers? ':' [2, 2, 2] text.toList with
      | some ([hour, minute, second], rest) => isTime hour minute second && takeFraction? rest == some []
      | _ => false
  | _ => false

theorem not_isWhitespace_of_isDigit {c : Char} (h : c.isDigit = true) : ¬ c.isWhitespace = true := by
  intro hblank
  simp only [Char.isWhitespace, Bool.or_eq_true, decide_eq_true_eq] at hblank
  rcases hblank with ((rfl | rfl) | rfl) | rfl <;> exact absurd h (by decide)

/-- A number written with every digit is read as that number, whatever follows. -/
theorem takeNumber?_padded {width n : Nat} (hwidth : 0 < width) (hn : n < 10 ^ width) (rest : List Char) :
    takeNumber? width (padded width n ++ rest) = some (n, rest) := by
  have hdigits : ∀ c ∈ padded width n, c.isDigit = true := fun _ => isDigit_of_mem_padded
  have hne : padded width n ≠ [] := List.ne_nil_of_length_pos (by rwa [length_padded])
  have htrimmed : (padded width n ++ rest).dropWhile Char.isWhitespace = padded width n ++ rest := by
    obtain ⟨c, cs, hcs⟩ := List.exists_cons_of_ne_nil hne
    have hc : c.isDigit = true := hdigits c (by simp [hcs])
    rw [hcs, List.cons_append, List.dropWhile_cons_of_neg (not_isWhitespace_of_isDigit hc)]
  have htake : (padded width n ++ rest).take width = padded width n := by
    simp
  have hread : (padded width n).takeWhile Char.isDigit = padded width n :=
    List.takeWhile_eq_self_iff.2 hdigits
  simp only [takeNumber?, htrimmed, htake, hread, if_neg hne, ofDigitChars_padded hn, List.drop_left]

theorem takeNumber?_padded_nil {width n : Nat} (hwidth : 0 < width) (hn : n < 10 ^ width) :
    takeNumber? width (padded width n) = some (n, []) := by
  have h := takeNumber?_padded hwidth hn []
  rwa [List.append_nil] at h

theorem takeNumbers?_dateText {year month day : Nat} (hyear : year < 10 ^ 4) (hmonth : month < 10 ^ 2)
    (hday : day < 10 ^ 2) :
    takeNumbers? '-' [4, 2, 2] (dateText year month day) = some ([year, month, day], []) := by
  have htwo : 0 < 2 := by decide
  simp [takeNumbers?, dateText, takeNumber?_padded (show 0 < 4 by decide) hyear,
    takeNumber?_padded htwo hmonth, takeNumber?_padded_nil htwo hday]

variable {hour minute second : Nat}

theorem takeNumbers?_clockText (hhour : hour < 10 ^ 2) (hminute : minute < 10 ^ 2) (rest : List Char) :
    takeNumbers? ':' [2, 2] (clockText hour minute ++ rest) = some ([hour, minute], rest) := by
  have htwo : 0 < 2 := by decide
  simp [takeNumbers?, clockText, takeNumber?_padded htwo hhour, takeNumber?_padded htwo hminute]

theorem takeNumbers?_clockText_short (hhour : hour < 10 ^ 2) (hminute : minute < 10 ^ 2) :
    takeNumbers? ':' [2, 2, 2] (clockText hour minute) = none := by
  have htwo : 0 < 2 := by decide
  simp [takeNumbers?, clockText, takeNumber?_padded htwo hhour, takeNumber?_padded_nil htwo hminute]

theorem takeNumbers?_seconds (hhour : hour < 10 ^ 2) (hminute : minute < 10 ^ 2) (hsecond : second < 10 ^ 2)
    (rest : List Char) :
    takeNumbers? ':' [2, 2, 2] (clockText hour minute ++ ':' :: (padded 2 second ++ rest)) =
      some ([hour, minute, second], rest) := by
  have htwo : 0 < 2 := by decide
  simp [takeNumbers?, clockText, takeNumber?_padded htwo hhour, takeNumber?_padded htwo hminute,
    takeNumber?_padded htwo hsecond]

theorem takeFraction?_digits {digits : List Char} (hne : digits ≠ [])
    (hdigits : ∀ c ∈ digits, c.isDigit = true) : takeFraction? ('.' :: digits) = some [] := by
  obtain ⟨c, cs, rfl⟩ := List.exists_cons_of_ne_nil hne
  obtain ⟨hc, hcs⟩ := List.forall_mem_cons.1 hdigits
  have hend : cs.dropWhile Char.isDigit = [] := List.dropWhile_eq_nil_iff.2 hcs
  simp only [takeFraction?, hc, hend, if_true]

theorem lenientReader_readsWritten : PatternReader.ReadsWritten lenientReader where
  date hyear hmonth hday := by
    simp [PatternReader.Agrees, lenientReader, takeNumbers?_dateText hyear hmonth hday, isDate_iff]
  minutes {hour minute} hhour hminute := by
    have hread := takeNumbers?_clockText (Nat.lt_succ_of_le hhour) (Nat.lt_succ_of_le hminute) []
    have hshort := takeNumbers?_clockText_short (Nat.lt_succ_of_le hhour) (Nat.lt_succ_of_le hminute)
    rw [List.append_nil] at hread
    simp [PatternReader.Agrees, timePatterns, lenientReader, hread, hshort, isTime]
  seconds {hour minute second} hhour hminute hsecond := by
    have hread := takeNumbers?_seconds (Nat.lt_succ_of_le hhour) (Nat.lt_succ_of_le hminute)
      (Nat.lt_succ_of_le hsecond) []
    have hlong := takeNumbers?_clockText (Nat.lt_succ_of_le hhour) (Nat.lt_succ_of_le hminute)
      (':' :: padded 2 second)
    rw [List.append_nil] at hread
    simp [PatternReader.Agrees, timePatterns, lenientReader, hread, hlong, isTime, takeFraction?]
    grind
  fraction {hour minute second digits} hhour hminute hsecond hne hdigits := by
    have hread := takeNumbers?_seconds (Nat.lt_succ_of_le hhour) (Nat.lt_succ_of_le hminute)
      (Nat.lt_succ_of_le hsecond) ('.' :: digits)
    have hlong := takeNumbers?_clockText (Nat.lt_succ_of_le hhour) (Nat.lt_succ_of_le hminute)
      (':' :: (padded 2 second ++ '.' :: digits))
    have hfraction := takeFraction?_digits hne hdigits
    simp [PatternReader.Agrees, timePatterns, lenientReader, hread, hlong, isTime, hfraction]
    grind

end ContentStore.Calendar

namespace ContentStore.FormatRegistry

open Calendar

/-- The formats of dates and times of day accept exactly their grammars, and so do the shape of the bytes and
any reader that reads what is written with every digit exactly when it is in range. -/
theorem plain_formats_exact {reads : PatternReader} (hreads : reads.ReadsWritten) (text : String) :
    ((builtins.reject .string "dev.collecta:String.PlainDate" (.string text) = none ↔ PlainDate text.toList) ∧
      (acceptsDate reads text = true ↔ PlainDate text.toList)) ∧
    ((builtins.reject .string "dev.collecta:String.PlainTime" (.string text) = none ↔ PlainTime text.toList) ∧
      (acceptsTime reads text = true ↔ PlainTime text.toList)) := by
  have hdate : builtins.get? .string "dev.collecta:String.PlainDate" = some Format.plainDate := rfl
  have htime : builtins.get? .string "dev.collecta:String.PlainTime" = some Format.plainTime := rfl
  refine ⟨⟨?_, acceptsDate_iff hreads⟩, ?_, acceptsTime_iff hreads⟩
  · simp [reject, hdate, Format.plainDate, Format.ofText, date_iff]
  · simp [reject, htime, Format.plainTime, Format.ofText, time_iff]

/-- Short fields and blanks that a lenient reader reads are no dates and no times of day for the formats. -/
theorem plain_formats_exact_lenient :
    lenientReader.ReadsWritten ∧
      (PlainDate "2024-02-29".toList ∧ ¬ PlainDate "2023-02-29".toList ∧
        lenientReader "%Y-%m-%d" "2024-2- 9" = true ∧ ¬ PlainDate "2024-2- 9".toList) ∧
      (PlainTime "23:59:60.5".toList ∧ lenientReader "%H:%M:%S" "9:05: 7" = true ∧
        ¬ PlainTime "9:05: 7".toList ∧ ¬ PlainTime "24:00".toList) := by
  have hexact := fun text => plain_formats_exact lenientReader_readsWritten text
  refine ⟨lenientReader_readsWritten, ⟨?_, ?_, by decide +kernel, ?_⟩, ?_, by decide +kernel, ?_, ?_⟩
  · exact (hexact _).1.2.1 (by decide +kernel)
  · rw [← (hexact _).1.2]
    decide +kernel
  · rw [← (hexact _).1.2]
    decide +kernel
  · exact (hexact _).2.2.1 (by decide +kernel)
  · rw [← (hexact _).2.2]
    decide +kernel
  · rw [← (hexact _).2.2]
    decide +kernel

end ContentStore.FormatRegistry
