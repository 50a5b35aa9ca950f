import ContentStore.Content.Calendar
import ContentStore.Proofs.Id.Proto
import Mathlib.Algebra.GroupWithZero.Nat
import Mathlib.Data.List.Induction

/-!
# The grammars of dates and times

Every field of a date or a time of day is a number written with a fixed count of digits. A date is a text
of three such fields that name a day of the Gregorian calendar, and a time of day has two or three fields
within their ranges, and perhaps a fraction after the third.
-/

namespace ContentStore.Calendar

/-! ## Fields -/

def padded : Nat → Nat → List Char
  | 0, _ => []
  | width + 1, n => padded width (n / 10) ++ [Nat.digitChar (n % 10)]

@[simp] theorem length_padded (width n : Nat) : (padded width n).length = width := by
  induction width generalizing n with
  | zero => rfl
  | succ width ih => simp [padded, ih]

theorem isDigit_of_mem_padded {width n : Nat} {c : Char} (h : c ∈ padded width n) :
    c.isDigit = true := by
  induction width generalizing n with
  | zero => cases h
  | succ width ih =>
      rcases List.mem_append.1 h with h | h
      · exact ih h
      · rw [List.mem_singleton.1 h, Nat.isDigit_digitChar, decide_eq_true_eq]
        exact Nat.mod_lt n (by decide)

theorem ofDigitChars_padded {width n : Nat} (h : n < 10 ^ width) :
    Nat.ofDigitChars 10 (padded width n) 0 = n := by
  induction width generalizing n with
  | zero =>
      rw [Nat.pow_zero] at h
      exact (Nat.lt_one_iff.1 h).symm
  | succ width ih =>
      have hlast : (Nat.digitChar (n % 10)).toNat = 48 + n % 10 :=
        Nat.toNat_digitChar_of_lt_ten (Nat.mod_lt n (by decide))
      have hzero : '0'.toNat = 48 := rfl
      have hfront : n / 10 < 10 ^ width := by
        rw [Nat.pow_succ] at h
        omega
      rw [padded, Nat.ofDigitChars_append, ih hfront, Nat.ofDigitChars_cons, hlast, hzero]
      simp only [Nat.ofDigitChars, List.foldl_nil]
      omega

/-- Any digits write a number with as many digits. -/
theorem exists_padded {cs : List Char} (h : ∀ c ∈ cs, c.isDigit = true) :
    ∃ n, n < 10 ^ cs.length ∧ cs = padded cs.length n := by
  induction cs using List.reverseRecOn with
  | nil => exact ⟨0, by decide, rfl⟩
  | append_singleton front c ih =>
      obtain ⟨n, hn, hfront⟩ := ih fun d hd => h d (by simp [hd])
      obtain ⟨hdigit, hchar⟩ := ProtoId.digitChar_of_isDigit (h c (by simp))
      refine ⟨10 * n + (c.toNat - '0'.toNat), ?_, ?_⟩
      · rw [List.length_append, List.length_singleton, Nat.pow_succ]
        omega
      · rw [List.length_append, List.length_singleton, padded,
          show (10 * n + (c.toNat - '0'.toNat)) / 10 = n by omega,
          show (10 * n + (c.toNat - '0'.toNat)) % 10 = c.toNat - '0'.toNat by omega, hchar, ← hfront]

/-- Digits are read as the number that they write. -/
theorem read_eq_some_iff (cs : List Char) {n : Nat} :
    (if cs.all Char.isDigit = true then some (Nat.ofDigitChars 10 cs 0) else none) = some n ↔
      n < 10 ^ cs.length ∧ cs = padded cs.length n := by
  constructor
  · intro h
    split at h
    · next hdigits =>
        obtain ⟨m, hm, hcs⟩ := exists_padded (List.all_eq_true.1 hdigits)
        have hread := ofDigitChars_padded hm
        rw [← hcs] at hread
        rw [hread, Option.some.injEq] at h
        exact h ▸ ⟨hm, hcs⟩
    · cases h
  · rintro ⟨hn, hcs⟩
    have hread := ofDigitChars_padded hn
    rw [← hcs] at hread
    have hdigits : cs.all Char.isDigit = true := by
      rw [hcs, List.all_eq_true]
      exact fun _ => isDigit_of_mem_padded
    rw [if_pos hdigits, hread]

theorem two?_eq_some_iff {a b : Char} {n : Nat} :
    two? a b = some n ↔ n < 10 ^ 2 ∧ [a, b] = padded 2 n := by
  refine Iff.trans ?_ (read_eq_some_iff [a, b])
  simp [two?]

theorem four?_eq_some_iff {a b c d : Char} {n : Nat} :
    four? a b c d = some n ↔ n < 10 ^ 4 ∧ [a, b, c, d] = padded 4 n := by
  refine Iff.trans ?_ (read_eq_some_iff [a, b, c, d])
  simp [four?]

/-! ## Dates -/

/-- A year with a leap day: every fourth one, of the full centuries only every fourth. -/
def IsLeap (year : Nat) : Prop :=
  4 ∣ year ∧ (100 ∣ year → 400 ∣ year)

structure IsDay (year month day : Nat) : Prop where
  inYear : 1 ≤ month ∧ month ≤ 12
  inMonth : 1 ≤ day ∧ day ≤ 31
  short : month = 4 ∨ month = 6 ∨ month = 9 ∨ month = 11 → day ≤ 30
  february : month = 2 → day ≤ 29 ∧ (day = 29 → IsLeap year)

theorem leapYear_iff (year : Nat) : leapYear year = true ↔ IsLeap year := by
  simp only [leapYear, IsLeap, Bool.and_eq_true, Bool.or_eq_true, beq_iff_eq, bne_iff_ne]
  omega

theorem isDate_iff {year month day : Nat} : isDate year month day = true ↔ IsDay year month day := by
  have hleap := leapYear_iff year
  have hdays : isDate year month day = true ↔ 1 ≤ day ∧ day ≤ daysOfMonth year month := by
    simp [isDate]
  rw [hdays]
  constructor
  · rintro ⟨hfirst, hlast⟩
    unfold daysOfMonth at hlast
    split at hlast
    case h_12 =>
      split at hlast
      · next h => exact ⟨by omega, by omega, by omega, fun _ => ⟨hlast, fun _ => hleap.1 h⟩⟩
      · exact ⟨by omega, by omega, by omega, fun _ => ⟨by omega, by omega⟩⟩
    case h_13 => omega
    all_goals exact ⟨by omega, by omega, by omega, by omega⟩
  · rintro ⟨hmonth, ⟨hfirst, hlast⟩, hshort, hfebruary⟩
    refine ⟨hfirst, ?_⟩
    by_cases htwo : month = 2
    · obtain ⟨hlast, hleapDay⟩ := hfebruary htwo
      simp only [htwo, daysOfMonth]
      split
      · exact hlast
      · next h =>
          have : day ≠ 29 := fun he => h (hleap.2 (hleapDay he))
          omega
    · by_cases hthirty : month = 4 ∨ month = 6 ∨ month = 9 ∨ month = 11
      · rcases hthirty with rfl | rfl | rfl | rfl <;> exact hshort (by decide)
      · have hlong : month = 1 ∨ month = 3 ∨ month = 5 ∨ month = 7 ∨ month = 8 ∨ month = 10 ∨
            month = 12 := by omega
        rcases hlong with rfl | rfl | rfl | rfl | rfl | rfl | rfl <;> exact hlast

/-- The text of a date: the year, the month and the day, with hyphens between them. -/
def dateText (year month day : Nat) : List Char :=
  padded 4 year ++ '-' :: (padded 2 month ++ '-' :: padded 2 day)

/-- A date of the years 0000 to 9999. -/
def PlainDate (text : List Char) : Prop :=
  ∃ year month day, year < 10 ^ 4 ∧ IsDay year month day ∧ text = dateText year month day

/-- What is taken off the front of a text is the date of a day. -/
theorem takeDate?_eq_some_iff {text rest : List Char} :
    takeDate? text = some rest ↔
      ∃ year month day, year < 10 ^ 4 ∧ IsDay year month day ∧
        text = dateText year month day ++ rest := by
  constructor
  · intro h
    unfold takeDate? at h
    split at h
    · next y y' y'' y''' m m' d d' after =>
        obtain ⟨year, hyear, h⟩ := Option.bind_eq_some_iff.1 h
        obtain ⟨month, hmonth, h⟩ := Option.bind_eq_some_iff.1 h
        obtain ⟨day, hday, h⟩ := Option.bind_eq_some_iff.1 h
        obtain ⟨hyearLt, hyear⟩ := four?_eq_some_iff.1 hyear
        obtain ⟨-, hmonth⟩ := two?_eq_some_iff.1 hmonth
        obtain ⟨-, hday⟩ := two?_eq_some_iff.1 hday
        split at h
        · next hexists =>
            rw [Option.some.injEq] at h
            refine ⟨year, month, day, hyearLt, isDate_iff.1 hexists, ?_⟩
            rw [dateText, ← hyear, ← hmonth, ← hday, h]
            rfl
        · cases h
    · cases h
  · rintro ⟨year, month, day, hyear, hday, rfl⟩
    have hmonthLt : month < 10 ^ 2 := by have := hday.inYear; omega
    have hdayLt : day < 10 ^ 2 := by have := hday.inMonth; omega
    have hread : four? _ _ _ _ = some year := four?_eq_some_iff.2 ⟨hyear, rfl⟩
    have hread' : two? _ _ = some month := two?_eq_some_iff.2 ⟨hmonthLt, rfl⟩
    have hread'' : two? _ _ = some day := two?_eq_some_iff.2 ⟨hdayLt, rfl⟩
    simp only [dateText, padded, List.nil_append, List.cons_append, takeDate?, hread, hread', hread'',
      Option.bind_eq_bind, Option.bind_some, isDate_iff.2 hday, if_true]

theorem date_iff {text : List Char} : date text = true ↔ PlainDate text := by
  simp [date, PlainDate, takeDate?_eq_some_iff]

/-! ## Times of day -/

def clockText (hour minute : Nat) : List Char :=
  padded 2 hour ++ ':' :: padded 2 minute

/-- A text of two or three fields up to given numbers, with a colon before each but the first, and perhaps
with a point and more digits after the third. -/
inductive TimeText (hours minutes seconds : Nat) : List Char → Prop
  | minutes {hour minute : Nat} (hhour : hour ≤ hours) (hminute : minute ≤ minutes) :
      TimeText hours minutes seconds (clockText hour minute)
  | seconds {hour minute second : Nat} (hhour : hour ≤ hours) (hminute : minute ≤ minutes)
      (hsecond : second ≤ seconds) :
      TimeText hours minutes seconds (clockText hour minute ++ ':' :: padded 2 second)
  | fraction {hour minute second : Nat} {digits : List Char} (hhour : hour ≤ hours)
      (hminute : minute ≤ minutes) (hsecond : second ≤ seconds) (hne : digits ≠ [])
      (hdigits : ∀ c ∈ digits, c.isDigit = true) :
      TimeText hours minutes seconds (clockText hour minute ++ ':' :: (padded 2 second ++ '.' :: digits))

/-- Fields up to some numbers are fields up to greater ones. -/
theorem TimeText.mono {hours hours' minutes minutes' seconds seconds' : Nat} {text : List Char}
    (h : TimeText hours minutes seconds text) (hhours : hours ≤ hours') (hminutes : minutes ≤ minutes')
    (hseconds : seconds ≤ seconds') : TimeText hours' minutes' seconds' text := by
  cases h with
  | minutes hhour hminute => exact .minutes (Nat.le_trans hhour hhours) (Nat.le_trans hminute hminutes)
  | seconds hhour hminute hsecond =>
      exact .seconds (Nat.le_trans hhour hhours) (Nat.le_trans hminute hminutes)
        (Nat.le_trans hsecond hseconds)
  | fraction hhour hminute hsecond hne hdigits =>
      exact .fraction (Nat.le_trans hhour hhours) (Nat.le_trans hminute hminutes)
        (Nat.le_trans hsecond hseconds) hne hdigits

/-- A time of day. Second 60 is a leap second. -/
abbrev PlainTime (text : List Char) : Prop :=
  TimeText 23 59 60 text

/-- What is taken off the front of a text is an hour, a minute and a second of a day. -/
theorem takeTime?_eq_some_iff {text rest : List Char} :
    takeTime? text = some rest ↔
      ∃ hour minute second, hour ≤ 23 ∧ minute ≤ 59 ∧ second ≤ 60 ∧
        text = clockText hour minute ++ ':' :: (padded 2 second ++ rest) := by
  constructor
  · intro h
    unfold takeTime? at h
    split at h
    · next a a' b b' c c' after =>
        obtain ⟨hour, hhour, h⟩ := Option.bind_eq_some_iff.1 h
        obtain ⟨minute, hminute, h⟩ := Option.bind_eq_some_iff.1 h
        obtain ⟨second, hsecond, h⟩ := Option.bind_eq_some_iff.1 h
        obtain ⟨-, hhour⟩ := two?_eq_some_iff.1 hhour
        obtain ⟨-, hminute⟩ := two?_eq_some_iff.1 hminute
        obtain ⟨-, hsecond⟩ := two?_eq_some_iff.1 hsecond
        split at h
        · next hexists =>
            simp only [isTime, Bool.and_eq_true, decide_eq_true_eq] at hexists
            rw [Option.some.injEq] at h
            refine ⟨hour, minute, second, hexists.1.1, hexists.1.2, hexists.2, ?_⟩
            rw [clockText, ← hhour, ← hminute, ← hsecond, h]
            rfl
        · cases h
    · cases h
  · rintro ⟨hour, minute, second, hhour, hminute, hsecond, rfl⟩
    have hread : two? _ _ = some hour := two?_eq_some_iff.2 ⟨by omega, rfl⟩
    have hread' : two? _ _ = some minute := two?_eq_some_iff.2 ⟨by omega, rfl⟩
    have hread'' : two? _ _ = some second := two?_eq_some_iff.2 ⟨by omega, rfl⟩
    have hexists : isTime hour minute second = true := by
      simp [isTime, hhour, hminute, hsecond]
    simp only [clockText, padded, List.nil_append, List.cons_append, takeTime?, hread, hread', hread'',
      Option.bind_eq_bind, Option.bind_some, hexists, if_true]

/-- An hour and a minute without seconds are taken as if second 00 was written. -/
theorem takeTime?_minutes_iff (text : List Char) :
    takeTime? (text ++ [':', '0', '0']) = some [] ↔
      ∃ hour minute, hour ≤ 23 ∧ minute ≤ 59 ∧ text = clockText hour minute := by
  rw [takeTime?_eq_some_iff]
  constructor
  · rintro ⟨hour, minute, second, hhour, hminute, -, htext⟩
    exact ⟨hour, minute, hhour, hminute, (List.append_inj' htext rfl).1⟩
  · rintro ⟨hour, minute, hhour, hminute, rfl⟩
    exact ⟨hour, minute, 0, hhour, hminute, by decide, rfl⟩

/-- A time of day either has no seconds, or nothing but a fraction stands after its seconds. -/
theorem plainTime_iff {text : List Char} :
    PlainTime text ↔
      (∃ hour minute, hour ≤ 23 ∧ minute ≤ 59 ∧ text = clockText hour minute) ∨
        (∃ rest, takeTime? text = some rest ∧
          (rest = [] ∨ ∃ digits, rest = '.' :: digits ∧ digits ≠ [] ∧ ∀ c ∈ digits, c.isDigit = true)) := by
  simp only [takeTime?_eq_some_iff]
  constructor
  · rintro (⟨hhour, hminute⟩ | ⟨hhour, hminute, hsecond⟩ | ⟨hhour, hminute, hsecond, hne, hdigits⟩)
    · exact .inl ⟨_, _, hhour, hminute, rfl⟩
    · exact .inr ⟨[], ⟨_, _, _, hhour, hminute, hsecond, by rw [List.append_nil]⟩, .inl rfl⟩
    · exact .inr ⟨_, ⟨_, _, _, hhour, hminute, hsecond, rfl⟩, .inr ⟨_, rfl, hne, hdigits⟩⟩
  · rintro (⟨hour, minute, hhour, hminute, rfl⟩ |
      ⟨rest, ⟨hour, minute, second, hhour, hminute, hsecond, rfl⟩, rfl | ⟨digits, rfl, hne, hdigits⟩⟩)
    · exact .minutes hhour hminute
    · rw [List.append_nil]
      exact .seconds hhour hminute hsecond
    · exact .fraction hhour hminute hsecond hne hdigits

theorem time_iff {text : List Char} : time text = true ↔ PlainTime text := by
  rw [plainTime_iff]
  unfold time
  split
  · next a a' b b' =>
      -- A text this short has no seconds to take.
      have hshort : takeTime? [a, a', ':', b, b'] = none := rfl
      have hminutes := takeTime?_minutes_iff [a, a', ':', b, b']
      simpa [hshort] using hminutes
  · next hlong =>
      have hlong' : ¬ ∃ hour minute, hour ≤ 23 ∧ minute ≤ 59 ∧ text = clockText hour minute :=
        fun ⟨_, _, _, _, htext⟩ => hlong _ _ _ _ htext
      rw [or_iff_right hlong']
      split
      · next hrest => simp [hrest]
      · next digits hrest => simp [hrest]
      · next hnot hnot' =>
          refine iff_of_false Bool.false_ne_true ?_
          rintro ⟨rest, hrest, rfl | ⟨digits, rfl, -, -⟩⟩
          · exact hnot hrest
          · exact hnot' digits hrest

end ContentStore.Calendar
