/-!
# Dates, times and instants as text

A date is a day of the Gregorian calendar written `YYYY-MM-DD`. A time of day has hours and minutes and
may have seconds and a fraction; second 60 is allowed for leap seconds. An instant is a date, a time and
an offset, as on the Internet.
-/

namespace ContentStore.Calendar

def two? (a b : Char) : Option Nat :=
  if a.isDigit ∧ b.isDigit then some (Nat.ofDigitChars 10 [a, b] 0) else none

def four? (a b c d : Char) : Option Nat :=
  if a.isDigit ∧ b.isDigit ∧ c.isDigit ∧ d.isDigit then some (Nat.ofDigitChars 10 [a, b, c, d] 0)
  else none

def leapYear (year : Nat) : Bool :=
  year % 4 == 0 && (year % 100 != 0 || year % 400 == 0)

def daysOfMonth (year month : Nat) : Nat :=
  match month with
  | 1 | 3 | 5 | 7 | 8 | 10 | 12 => 31
  | 4 | 6 | 9 | 11 => 30
  | 2 => if leapYear year then 29 else 28
  | _ => 0

def isDate (year month day : Nat) : Bool :=
  1 ≤ day && day ≤ daysOfMonth year month

def isTime (hour minute second : Nat) : Bool :=
  hour ≤ 23 && minute ≤ 59 && second ≤ 60

def takeDate? : List Char → Option (List Char)
  | y :: y' :: y'' :: y''' :: '-' :: m :: m' :: '-' :: d :: d' :: rest => do
      let year ← four? y y' y'' y'''
      let month ← two? m m'
      let day ← two? d d'
      if isDate year month day then some rest else none
  | _ => none

def date (text : List Char) : Bool :=
  takeDate? text == some []

def takeTime? : List Char → Option (List Char)
  | h :: h' :: ':' :: m :: m' :: ':' :: s :: s' :: rest => do
      let hour ← two? h h'
      let minute ← two? m m'
      let second ← two? s s'
      if isTime hour minute second then some rest else none
  | _ => none

/-- Whether a text is a time of day: `HH:MM`, `HH:MM:SS`, or that with a fraction of a second. -/
def time (text : List Char) : Bool :=
  match text with
  | [h, h', ':', m, m'] => takeTime? [h, h', ':', m, m', ':', '0', '0'] == some []
  | _ =>
      match takeTime? text with
      | some [] => true
      | some ('.' :: fraction) => !fraction.isEmpty && fraction.all Char.isDigit
      | _ => false

/-- Takes a fraction of a second off the front of a text; without a point there is none to take. -/
def takeFraction? : List Char → Option (List Char)
  | '.' :: c :: rest => if c.isDigit then some (rest.dropWhile Char.isDigit) else none
  | '.' :: [] => none
  | text => some text

/-- Whether a text is an offset: `Z`, or a sign, hours and minutes. A minus sign may be typographic. -/
def offset (text : List Char) : Bool :=
  match text with
  | ['Z'] | ['z'] => true
  | [sign, h, h', ':', m, m'] =>
      (sign == '+' || sign == '-' || sign == '−') && takeTime? [h, h', ':', m, m', ':', '0', '0'] == some []
  | _ => false

/-- Whether a text is an instant. A `T` of either case or a space separates date and time. -/
def instant (text : List Char) : Bool :=
  match takeDate? text with
  | some (c :: rest) =>
      (c == 'T' || c == 't' || c == ' ') && ((takeTime? rest).bind takeFraction?).any offset
  | _ => false

example : date "2024-02-29".toList && !date "2023-02-29".toList && !date "2024-00-10".toList := by
  decide +kernel
example : time "23:59:60.5".toList && time "00:00".toList && !time "12:05:07.".toList := by
  decide +kernel
example : instant "2024-01-01t00:00:00.5−05:00".toList && !instant "2024-01-01T00:00:00+01".toList := by
  decide +kernel

end ContentStore.Calendar
