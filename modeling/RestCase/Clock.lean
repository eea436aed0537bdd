/-
# RestCase.Clock — points in time

An `Instant` is a day, a second of that day and a part of that second, all in universal time; the
second may be the sixtieth of its minute.  `Instant.text` writes it as a date and a time with as
many groups of three decimals as it needs, and `Instant.parse` reads it back.  Reading is more
generous than writing: blanks may stand between the numbers, and an offset from universal time is
taken away.

A `LocalTime` is an instant together with the seconds that the clock of the place is ahead of
universal time.  Its text is that of the shown instant with the offset behind it (`LocalTime.text`);
the offset is rounded to minutes, as it is written.
-/
import RestCase.Chars.Digits

namespace RestCase

/-- A point in time.  A second of the day may last two seconds.  `Instant.text` writes it and
`Instant.parse` reads it back. -/
structure Instant where
  /-- Days after the first day of 1970. -/
  day : Int
  /-- Seconds after midnight. -/
  second : Nat
  /-- Nanoseconds after the second. -/
  nano : Nat
  deriving DecidableEq, Repr

namespace Instant

/-- The beginning of 1970. -/
def epoch : Instant := ⟨0, 0, 0⟩

/-! ## The calendar -/

/-- The year has a day more than others. -/
def isLeap (year : Int) : Bool := (year % 4 == 0 && year % 100 != 0) || year % 400 == 0

/-- Days before the year, counted from the beginning of the year 1. -/
def daysOfYears (year : Int) : Int :=
  let y := year - 1
  365 * y + y / 4 - y / 100 + y / 400

theorem daysOfYears_succ (year : Int) :
    daysOfYears (year + 1) = daysOfYears year + if isLeap year then 366 else 365 := by
  simp only [daysOfYears, isLeap, Bool.or_eq_true, Bool.and_eq_true, beq_iff_eq, bne_iff_ne]
  split <;> omega

/-- The lengths of the months. -/
def monthLengths (leap : Bool) : List Nat :=
  [31, if leap then 29 else 28, 31, 30, 31, 30, 31, 31, 30, 31, 30, 31]

/-- Days between the beginning of the year 1 and the beginning of 1970. -/
def epochOffset : Int := 719162

/-- The number of a day, if there is such a day. -/
def dayOf? (year : Int) (month day : Nat) : Option Int :=
  let lengths := monthLengths (isLeap year)
  match lengths[month - 1]? with
  | some length =>
    let before : Nat := (lengths.take (month - 1)).foldl (· + ·) 0
    if 1 ≤ month ∧ 1 ≤ day ∧ day ≤ length then
      some (daysOfYears year + before + (day - 1) - epochOffset)
    else none
  | none => none

/-- The month and the day of the month for a day of a year, both counted from one. -/
def monthAndDay (number : Nat) : Nat → List Nat → Nat × Nat
  | n, length :: r =>
    if n < length then (number, n + 1) else monthAndDay (number + 1) (n - length) r
  | n, [] => (number, n + 1)

/-- Year, month and day. -/
def date (t : Instant) : Int × Nat × Nat :=
  let n := t.day + epochOffset
  -- by the average length of a year, which is off by one year at most
  let near := (400 * n) / 146097 + 1
  let year :=
    if n < daysOfYears near then near - 1
    else if daysOfYears (near + 1) ≤ n then near + 1 else near
  (year, monthAndDay 1 (n - daysOfYears year).toNat (monthLengths (isLeap year)))

/-- The years in which a point in time can lie. -/
def isYear (year : Int) : Bool := -262143 ≤ year && year ≤ 262142

/-! ## Writing -/

/-- A number with zeros in front up to a width. -/
def pad (width n : Nat) : List Char :=
  let digits := Chars.digits n
  List.replicate (width - digits.length) '0' ++ digits

theorem pad_length (width n : Nat) :
    (pad width n).length = max width (Chars.digits n).length := by
  simp [pad]
  omega

/-- A year: four digits, or a sign and more. -/
def yearChars (year : Int) : List Char :=
  if 0 ≤ year ∧ year ≤ 9999 then pad 4 year.toNat
  else (if year < 0 then '-' else '+') :: pad 4 year.natAbs

/-- The date. -/
def dateChars (t : Instant) : List Char :=
  let (year, month, day) := t.date
  yearChars year ++ '-' :: (pad 2 month ++ '-' :: pad 2 day)

/-- The time of day in whole seconds, with a mark between the numbers. -/
def timeChars (mark : Char) (t : Instant) : List Char :=
  -- a part of a second above one is a second that was put in
  let second := t.second % 60 + t.nano / 1000000000
  pad 2 (t.second / 3600) ++ mark :: (pad 2 (t.second / 60 % 60) ++ mark :: pad 2 second)

/-- The part of a second, in groups of three decimals. -/
def fractionChars (t : Instant) : List Char :=
  let n := t.nano % 1000000000
  if n = 0 then []
  else if n % 1000000 = 0 then '.' :: pad 3 (n / 1000000)
  else if n % 1000 = 0 then '.' :: pad 6 (n / 1000)
  else '.' :: pad 9 n

/-- The date and the time with an offset after them. -/
def withOffset (offset : String) (t : Instant) : String :=
  String.ofList (t.dateChars ++ 'T' :: (t.timeChars ':' ++ t.fractionChars ++ offset.toList))

/-- The point in time as it is written in documents. -/
def text (t : Instant) : String := t.withOffset "Z"

/-- The date and the time for a reader. -/
def plainText (t : Instant) : String :=
  String.ofList (t.dateChars ++ ' ' :: t.timeChars ':')

/-! ## Reading -/

/-- What keeps a text from being a point in time. -/
inductive Fault where
  | tooShort | invalid | outOfRange | impossible | trailing
  deriving DecidableEq, Repr

/-- The words for a fault. -/
def Fault.message : Fault → String
  | tooShort => "premature end of input"
  | invalid => "input contains invalid characters"
  | outOfRange => "input is out of range"
  | impossible => "no possible date and time matching input"
  | trailing => "trailing input"

/-- A number of at most `width` digits after blanks. -/
def readDigits (width : Nat) (s : List Char) : Except Fault (Nat × List Char) :=
  let digits := (s.take width).takeWhile Chars.isDigit
  if s.isEmpty then .error .tooShort
  else if digits.isEmpty then .error .invalid
  else if 0x8000000000000000 ≤ Chars.ofDigits digits then .error .outOfRange
  else .ok (Chars.ofDigits digits, s.drop digits.length)

/-- A number within bounds, after blanks. -/
def readField (low high : Nat) (s : List Char) : Except Fault (Nat × List Char) := do
  let (n, r) ← readDigits 2 (Chars.trimStart s)
  if low ≤ n ∧ n ≤ high then return (n, r) else throw .outOfRange

/-- A year, after blanks. -/
def readYear (s : List Char) : Except Fault (Int × List Char) := do
  let (year, r) ← match Chars.trimStart s with
    | '-' :: r => (readDigits r.length r).map fun e => (-(e.1 : Int), e.2)
    | '+' :: r => (readDigits r.length r).map fun e => ((e.1 : Int), e.2)
    | r => (readDigits 4 r).map fun e => ((e.1 : Int), e.2)
  if -0x80000000 ≤ year ∧ year < 0x80000000 then return (year, r) else throw .outOfRange

/-- A mark, after blanks. -/
def readMark (mark : Char) (s : List Char) : Except Fault (List Char) :=
  match Chars.trimStart s with
  | [] => .error .tooShort
  | c :: r => if c = mark then .ok r else .error .invalid

/-- The part of a second, in nanoseconds; digits after the ninth do not count. -/
def readFraction (s : List Char) : Except Fault (Nat × List Char) :=
  match s with
  | '.' :: r => do
    let (n, _) ← readDigits 9 r
    let digits := r.takeWhile Chars.isDigit
    return (n * Chars.tenTo (9 - (digits.take 9).length), r.drop digits.length)
  | s => .ok (0, s)

/-- An offset from universal time, in seconds. -/
def readOffset (s : List Char) : Except Fault (Int × List Char) :=
  if (s.take 3).map Char.toLower == ['u', 't', 'c'] then .ok (0, s.drop 3)
  else match s with
  | [] => .error .tooShort
  | c :: r =>
    if c = 'Z' ∨ c = 'z' then .ok (0, r)
    else if c = '+' ∨ c = '-' ∨ c.toNat = 0x2212 then do
      let (hours, r) ← twoDigits r
      let r := r.dropWhile fun d => d == ':' || Chars.isBlank d
      let (minutes, r) ← twoDigits r
      if 60 ≤ minutes then throw .outOfRange
      let offset : Int := hours * 3600 + minutes * 60
      return (if c = '+' then offset else -offset, r)
    else .error .invalid
where
  /-- Two digits. -/
  twoDigits : List Char → Except Fault (Nat × List Char)
    | a :: b :: r =>
      if Chars.isDigit a && Chars.isDigit b then .ok (Chars.ofDigits [a, b], r)
      else .error .invalid
    | _ => .error .tooShort

/-- The point in time that is so many seconds earlier than a day and a second of it. -/
def earlier (day : Int) (second : Nat) (nano : Nat) (offset : Int) : Instant :=
  let total : Int := second - offset
  ⟨day + total / 86400, (total % 86400).toNat, nano⟩

/-- The mark between the date and the time. -/
def readSeparator : List Char → Except Fault (List Char)
  | [] => .error .tooShort
  | c :: r => if c = 'T' ∨ c = 't' ∨ c = ' ' then .ok r else .error .invalid

/-- The point in time that a date, a second of the day and an offset name. -/
def resolve (year : Int) (month dayOfMonth second nano : Nat) (offset : Int) :
    Except Fault Instant :=
  match dayOf? year month dayOfMonth with
  | none => .error .outOfRange
  | some day =>
    if isYear year ∧ offset.natAbs < 86400 then
      let t := earlier day second nano offset
      -- the offset may lead out of the years that the date is in
      if isYear t.date.1 then .ok t else .error .impossible
    else .error .outOfRange

/-- The point in time that a text stands for: the fields from `readYear` to `readOffset` in turn,
put together by `resolve`. -/
def parse (text : String) : Except Fault Instant := do
  let (year, s) ← readYear text.toList
  let (month, s) ← readField 1 12 (← readMark '-' s)
  let (dayOfMonth, s) ← readField 1 31 (← readMark '-' s)
  let (hour, s) ← readField 0 23 (← readSeparator s)
  let (minute, s) ← readField 0 59 (← readMark ':' s)
  let (second, s) ← readField 0 60 (← readMark ':' s)
  let (nano, s) ← readFraction s
  let (offset, s) ← readOffset (Chars.trimStart s)
  if (Chars.trimStart s).isEmpty then
    -- a sixtieth second is written as a longer fifty-ninth one
    let long := second / 60
    resolve year month dayOfMonth (hour * 3600 + minute * 60 + (second - long))
      (nano + long * 1000000000) offset
  else .error .trailing

end Instant

/-! ## Clocks -/

/-- A point in time as a clock shows it at some place: `LocalTime.shown` is what stands on the
clock. -/
structure LocalTime where
  instant : Instant
  /-- Seconds by which the clock is ahead of universal time. -/
  ahead : Int
  deriving DecidableEq, Repr

namespace LocalTime

/-- The date and the time that the clock shows. -/
def shown (t : LocalTime) : Instant :=
  .earlier t.instant.day t.instant.second t.instant.nano (-t.ahead)

/-- By how much the clock is ahead of universal time, in hours and minutes. -/
def offsetText (t : LocalTime) : String :=
  -- seconds are rounded to the nearest minute
  let minutes := (t.ahead.natAbs + 30) / 60
  String.ofList ((if t.ahead < 0 then '-' else '+') ::
    (Instant.pad 2 (minutes / 60) ++ ':' :: Instant.pad 2 (minutes % 60)))

/-- What the clock shows, with the difference from universal time behind it. -/
def text (t : LocalTime) : String := t.shown.withOffset t.offsetText

end LocalTime

end RestCase
