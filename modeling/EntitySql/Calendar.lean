import EntitySql.Number.Power
import EntitySql.Text.Blank

/-!
# Dates and times

Dates of the proleptic Gregorian calendar and times of day to the nanosecond, without a time zone.
The nanoseconds of a time run on through a leap second that follows its second. The written form of a
time counts such nanoseconds to the next second, which is second 60 behind second 59; it has no
fraction, or one of three, six or nine digits, the fewest that are exact. Years outside 0 to 9999
carry a sign.

Reading is more generous than writing: blanks may stand before every number and after the last
one, months, days, hours, minutes and seconds may have one digit, and digits of a fraction beyond
the ninth are dropped.
-/

namespace EntitySql

/-! ### The types -/

/-- Whether February of the year has 29 days. -/
def isLeapYear (year : Int) : Bool :=
  year % 4 = 0 ∧ (year % 100 ≠ 0 ∨ year % 400 = 0)

/-- The number of days of a month; none for a number that is no month. -/
def daysInMonth (year : Int) : Nat → Nat
  | 1 | 3 | 5 | 7 | 8 | 10 | 12 => 31
  | 4 | 6 | 9 | 11 => 30
  | 2 => if isLeapYear year then 29 else 28
  | _ => 0

/-- How many nanoseconds a second has. -/
def nanosPerSecond : Nat := 1000000000

/-- A day of the calendar. -/
structure Date where
  year : Int
  month : Nat
  day : Nat
  year_mem : -262143 ≤ year ∧ year ≤ 262142
  day_mem : 1 ≤ day ∧ day ≤ daysInMonth year month
deriving DecidableEq

/-- A time of day. Nanoseconds beyond those of a second are in a leap second that follows it, and one may
follow any second. -/
structure Time where
  hour : Nat
  minute : Nat
  second : Nat
  nanosecond : Nat
  hour_lt : hour < 24
  minute_lt : minute < 60
  second_lt : second < 60
  nanosecond_lt : nanosecond < 2 * nanosPerSecond
deriving DecidableEq

/-- A day and a time of that day. -/
structure DateTime where
  date : Date
  time : Time
deriving DecidableEq

/-- The day with these numbers, if there is one. -/
def Date.ofNumbers? (year : Int) (month day : Nat) : Option Date :=
  if h : (-262143 ≤ year ∧ year ≤ 262142) ∧ (1 ≤ day ∧ day ≤ daysInMonth year month) then
    some ⟨year, month, day, h.1, h.2⟩
  else none

/-- The time with these numbers, if there is one. Second 60 is the leap second behind second 59. -/
def Time.ofNumbers? (hour minute second nanosecond : Nat) : Option Time :=
  if h : hour < 24 ∧ minute < 60 ∧ second ≤ 60 ∧ nanosecond < nanosPerSecond then
    if hs : second < 60 then some ⟨hour, minute, second, nanosecond, h.1, h.2.1, hs, by omega⟩
    else some ⟨hour, minute, 59, nanosPerSecond + nanosecond, h.1, h.2.1, by decide, by omega⟩
  else none

/-- The first day of 1970. -/
def Date.epoch : Date := ⟨1970, 1, 1, by decide, by decide⟩

/-- The start of a day. -/
def Time.midnight : Time := ⟨0, 0, 0, 0, by decide, by decide, by decide, by decide⟩

namespace Calendar

/-! ### Writing -/

/-- A number in at least `width` digits. -/
def padded (width n : Nat) : List Char :=
  let ds := Nat.toDigits 10 n
  List.replicate (width - ds.length) '0' ++ ds

/-- A year: four digits from 0 to 9999, otherwise a sign and at least four digits. -/
def yearChars (year : Int) : List Char :=
  if 0 ≤ year ∧ year ≤ 9999 then padded 4 year.toNat
  else (if year < 0 then '-' else '+') :: padded 4 year.natAbs

/-- `year-month-day`. -/
def dateChars (d : Date) : List Char :=
  yearChars d.year ++ '-' :: padded 2 d.month ++ '-' :: padded 2 d.day

/-- The fraction of a second with its point, in none, three, six or nine digits. -/
def fractionChars (nanosecond : Nat) : List Char :=
  if nanosecond = 0 then []
  else if nanosecond % 1000000 = 0 then '.' :: padded 3 (nanosecond / 1000000)
  else if nanosecond % 1000 = 0 then '.' :: padded 6 (nanosecond / 1000)
  else '.' :: padded 9 nanosecond

/-- `hour:minute:second` and the fraction. A leap second is the next second. -/
def timeChars (t : Time) : List Char :=
  padded 2 t.hour ++ ':' :: padded 2 t.minute ++
    ':' :: padded 2 (t.second + t.nanosecond / nanosPerSecond) ++
      fractionChars (t.nanosecond % nanosPerSecond)

/-- Date and time with `separator` between them. -/
def dateTimeChars (separator : Char) (t : DateTime) : List Char :=
  dateChars t.date ++ separator :: timeChars t.time

/-! ### Reading -/

/-- The value of a list of decimal digits. -/
def digitsValue (ds : List Char) : Nat := ds.foldl (fun n c => n * 10 + (c.toNat - '0'.toNat)) 0

/-- One or more digits, at most `limit` of them where a limit is given. -/
def scanDigits (limit : Option Nat) (s : List Char) : Option (Nat × List Char) :=
  let run := s.takeWhile Char.isDigit
  let ds := match limit with | some n => run.take n | none => run
  if ds.isEmpty then none else some (digitsValue ds, s.drop ds.length)

/-- A number of one or two digits after any blanks. -/
def scanTwo (s : List Char) : Option (Nat × List Char) :=
  scanDigits (some 2) (s.dropWhile Text.isBlank)

/-- A year after any blanks: at most four digits, or a sign and any number of digits. -/
def scanYear (s : List Char) : Option (Int × List Char) :=
  match s.dropWhile Text.isBlank with
  | '-' :: rest => (scanDigits none rest).map fun (n, rest) => (-(n : Int), rest)
  | '+' :: rest => (scanDigits none rest).map fun (n, rest) => ((n : Int), rest)
  | s => (scanDigits (some 4) s).map fun (n, rest) => ((n : Int), rest)

/-- The character `mark` after any blanks. -/
def scanMark (mark : Char) (s : List Char) : Option (List Char) :=
  match s.dropWhile Text.isBlank with
  | c :: rest => if c = mark then some rest else none
  | [] => none

/-- A fraction of a second in nanoseconds: nothing, or a point and at least one digit. -/
def scanFraction : List Char → Option (Nat × List Char)
  | '.' :: rest =>
    let run := rest.takeWhile Char.isDigit
    let kept := run.take 9
    if run.isEmpty then none
    else some (digitsValue kept * tenTo (9 - kept.length), rest.drop run.length)
  | s => some (0, s)

/-- `year-month-day`. -/
def scanDate (s : List Char) : Option ((Int × Nat × Nat) × List Char) := do
  let (year, s) ← scanYear s
  let s ← scanMark '-' s
  let (month, s) ← scanTwo s
  let s ← scanMark '-' s
  let (day, s) ← scanTwo s
  some ((year, month, day), s)

/-- `hour:minute`. -/
def scanMinutes (s : List Char) : Option ((Nat × Nat) × List Char) := do
  let (hour, s) ← scanTwo s
  let s ← scanMark ':' s
  let (minute, s) ← scanTwo s
  some ((hour, minute), s)

/-- `:second` and a fraction. -/
def scanSeconds (s : List Char) : Option ((Nat × Nat) × List Char) := do
  let s ← scanMark ':' s
  let (second, s) ← scanTwo s
  let (nanosecond, s) ← scanFraction s
  some ((second, nanosecond), s)

/-- Whether only blanks are left. -/
def atEnd (s : List Char) : Bool := s.all Text.isBlank

end Calendar

open Calendar in
/-- Reads a date. -/
def Date.read? (s : List Char) : Option Date := do
  let ((year, month, day), rest) ← scanDate s
  if atEnd rest then Date.ofNumbers? year month day else none

open Calendar in
/-- Reads a time; the seconds may be missing. -/
def Time.read? (s : List Char) : Option Time := do
  let ((hour, minute), rest) ← scanMinutes s
  let ((second, nanosecond), rest) := (scanSeconds rest).getD ((0, 0), rest)
  if atEnd rest then Time.ofNumbers? hour minute second nanosecond else none

open Calendar in
/-- Reads a date and a time with `T` between them; the seconds must be there. -/
def DateTime.read? (s : List Char) : Option DateTime := do
  let ((year, month, day), rest) ← scanDate s
  let rest ← scanMark 'T' rest
  let ((hour, minute), rest) ← scanMinutes rest
  let ((second, nanosecond), rest) ← scanSeconds rest
  if atEnd rest then
    let date ← Date.ofNumbers? year month day
    let time ← Time.ofNumbers? hour minute second nanosecond
    some ⟨date, time⟩
  else none

/-- The written form of a date. -/
def Date.toText (d : Date) : String := String.ofList (Calendar.dateChars d)

/-- The written form of a time. -/
def Time.toText (t : Time) : String := String.ofList (Calendar.timeChars t)

/-- The written form of a date and time, with `separator` between the two. -/
def DateTime.toText (separator : Char) (t : DateTime) : String :=
  String.ofList (Calendar.dateTimeChars separator t)

end EntitySql
