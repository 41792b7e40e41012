import HostSubnets.Text.Blank

/-!
# Times with an offset

A time is a day, a letter T or a space, a time of day and the offset from universal time:
`2024-02-29T12:00:00Z`. Numbers need not be padded, blanks may stand before numbers and around
separators, the year may have a sign and then any number of digits, and the offset is a letter Z,
the word UTC, or hours and minutes with a sign.

* `Timestamp.readDay`, `Timestamp.readClock`, `Timestamp.readOffset` : the three parts;
* `isTimestamp` : whether a text is a time between the first and the last year that there are.
-/

namespace HostSubnets.Text

namespace Timestamp

/-- A number of at most `width` digits after blanks. -/
def readField (width : Nat) (s : List Char) : Option (Nat × List Char) :=
  let s := s.dropWhile isBlank
  let digits := (s.takeWhile Char.isDigit).take width
  if digits = [] then none else some (Nat.ofDigitChars 10 digits 0, s.drop digits.length)

def readSigned (s : List Char) : Option (Nat × List Char) :=
  if (s.head?.map Char.isDigit).getD false then readField s.length s else none

/-- A year; without a sign it has at most four digits. -/
def readYear (s : List Char) : Option (Int × List Char) :=
  match s.dropWhile isBlank with
  | '-' :: rest => (readSigned rest).map fun (year, rest) => (-(year : Int), rest)
  | '+' :: rest => (readSigned rest).map fun (year, rest) => ((year : Int), rest)
  | s => (readField 4 s).map fun (year, rest) => ((year : Int), rest)

def after (separator : Char) (s : List Char) : Option (List Char) :=
  match s.dropWhile isBlank with
  | c :: rest => if c = separator then some rest else none
  | [] => none

/-! ## Days -/

structure Day where
  year : Int
  month : Nat
  day : Nat
deriving DecidableEq

def isLeapYear (year : Int) : Bool :=
  year % 4 == 0 && (year % 100 != 0 || year % 400 == 0)

def daysInMonth (year : Int) (month : Nat) : Nat :=
  if month = 2 then if isLeapYear year then 29 else 28
  else if month = 4 ∨ month = 6 ∨ month = 9 ∨ month = 11 then 30
  else 31

def firstYear : Int := -262143

def lastYear : Int := 262142

def Day.first : Day := ⟨firstYear, 1, 1⟩

def Day.last : Day := ⟨lastYear, 12, 31⟩

def Day.exists (d : Day) : Bool :=
  firstYear ≤ d.year && d.year ≤ lastYear && 1 ≤ d.month && d.month ≤ 12 && 1 ≤ d.day &&
    d.day ≤ daysInMonth d.year d.month

def readDay (s : List Char) : Option (Day × List Char) := do
  let (year, s) ← readYear s
  let (month, s) ← readField 2 (← after '-' s)
  let (day, s) ← readField 2 (← after '-' s)
  let d : Day := ⟨year, month, day⟩
  if d.exists then some (d, s) else none

/-! ## Times of day -/

def secondsPerDay : Int := 86400

def skipFraction (s : List Char) : Option (List Char) :=
  match s with
  | '.' :: rest =>
    if (rest.head?.map Char.isDigit).getD false then some (rest.dropWhile Char.isDigit) else none
  | s => some s

/-- A time of day in seconds. A leap second counts as the second before it. -/
def readClock (s : List Char) : Option (Int × List Char) := do
  let (hour, s) ← readField 2 s
  let (minute, s) ← readField 2 (← after ':' s)
  let (second, s) ← readField 2 (← after ':' s)
  let s ← skipFraction s
  if hour ≤ 23 ∧ minute ≤ 59 ∧ second ≤ 60 then
    some (hour * 3600 + minute * 60 + min second 59, s)
  else none

def readPair (s : List Char) : Option (Nat × List Char) :=
  match s with
  | a :: b :: rest =>
    if a.isDigit && b.isDigit then some (Nat.ofDigitChars 10 [a, b] 0, rest) else none
  | _ => none

/-- Hours and minutes in seconds; colons and blanks may stand in between. -/
def readHours (s : List Char) : Option (Int × List Char) := do
  let (hours, s) ← readPair s
  let (minutes, s) ← readPair (s.dropWhile fun c => c == ':' || isBlank c)
  if hours ≤ 23 ∧ minutes ≤ 59 then some (hours * 3600 + minutes * 60, s) else none

def readOffset (s : List Char) : Option (Int × List Char) :=
  match s.dropWhile isBlank with
  | 'Z' :: rest => some (0, rest)
  | 'z' :: rest => some (0, rest)
  | '+' :: rest => readHours rest
  | '-' :: rest => (readHours rest).map fun (offset, rest) => (-offset, rest)
  | '−' :: rest => (readHours rest).map fun (offset, rest) => (-offset, rest)
  | s => if (s.take 3).map Char.toUpper = ['U', 'T', 'C'] then some (0, s.drop 3) else none

end Timestamp

open Timestamp in
/-- Whether a text is a time. In universal time it must not fall before the first or after the last
day. -/
def isTimestamp (s : List Char) : Bool :=
  (do
    let (day, s) ← readDay s
    let s ← match s with
      | c :: rest => if c = 'T' ∨ c = 't' ∨ c = ' ' then some rest else none
      | [] => none
    let (time, s) ← readClock s
    let (offset, s) ← readOffset s
    let inside := !(decide (day = Day.first) && decide (time < offset)) &&
      !(decide (day = Day.last) && decide (secondsPerDay ≤ time - offset))
    some (inside && s.all isBlank)).getD false

end HostSubnets.Text
