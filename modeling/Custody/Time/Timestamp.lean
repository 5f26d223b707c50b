import Custody.Text.Blank

/-!
# Points in time

A timestamp is a date of the Gregorian calendar, a second of that day in universal time,
and nanoseconds. It is written like `2020-01-02T03:04:05.500Z`, with as few groups of
three decimals as show it exactly.

`Timestamp.parse` reads that form generously: numbers without leading zeros, blanks
between the parts, a blank for the `T`, a signed year, and an offset from universal
time, which is taken away. A sixtieth second is kept as a second of its own.

A point in time is kept by its date and not as a number of seconds. What is done with
timestamps is to read them, to keep them, and to write them; the one calculation, taking
away an offset of less than a day, moves to the day before or after. A number would have
to be turned into a date and back, and would have no room for a sixtieth second.
-/

set_option autoImplicit false

namespace Custody

/-! ## Dates -/

structure Date where
  year : Int
  month : Nat
  day : Nat
deriving DecidableEq, Repr, Inhabited

namespace Date

def isLeap (year : Int) : Bool := year % 4 = 0 && (year % 100 ≠ 0 || year % 400 = 0)

def daysIn (year : Int) (month : Nat) : Nat :=
  if month = 2 then (if isLeap year then 29 else 28)
  else if month ∈ [4, 6, 9, 11] then 30
  else 31

/-- The first and the last year that are kept. -/
def minYear : Int := -262143

@[inherit_doc minYear]
def maxYear : Int := 262142

/-- Whether there is such a day, in a year that is kept. A date that was read or moved
by an offset is checked with this. -/
def isValid (date : Date) : Bool :=
  minYear ≤ date.year && date.year ≤ maxYear && 1 ≤ date.month && date.month ≤ 12
    && 1 ≤ date.day && date.day ≤ daysIn date.year date.month

def next (date : Date) : Date :=
  if date.day < daysIn date.year date.month then { date with day := date.day + 1 }
  else if date.month < 12 then ⟨date.year, date.month + 1, 1⟩
  else ⟨date.year + 1, 1, 1⟩

def previous (date : Date) : Date :=
  if 1 < date.day then { date with day := date.day - 1 }
  else if 1 < date.month then ⟨date.year, date.month - 1, daysIn date.year (date.month - 1)⟩
  else ⟨date.year - 1, 12, 31⟩

def epoch : Date := ⟨1970, 1, 1⟩

end Date

structure Timestamp where
  date : Date
  /-- Seconds since midnight. -/
  second : Nat
  /-- Nanoseconds; from a billion on they belong to a sixtieth second of the minute. -/
  nanos : Nat
deriving DecidableEq, Repr, Inhabited

namespace Timestamp

def daySeconds : Nat := 86400

def nanosPerSecond : Nat := 1000000000

/-- The time some seconds and nanoseconds after the start of 1970, found by going on day
by day. It is asked once in a run. -/
def ofUnix (seconds nanos : Nat) : Timestamp :=
  ⟨Nat.repeat Date.next (seconds / daySeconds) .epoch, seconds % daySeconds, nanos⟩

/-- A time with an offset from universal time, given in seconds of less than a day, in
universal time. -/
def removeOffset (time : Timestamp) (offset : Int) : Timestamp :=
  let second := (time.second : Int) - offset
  if second < 0 then
    ⟨time.date.previous, (second + daySeconds).toNat, time.nanos⟩
  else if (daySeconds : Int) ≤ second then
    ⟨time.date.next, (second - daySeconds).toNat, time.nanos⟩
  else ⟨time.date, second.toNat, time.nanos⟩

/-! ## Writing -/

/-- A number with leading zeros up to a width. -/
def padded (width n : Nat) : String :=
  let digits := toString n
  "".pushn '0' (width - digits.length) ++ digits

/-- Years of four digits are written plainly, others with their sign. -/
def renderYear (year : Int) : String :=
  if year < 0 then "-" ++ padded 4 year.natAbs
  else if year ≤ 9999 then padded 4 year.natAbs
  else "+" ++ padded 4 year.natAbs

/-- The fraction of a second in three, six or nine decimals, none if it is zero. -/
def renderNanos (nanos : Nat) : String :=
  if nanos = 0 then ""
  else if nanos % 1000000 = 0 then "." ++ padded 3 (nanos / 1000000)
  else if nanos % 1000 = 0 then "." ++ padded 6 (nanos / 1000)
  else "." ++ padded 9 nanos

def render (t : Timestamp) : String :=
  let extra := t.nanos / nanosPerSecond
  renderYear t.date.year ++ "-" ++ padded 2 t.date.month ++ "-" ++ padded 2 t.date.day ++ "T"
    ++ padded 2 (t.second / 3600) ++ ":" ++ padded 2 (t.second / 60 % 60) ++ ":"
    ++ padded 2 (t.second % 60 + extra) ++ renderNanos (t.nanos % nanosPerSecond) ++ "Z"

/-! ## Reading -/

def skipBlanks (cs : List Char) : List Char := cs.dropWhile Text.isBlank

def ofDigits (digits : List Char) : Nat :=
  digits.foldl (fun n c => 10 * n + (c.toNat - '0'.toNat)) 0

/-- The number a text starts with after blanks, of at most `width` digits, and the
rest. -/
def readNumber (width : Nat) (cs : List Char) : Option (Nat × List Char) :=
  let cs := skipBlanks cs
  let digits := (cs.take width).takeWhile Char.isDigit
  if digits.isEmpty then none else some (ofDigits digits, cs.drop digits.length)

def readRange (low high : Nat) (cs : List Char) : Option (Nat × List Char) :=
  (readNumber 2 cs).filter fun (n, _) => low ≤ n && n ≤ high

/-- The rest of a text after blanks and a character. -/
def readMark (mark : Char) (cs : List Char) : Option (List Char) :=
  match skipBlanks cs with
  | c :: rest => if c = mark then some rest else none
  | [] => none

/-- A year: four digits at most, or a sign and any number of digits. -/
def readYear (cs : List Char) : Option (Int × List Char) :=
  match skipBlanks cs with
  | '-' :: rest => (readDigits rest).map fun (n, rest) => (-(n : Int), rest)
  | '+' :: rest => (readDigits rest).map fun (n, rest) => (n, rest)
  | cs => (readNumber 4 cs).map fun (n, rest) => (n, rest)
where
  /-- A number of any length, without blanks before it. -/
  readDigits (cs : List Char) : Option (Nat × List Char) :=
    let digits := cs.takeWhile Char.isDigit
    if digits.isEmpty then none else some (ofDigits digits, cs.drop digits.length)

def readDate (cs : List Char) : Option (Date × List Char) := do
  let (year, rest) ← readYear cs
  let (month, rest) ← readRange 1 12 (← readMark '-' rest)
  let (day, rest) ← readRange 1 31 (← readMark '-' rest)
  let date : Date := ⟨year, month, day⟩
  if date.isValid then some (date, rest) else none

/-- Nanoseconds after a decimal point, of which nine digits count; none without one. -/
def readNanos : List Char → Option (Nat × List Char)
  | '.' :: rest =>
    let digits := rest.takeWhile Char.isDigit
    if digits.isEmpty then none
    else
      let counted := digits.take 9
      some (ofDigits counted * Nat.pow 10 (9 - counted.length), rest.drop digits.length)
  | rest => some (0, rest)

/-- A time of day: seconds since midnight and nanoseconds. -/
def readTime (cs : List Char) : Option (Nat × Nat × List Char) := do
  let (hour, rest) ← readRange 0 23 cs
  let (minute, rest) ← readRange 0 59 (← readMark ':' rest)
  let (second, rest) ← readRange 0 60 (← readMark ':' rest)
  let (nanos, rest) ← readNanos rest
  if second = 60 then some (hour * 3600 + minute * 60 + 59, nanosPerSecond + nanos, rest)
  else some (hour * 3600 + minute * 60 + second, nanos, rest)

def readPair : List Char → Option (Nat × List Char)
  | a :: b :: rest => if a.isDigit && b.isDigit then some (ofDigits [a, b], rest) else none
  | _ => none

/-- The hours and minutes of an offset, in seconds; colons and blanks may stand between
them. -/
def readOffsetSize (cs : List Char) : Option (Nat × List Char) := do
  let (hours, rest) ← readPair cs
  let (minutes, rest) ← readPair (rest.dropWhile fun c => c = ':' || Text.isBlank c)
  if hours < 24 && minutes < 60 then some (hours * 3600 + minutes * 60, rest) else none

/-- An offset from universal time, in seconds. -/
def readOffset (cs : List Char) : Option (Int × List Char) :=
  if (cs.take 3).map Char.toUpper = ['U', 'T', 'C'] then some (0, cs.drop 3)
  else match cs with
    | 'Z' :: rest | 'z' :: rest => some (0, rest)
    | '+' :: rest => (readOffsetSize rest).map fun (n, rest) => (n, rest)
    | '-' :: rest | '−' :: rest => (readOffsetSize rest).map fun (n, rest) => (-(n : Int), rest)
    | _ => none

def parse (text : String) : Option Timestamp := do
  let (date, rest) ← readDate text.toList
  let rest ← match rest with
    | 'T' :: rest | 't' :: rest | ' ' :: rest => some rest
    | _ => none
  let (second, nanos, rest) ← readTime rest
  let (offset, rest) ← readOffset (skipBlanks rest)
  let time := removeOffset ⟨date, second, nanos⟩ offset
  if (skipBlanks rest).isEmpty && time.date.isValid then some time else none

end Timestamp

end Custody
