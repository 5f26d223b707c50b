import Custody.Time.Timestamp
import Custody.Toml.Basic

/-!
# Values without quotes

A value that is neither quoted nor in brackets is one word: a boolean, an integer in one
of four bases, a number with a fraction or an exponent, or a date or time. Only booleans
and integers are read as what they are. The others are `other`: no setting has such a
value, but where a value is not looked at it still has to be well-formed.

An integer is well-formed by the start of its text and by the characters around its
underscores. That each character is a digit is asked only when the number is wanted, so
`1_a` is well-formed, and has no value.

Functions with names in `skip` take a piece off the front of a text and give back the
rest, without a value for the piece. For dates, times and floating point numbers that is
all there is to do, since only their form matters.
-/

set_option autoImplicit false

namespace Custody.Toml

/-! ## Numbers -/

def hexValue? (c : Char) : Option Nat :=
  if c.isDigit then some (c.toNat - '0'.toNat)
  else if 'a' ≤ c && c ≤ 'f' then some (c.toNat - 'a'.toNat + 10)
  else if 'A' ≤ c && c ≤ 'F' then some (c.toNat - 'A'.toNat + 10)
  else none

def isHexDigit (c : Char) : Bool := (hexValue? c).isSome

/-- The number that digits spell in a base, whatever underscores are among them. -/
def number? (base : Nat) (digits : List Char) : Option Nat := do
  let values ← (digits.filter (· != '_')).mapM fun c => (hexValue? c).filter (· < base)
  return values.foldl (fun n d => base * n + d) 0

/-- Whether each underscore stands between digits. `before` tells whether a digit
precedes the text. -/
def spacedAfter (isDigit : Char → Bool) (before : Bool) : List Char → Bool
  | [] => true
  | c :: rest =>
    if c == '_' then before && rest.head?.any isDigit && spacedAfter isDigit false rest
    else spacedAfter isDigit (isDigit c) rest

def wellSpaced (isDigit : Char → Bool) (cs : List Char) : Bool := spacedAfter isDigit false cs

/-- Whether digits start with a zero that is not the only one. -/
def hasLeadingZero (digits : List Char) : Bool :=
  digits.head? == some '0' && digits.length != 1

/-- Whether a text without its sign is a well-formed decimal integer. What follows an
underscore may be letters: that is only found when the number is wanted. -/
def isInteger (cs : List Char) : Bool :=
  let rest := cs.dropWhile Char.isDigit
  !cs.isEmpty && !hasLeadingZero cs && (rest.isEmpty || rest.head? == some '_') &&
    !rest.any (fun c => c == '.' || c == 'e' || c == 'E' || c == ' ') &&
    wellSpaced isHexDigit cs

/-- An integer in a base that was named. Without digits it is well-formed, but has no
value. -/
def based? (base : Nat) (digits : List Char) : Option Toml :=
  if digits.isEmpty then some other
  else if wellSpaced isHexDigit digits then (number? base digits).map (int ∘ Int.ofNat)
  else none

def leadingDigits (cs : List Char) : List Char := cs.takeWhile fun c => c.isDigit || c == '_'

/-- The text after digits, which it has to start with. -/
def skipDigits (cs : List Char) : Option (List Char) :=
  let digits := leadingDigits cs
  if digits.any Char.isDigit then some (cs.drop digits.length) else none

def skipFraction : List Char → Option (List Char)
  | '.' :: rest => skipDigits rest
  | rest => some rest

def skipExponent : List Char → Option (List Char)
  | c :: rest =>
    if c == 'e' || c == 'E' then
      match rest with
      | '+' :: rest | '-' :: rest => skipDigits rest
      | rest => skipDigits rest
    else some (c :: rest)
  | [] => some []

/-- Whether a text without its sign is a number with a fraction or an exponent, or the
name of one that has no digits. -/
def isFloat (cs : List Char) : Bool :=
  cs == ['i', 'n', 'f'] || cs == ['n', 'a', 'n'] ||
    (!hasLeadingZero (leadingDigits cs) && wellSpaced Char.isDigit cs &&
      ((skipDigits cs).bind skipFraction).bind skipExponent == some [])

def splitSign : List Char → Bool × List Char
  | '-' :: rest => (true, rest)
  | '+' :: rest => (false, rest)
  | rest => (false, rest)

/-! ## Dates and times -/

def pair? : List Char → Option (Nat × List Char)
  | a :: b :: rest => if a.isDigit && b.isDigit then (number? 10 [a, b]).map (·, rest) else none
  | _ => none

/-- The text after two digits for a number of at most `high`. -/
def skipPair (high : Nat) (cs : List Char) : Option (List Char) :=
  (pair? cs).bind fun (n, rest) => if n ≤ high then some rest else none

def skipMark (mark : Char) : List Char → Option (List Char)
  | c :: rest => if c == mark then some rest else none
  | [] => none

def skipDate (cs : List Char) : Option (List Char) := do
  let (century, rest) ← pair? cs
  let (year, rest) ← pair? rest
  let (month, rest) ← pair? (← skipMark '-' rest)
  let (day, rest) ← pair? (← skipMark '-' rest)
  if Date.isValid ⟨century * 100 + year, month, day⟩ then some rest else none

/-- The text after the fraction of a second, if it starts with one. -/
def skipSecondFraction : List Char → Option (List Char)
  | '.' :: rest =>
    let digits := rest.takeWhile Char.isDigit
    if digits.isEmpty then none else some (rest.drop digits.length)
  | rest => some rest

/-- The text after the seconds of a time, which may be left off. -/
def skipSeconds : List Char → Option (List Char)
  | ':' :: rest => (skipPair 60 rest).bind skipSecondFraction
  | rest => some rest

def skipTime (cs : List Char) : Option (List Char) := do
  let rest ← skipPair 23 cs
  skipSeconds (← skipPair 59 (← skipMark ':' rest))

/-- Whether a text is an offset from universal time, or nothing. -/
def isOffset : List Char → Bool
  | [] => true
  | ['Z'] | ['z'] => true
  | '+' :: rest | '-' :: rest =>
    ((skipPair 23 rest).bind fun rest => (skipMark ':' rest).bind (skipPair 59)) == some []
  | _ => false

/-- Whether a text is a date, a time, or both with a `T` or a blank between them. -/
def isDateTime (cs : List Char) : Bool :=
  skipTime cs == some [] ||
    match skipDate cs with
    | some [] => true
    | some (c :: rest) =>
      (c == 'T' || c == 't' || c == ' ') && (skipTime rest).any isOffset
    | none => false

/-! ## Words -/

/-- The blanks inside a line. -/
def isGap (c : Char) : Bool := c == ' ' || c == '\t'

/-- The characters of a word: all but those that end one. Blanks are among them, for the
sake of dates. -/
def isWordChar (c : Char) : Bool :=
  c ∉ ['=', ',', '[', ']', '\x7b', '\x7d', '#', '\r', '\n']

/-- The word a text starts with. Blanks may stand in it, as between a date and a time,
but not at its end. -/
def leadingWord (cs : List Char) : List Char :=
  ((cs.takeWhile isWordChar).reverse.dropWhile isGap).reverse

/-- A decimal integer with its sign, or `other` if it is not all digits. -/
def ofDecimal (negative : Bool) (size : List Char) : Toml :=
  match number? 10 size with
  | some n => int (if negative then -(n : Int) else n)
  | none => other

def ofWord? : List Char → Option Toml
  | ['t', 'r', 'u', 'e'] => some (bool true)
  | ['f', 'a', 'l', 's', 'e'] => some (bool false)
  | '0' :: 'x' :: digits => based? 16 digits
  | '0' :: 'o' :: digits => based? 8 digits
  | '0' :: 'b' :: digits => based? 2 digits
  | word =>
    let (negative, size) := splitSign word
    if isInteger size then some (ofDecimal negative size)
    else if isFloat size || isDateTime word then some other
    else none

end Custody.Toml
