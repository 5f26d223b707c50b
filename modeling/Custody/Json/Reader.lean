import Custody.Json.Basic

/-!
# Reading JSON text

`Json.parse` accepts exactly the JSON grammar: four kinds of blank, no leading zeros, no
raw control characters in strings, nothing after the value. Nesting is not limited here.

The three readers of values take a number of steps, which `parse` makes large enough: a
value and the items it is made of are read by different functions, and between two calls
of one of them a character is consumed. A limit on nesting would be another thing. It is
set afterwards, by `parseDocument`, since it does not make a text ill-formed.

Strings are where most of the rules are. Escapes give 16-bit units, two of which may be
one character, so a string while it is read has to remember a unit that waits for its
partner (`Spelling`). One that never gets it leaves the string without a text, but where
it ends is known all the same, and reading goes on.
-/

set_option autoImplicit false

namespace Custody.Json

/-- The blanks between tokens. -/
def isGap (c : Char) : Bool := c == ' ' || c == '\t' || c == '\n' || c == '\r'

def skipGap (cs : List Char) : List Char := cs.dropWhile isGap

/-! ## Strings -/

/-- A string while it is read: its characters so far, last first; a leading surrogate
that waits for its partner; and whether all surrogates so far had one. -/
structure Spelling where
  reversed : List Char
  lead : Option Nat
  paired : Bool

namespace Spelling

def start : Spelling := ⟨[], none, true⟩

def char (s : Spelling) (c : Char) : Spelling :=
  ⟨c :: s.reversed, none, s.paired && s.lead.isNone⟩

/-- One more 16-bit unit, from an escape with four hexadecimal digits. The second half
of a surrogate pair makes a character with the first, which has to come right before
it. -/
def unit (s : Spelling) (n : Nat) : Spelling :=
  if 0xDC00 ≤ n && n ≤ 0xDFFF then
    match s.lead with
    | some lead =>
      ⟨Char.ofNat (0x10000 + (lead - 0xD800) * 0x400 + (n - 0xDC00)) :: s.reversed, none, s.paired⟩
    | none => { s with paired := false }
  else if 0xD800 ≤ n && n ≤ 0xDBFF then
    ⟨s.reversed, some n, s.paired && s.lead.isNone⟩
  else s.char (Char.ofNat n)

/-- The text that was spelled, if every surrogate had a partner. Without one the string
is well-formed all the same, and only has no text. -/
def finish (s : Spelling) : Option String :=
  if s.paired && s.lead.isNone then some (String.ofList s.reversed.reverse) else none

end Spelling

def hexValue? (c : Char) : Option Nat :=
  if c.isDigit then some (c.toNat - '0'.toNat)
  else if 'a' ≤ c && c ≤ 'f' then some (c.toNat - 'a'.toNat + 10)
  else if 'A' ≤ c && c ≤ 'F' then some (c.toNat - 'A'.toNat + 10)
  else none

def unit? (a b c d : Char) : Option Nat := do
  return (((← hexValue? a) * 16 + (← hexValue? b)) * 16 + (← hexValue? c)) * 16 + (← hexValue? d)

def escape? : Char → Option Char
  | '"' => some '"'
  | '\\' => some '\\'
  | '/' => some '/'
  | 'b' => some '\x08'
  | 'f' => some '\x0c'
  | 'n' => some '\n'
  | 'r' => some '\r'
  | 't' => some '\t'
  | _ => none

/-- Reads a string after its opening quote: its text, unless it has none, and what
follows. -/
def readString (s : Spelling) : List Char → Option (Option String × List Char)
  | [] => none
  | '"' :: rest => some (s.finish, rest)
  | '\\' :: 'u' :: a :: b :: c :: d :: rest =>
    match unit? a b c d with
    | some n => readString (s.unit n) rest
    | none => none
  | '\\' :: c :: rest =>
    match escape? c with
    | some c => readString (s.char c) rest
    | none => none
  | c :: rest => if c < ' ' || c == '\\' then none else readString (s.char c) rest

/-! ## Numbers -/

def decimal (digits : List Char) : Nat :=
  digits.foldl (fun n c => n * 10 + (c.toNat - '0'.toNat)) 0

def readDigits (cs : List Char) : Option (List Char × List Char) :=
  match cs.takeWhile Char.isDigit with
  | [] => none
  | digits => some (digits, cs.dropWhile Char.isDigit)

/-- The digits of a fraction, none if there is no decimal point. -/
def readFraction : List Char → Option (List Char × List Char)
  | '.' :: rest => readDigits rest
  | rest => some ([], rest)

/-- The exponent, if there is one. -/
def readExponent : List Char → Option (Option Int × List Char)
  | c :: rest =>
    if c == 'e' || c == 'E' then
      match rest with
      | '-' :: rest => (readDigits rest).map fun (ds, rest) => (some (-(decimal ds : Int)), rest)
      | '+' :: rest => (readDigits rest).map fun (ds, rest) => (some (decimal ds : Int), rest)
      | rest => (readDigits rest).map fun (ds, rest) => (some (decimal ds : Int), rest)
    else some (none, c :: rest)
  | [] => some (none, [])

/-- A numeral with more digits, as long as it fits 64 bits, and the digits that are left
over. -/
def gather (n : Nat) : List Char → Nat × List Char
  | [] => (n, [])
  | c :: rest =>
    let next := n * 10 + (c.toNat - '0'.toNat)
    if next ≤ maxWord64 then gather next rest else (n, c :: rest)

/-- The number that the digits before and after the point and the exponent make. Digits
that do not fit 64 bits are dropped, and those before the point still count for the
exponent. -/
def Number.ofParts (negative : Bool) (whole fraction : List Char)
    (exponent : Option Int) : Number :=
  let (n, dropped) := gather 0 whole
  let (n, rest) := gather n fraction
  { negative
    significand := n
    exponent := exponent.getD 0 + dropped.length - (fraction.length - rest.length : Nat)
    integral := fraction.isEmpty && exponent.isNone }

/-- Reads a number after its sign. -/
def readNumber (negative : Bool) (cs : List Char) : Option (Number × List Char) := do
  let (whole, rest) ← readDigits cs
  if whole.head? == some '0' && whole.length != 1 then failure
  let (fraction, rest) ← readFraction rest
  let (exponent, rest) ← readExponent rest
  return (.ofParts negative whole fraction exponent, rest)

/-! ## Values -/

/-- An object, unless one of its names has no text. Then it is a value that nothing can
be read from. -/
def ofMembers (members : List (Option String × Json)) : Json :=
  match members.mapM fun (name, value) => name.map (·, value) with
  | some members => object members
  | none => unusable

def readWord (word : List Char) (cs : List Char) : Option (List Char) :=
  if word.isPrefixOf cs then some (cs.drop word.length) else none

mutual

/-- Reads a value. Every second call has consumed a character since the call before the
last. -/
def readValue : Nat → List Char → Option (Json × List Char)
  | 0, _ => none
  | steps + 1, cs =>
    match skipGap cs with
    | [] => none
    | '"' :: rest => (readString .start rest).map fun (text, rest) =>
        (match text with | some text => string text | none => unusable, rest)
    | '[' :: rest =>
      match skipGap rest with
      | ']' :: rest => some (array [], rest)
      | rest => readItems steps [] rest
    | '{' :: rest =>
      match skipGap rest with
      | '}' :: rest => some (object [], rest)
      | rest => readMembers steps [] rest
    | '-' :: rest => (readNumber true rest).map fun (n, rest) => (number n, rest)
    | 'n' :: rest => (readWord ['u', 'l', 'l'] rest).map (null, ·)
    | 't' :: rest => (readWord ['r', 'u', 'e'] rest).map (bool true, ·)
    | 'f' :: rest => (readWord ['a', 'l', 's', 'e'] rest).map (bool false, ·)
    | rest => (readNumber false rest).map fun (n, rest) => (number n, rest)

/-- Reads the items of an array from one on that has to be there; `items` holds those
before it, last first. -/
def readItems : Nat → List Json → List Char → Option (Json × List Char)
  | 0, _, _ => none
  | steps + 1, items, cs =>
    match readValue steps cs with
    | none => none
    | some (item, rest) =>
      match skipGap rest with
      | ',' :: rest => readItems steps (item :: items) rest
      | ']' :: rest => some (array (item :: items).reverse, rest)
      | _ => none

/-- Reads the members of an object from one on that has to be there; `members` holds
those before it, last first. -/
def readMembers : Nat → List (Option String × Json) → List Char → Option (Json × List Char)
  | 0, _, _ => none
  | steps + 1, members, cs =>
    match skipGap cs with
    | '"' :: rest =>
      match readString .start rest with
      | none => none
      | some (name, rest) =>
        match skipGap rest with
        | ':' :: rest =>
          match readValue steps rest with
          | none => none
          | some (value, rest) =>
            match skipGap rest with
            | ',' :: rest => readMembers steps ((name, value) :: members) rest
            | '}' :: rest => some (ofMembers ((name, value) :: members).reverse, rest)
            | _ => none
        | _ => none
    | _ => none

end

def parse (text : String) : Option Json := do
  let cs := text.toList
  let (value, rest) ← readValue (2 * cs.length + 2) cs
  if (skipGap rest).isEmpty then some value else none

def maxNesting : Nat := 127

/-- The value that a whole document spells; whatever is nested too deeply is
unusable. -/
def parseDocument (text : String) : Option Json := (parse text).map (bury maxNesting)

end Custody.Json
