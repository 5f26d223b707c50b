import Custody.Expr.Basic

/-!
# Tokens of expressions

`Token.scan` cuts the text of an expression into tokens. A maximal run of letters,
digits and underscores is one token: an integer literal when it starts with a digit, an
identifier otherwise. Integer literals are hexadecimal after `0x`, else decimal with any
suffix made of the letters `u` and `l`; they have to fit a signed 64-bit word.

The scan goes through the text once and carries the word that has begun (`scanFrom`). A
word ends at the first character that is not part of one, and is only looked at then: a
digit in the middle of a name is part of the name, and a letter in the middle of a
number makes the whole run an invalid number, not a number and a name.

A minus is a token only as part of an arrow. So there are no negative literals, and the
integer of an expression that was read is never negative; the printer could write one,
but nothing could read it (`Expr.isProper` in `Proofs/Expr/Printing`).
-/

set_option autoImplicit false

namespace Custody

inductive Token where
  | ident (name : String)
  | int (value : Int)
  | amp
  | star
  | arrow
  | dot
  | lparen
  | rparen
  | lbracket
  | rbracket
deriving DecidableEq, Repr, Inhabited

namespace Token

/-- How error messages name a token: by its kind, and a word also by what it is. -/
def label : Token → String
  | ident name => "Ident(\"" ++ name ++ "\")"
  | int value => "Int(" ++ toString value ++ ")"
  | amp => "Amp"
  | star => "Star"
  | arrow => "Arrow"
  | dot => "Dot"
  | lparen => "LParen"
  | rparen => "RParen"
  | lbracket => "LBracket"
  | rbracket => "RBracket"

/-- Why a text has no tokens. -/
inductive Error where
  /-- A word that starts with a digit and is no integer literal. -/
  | badInteger (text : String)
  /-- A character that no token starts with. -/
  | badCharacter (shown : Char)
deriving DecidableEq, Repr

/-- Letters, digits and the underscore: the characters words are made of. -/
def isWordChar (c : Char) : Bool := c.isAlphanum || c == '_'

/-- The blanks between tokens. -/
def isGap (c : Char) : Bool := c == ' ' || c == '\t' || c == '\n' || c == '\r'

/-- The first byte of a character's UTF-8 form, as a character. An ASCII character is
its own. A message about a character that starts no token shows this byte and not the
character, so of a letter outside ASCII only its first byte is ever seen. -/
def leadByte (c : Char) : Char :=
  let n := c.toNat
  if n < 0x80 then c
  else if n < 0x800 then Char.ofNat (0xC0 + n / 0x40)
  else if n < 0x10000 then Char.ofNat (0xE0 + n / 0x1000)
  else Char.ofNat (0xF0 + n / 0x40000)

/-- The value of a digit in bases up to sixteen. -/
def digitValue? (c : Char) : Option Nat :=
  if c.isDigit then some (c.toNat - '0'.toNat)
  else if 'a' ≤ c && c ≤ 'f' then some (c.toNat - 'a'.toNat + 10)
  else if 'A' ≤ c && c ≤ 'F' then some (c.toNat - 'A'.toNat + 10)
  else none

/-- The number that `digits` continue from `start`, if all of them are digits of the
base. -/
def numeralFrom (base : Nat) (start : Nat) : List Char → Option Nat
  | [] => some start
  | c :: rest =>
    match digitValue? c with
    | some d => if d < base then numeralFrom base (start * base + d) rest else none
    | none => none

def numeral? (base : Nat) (digits : List Char) : Option Nat :=
  if digits.isEmpty then none else numeralFrom base 0 digits

def maxLiteral : Nat := 0x7FFFFFFFFFFFFFFF

/-- The characters a decimal literal may end with: the suffixes for unsigned and
long. -/
def isSuffixChar (c : Char) : Bool := c == 'u' || c == 'U' || c == 'l' || c == 'L'

/-- The digits of a literal and the base they are in. A hexadecimal literal has no
suffix: what would be one is read as digits, and fails. -/
def literalDigits : List Char → Nat × List Char
  | '0' :: 'x' :: digits => (16, digits)
  | '0' :: 'X' :: digits => (16, digits)
  | text => (10, (text.reverse.dropWhile isSuffixChar).reverse)

/-- The value of an integer literal. A number that does not fit is no literal at all, as
if its digits were no digits. -/
def literal? (text : List Char) : Option Nat :=
  let (base, digits) := literalDigits text
  (numeral? base digits).filter (· ≤ maxLiteral)

def ofWord : List Char → Except Error Token
  | [] => .error (.badInteger "")
  | c :: rest =>
    if c.isDigit then
      match literal? (c :: rest) with
      | some n => .ok (.int n)
      | none => .error (.badInteger (String.ofList (c :: rest)))
    else .ok (.ident (String.ofList (c :: rest)))

def ofSymbol? : Char → Option Token
  | '&' => some .amp
  | '*' => some .star
  | '.' => some .dot
  | '(' => some .lparen
  | ')' => some .rparen
  | '[' => some .lbracket
  | ']' => some .rbracket
  | _ => none

/-- The tokens of a word that has ended: none if no word was begun. -/
def ofEndedWord (word : List Char) : Except Error (List Token) :=
  if word.isEmpty then .ok [] else (ofWord word).map ([·])

/-- The tokens of a text, where `word` is the part of a word already read. An arrow is
looked for before single characters, since a dash alone starts no token. -/
def scanFrom (word : List Char) : List Char → Except Error (List Token)
  | [] => ofEndedWord word
  | '-' :: '>' :: rest => do
    let ended ← ofEndedWord word
    let tokens ← scanFrom [] rest
    return ended ++ .arrow :: tokens
  | c :: rest =>
    if isWordChar c then scanFrom (word ++ [c]) rest
    else do
      let ended ← ofEndedWord word
      if isGap c then
        let tokens ← scanFrom [] rest
        return ended ++ tokens
      else match ofSymbol? c with
        | some symbol =>
          let tokens ← scanFrom [] rest
          return ended ++ symbol :: tokens
        | none => throw (.badCharacter (leadByte c))

def scan (text : List Char) : Except Error (List Token) := scanFrom [] text

end Token

end Custody
