import Custody.Digest.Hex
import Custody.Json.Basic

/-!
# Writing JSON text

`Json.pretty` writes a value over several lines, two blanks per level, one item or
member a line; an empty array or object stays on its line. Strings keep every character
but quotes, backslashes and control characters.

The layout is part of what is promised: reports and baselines are kept in files that are
compared line by line, and a change in one entry should be a change in its lines only.
Braces are written by their numbers because a brace in a string is the start of an
interpolation.
-/

set_option autoImplicit false

namespace Custody.Json

/-- How a character is written inside a string. -/
def escapeChar (c : Char) : List Char :=
  if c == '"' then ['\\', '"']
  else if c == '\\' then ['\\', '\\']
  else if c == '\n' then ['\\', 'n']
  else if c == '\r' then ['\\', 'r']
  else if c == '\t' then ['\\', 't']
  else if c == '\x08' then ['\\', 'b']
  else if c == '\x0c' then ['\\', 'f']
  else if c < ' ' then ['\\', 'u', '0', '0', Hex.digit (c.toNat / 16), Hex.digit (c.toNat % 16)]
  else [c]

def quote (text : String) : String :=
  "\"" ++ String.ofList (text.toList.flatMap escapeChar) ++ "\""

def Number.render (n : Number) : String :=
  (if n.negative then "-" else "") ++ toString n.significand
    ++ (if n.integral && n.exponent = 0 then "" else "e" ++ toString n.exponent)

def indent (level : Nat) : String := "\n" ++ "".pushn ' ' (2 * level)

mutual

/-- The text of a value whose first line is at `level`. -/
def prettyAt (level : Nat) : Json → String
  | null | unusable => "null"
  | bool value => if value then "true" else "false"
  | number value => value.render
  | string text => quote text
  | array [] => "[]"
  | array items => "[" ++ prettyItems (level + 1) items ++ indent level ++ "]"
  | object [] => "\x7b\x7d"
  | object members => "\x7b" ++ prettyMembers (level + 1) members ++ indent level ++ "\x7d"

def prettyItems (level : Nat) : List Json → String
  | [] => ""
  | [item] => indent level ++ prettyAt level item
  | item :: rest => indent level ++ prettyAt level item ++ "," ++ prettyItems level rest

def prettyMembers (level : Nat) : List (String × Json) → String
  | [] => ""
  | [(name, value)] => indent level ++ quote name ++ ": " ++ prettyAt level value
  | (name, value) :: rest =>
    indent level ++ quote name ++ ": " ++ prettyAt level value ++ "," ++ prettyMembers level rest

end

def pretty (value : Json) : String := prettyAt 0 value

end Custody.Json
