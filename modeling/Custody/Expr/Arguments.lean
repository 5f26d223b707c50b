import Custody.Text.Blank

/-!
# Argument lists

The text between the parentheses of an attribute is a list of arguments separated by
commas. A comma inside round or square brackets belongs to its argument.

The text is cut before any of it is read as an expression. So brackets are only counted,
not matched: `(]` opens and closes like `()`, and a text that closes more than it opened
is cut nowhere after that. What comes of it is read as an expression and refused there,
with a message about that argument.
-/

set_option autoImplicit false

namespace Custody

/-- The arguments of a text, untrimmed: `depth` counts the brackets open so far, and
`piece` is the part of an argument already read. A comma separates only at depth zero,
and closing more brackets than were opened goes below it. -/
def argumentsFrom (depth : Int) (piece : List Char) : List Char → List (List Char)
  | [] => [piece]
  | c :: rest =>
    if c == '(' || c == '[' then argumentsFrom (depth + 1) (piece ++ [c]) rest
    else if c == ')' || c == ']' then argumentsFrom (depth - 1) (piece ++ [c]) rest
    else if c == ',' && depth == 0 then piece :: argumentsFrom depth [] rest
    else argumentsFrom depth (piece ++ [c]) rest

/-- The arguments of a list, each without the blanks around it. A blank text has
none. -/
def splitArguments (text : String) : List String :=
  match (argumentsFrom 0 [] text.toList).map Text.trimmed with
  | [[]] => []
  | pieces => pieces.map String.ofList

end Custody
