/-!
# Blanks

What counts as blank space around the texts a program is made of, and the two operations
that look at it: trimming and splitting into words. The class is the Unicode property
`White_Space`, so a no-break space or an ideographic space is blank while a zero-width
space is not.

The class of the standard library has four characters and would not do: attributes,
types and arguments come from files, and what stands around them there is not only
ASCII. The ranges are those of the standard, and are tried in turn; there are ten.

All is on lists of characters, with one function on strings for each. The proofs about
printing and reading are about lists, and pass to strings in one step at the end.
-/

set_option autoImplicit false

namespace Custody.Text

/-- The code points with the property `White_Space`, as inclusive ranges in increasing
order. -/
def blankRanges : List (Nat × Nat) :=
  [(0x0009, 0x000D), (0x0020, 0x0020), (0x0085, 0x0085), (0x00A0, 0x00A0), (0x1680, 0x1680),
   (0x2000, 0x200A), (0x2028, 0x2029), (0x202F, 0x202F), (0x205F, 0x205F), (0x3000, 0x3000)]

/-- Whether a character has the property `White_Space`. -/
def isBlank (c : Char) : Bool :=
  blankRanges.any fun range => range.1 ≤ c.toNat && c.toNat ≤ range.2

def dropBlanks (cs : List Char) : List Char := cs.dropWhile isBlank

def dropFinalBlanks (cs : List Char) : List Char := (cs.reverse.dropWhile isBlank).reverse

/-- A text without the blanks around it. -/
def trimmed (cs : List Char) : List Char := dropFinalBlanks (dropBlanks cs)

def trim (s : String) : String := String.ofList (trimmed s.toList)

/-- The maximal blank-free runs of a text, where `word` is the run already begun. It is
kept in reading order, so that a run is complete as it stands. -/
def wordsFrom (word : List Char) : List Char → List (List Char)
  | [] => if word.isEmpty then [] else [word]
  | c :: rest =>
    if isBlank c then
      if word.isEmpty then wordsFrom [] rest else word :: wordsFrom [] rest
    else wordsFrom (word ++ [c]) rest

def words (s : String) : List String := (wordsFrom [] s.toList).map String.ofList

end Custody.Text
