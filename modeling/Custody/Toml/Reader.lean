import Custody.Toml.Word

/-!
# Reading a settings file

`Toml.parse` reads comments, headers of tables, dotted and quoted keys, strings of all
four kinds, words, arrays and inline tables. Inside the brackets of arrays and inline
tables line breaks and comments count as blanks, except in a key. Headers of arrays of
tables are not read; no setting is in one.

A settings file is small and is written by hand, and all that is asked of the reader is
whether the text is a document and what it says. There are no positions in errors and no
errors to tell apart: what is no document gives `none`. As with the other readers, steps
are counted in advance where a function calls itself through another one.
-/

set_option autoImplicit false

namespace Custody.Toml

def skipGap (cs : List Char) : List Char := cs.dropWhile isGap

/-- Characters that must not stand in strings and comments as they are. -/
def isControl (c : Char) : Bool := (c < ' ' && c != '\t') || c == '\x7f'

def readBreak : List Char → Option (List Char)
  | '\n' :: rest => some rest
  | '\r' :: '\n' :: rest => some rest
  | _ => none

/-- The text after a comment, if it starts with one. A comment ends at a control
character, which is its line break or a mistake. -/
def skipComment : List Char → List Char
  | '#' :: rest => rest.dropWhile fun c => !isControl c
  | rest => rest

/-- The text after the rest of a line that says nothing. -/
def readLineEnd (cs : List Char) : Option (List Char) :=
  match skipComment (skipGap cs) with
  | [] => some []
  | rest => readBreak rest

/-- The text after blanks, comments and line breaks. -/
def skipLines : Nat → List Char → List Char
  | 0, cs => cs
  | steps + 1, cs =>
    let rest := skipComment (skipGap cs)
    match readBreak rest with
    | some rest => skipLines steps rest
    | none => rest

/-! ## Strings -/

def scalar? (digits : List Char) : Option Char := do
  let values ← digits.mapM hexValue?
  let n := values.foldl (fun n d => 16 * n + d) 0
  if n.isValidChar then some (Char.ofNat n) else none

def escape? : Char → Option Char
  | 'b' => some '\x08'
  | 't' => some '\t'
  | 'n' => some '\n'
  | 'f' => some '\x0c'
  | 'r' => some '\r'
  | 'e' => some '\x1b'
  | '"' => some '"'
  | '\\' => some '\\'
  | _ => none

/-- The character that an escape after its backslash stands for, and the rest. -/
def readEscape : List Char → Option (Char × List Char)
  | 'x' :: rest => (scalar? (rest.take 2)).bind fun c => numbered 2 c rest
  | 'u' :: rest => (scalar? (rest.take 4)).bind fun c => numbered 4 c rest
  | 'U' :: rest => (scalar? (rest.take 8)).bind fun c => numbered 8 c rest
  | c :: rest => (escape? c).map (·, rest)
  | [] => none
where
  /-- The character, if there are as many digits as it needs. -/
  numbered (width : Nat) (c : Char) (cs : List Char) : Option (Char × List Char) :=
    if cs.length < width then none else some (c, cs.drop width)

/-- Reads a string with escapes after its opening quote; `seen` is what it holds so far,
last first. -/
def readBasic : Nat → List Char → List Char → Option (String × List Char)
  | 0, _, _ => none
  | _ + 1, _, [] => none
  | _ + 1, seen, '"' :: rest => some (String.ofList seen.reverse, rest)
  | steps + 1, seen, '\\' :: rest =>
    match readEscape rest with
    | some (c, rest) => readBasic steps (c :: seen) rest
    | none => none
  | steps + 1, seen, c :: rest =>
    if isControl c then none else readBasic steps (c :: seen) rest

/-- Reads a string without escapes after its opening quote. -/
def readLiteral (cs : List Char) : Option (String × List Char) :=
  let text := cs.takeWhile fun c => c != '\'' && !isControl c
  match cs.drop text.length with
  | '\'' :: rest => some (String.ofList text, rest)
  | _ => none

def dropBreak (cs : List Char) : List Char := (readBreak cs).getD cs

/-- Whether a string over several lines ends, at its quotes: how many of them still
belong to it. -/
def closing (quote : Char) (cs : List Char) : Option Nat :=
  let quotes := (cs.takeWhile (· == quote)).length
  if quotes < 3 then none else if quotes ≤ 5 then some (quotes - 3) else some 2

/-- The text after blanks and line breaks. -/
def skipBlankLines : Nat → List Char → List Char
  | 0, cs => cs
  | steps + 1, cs =>
    match readBreak (skipGap cs) with
    | some rest => skipBlankLines steps rest
    | none => skipGap cs

/-- Whether a character may stand as it is in a string over several lines. A carriage
return may only as part of a line break. -/
def isLongChar (c : Char) (rest : List Char) : Bool :=
  !isControl c || c == '\n' || (c == '\r' && rest.head? == some '\n')

/-- Reads a string over several lines after its opening quotes. Line breaks are kept as
they are written. With `escapes`, a backslash at the end of a line joins it to the next
text. -/
def readLong (quote : Char) (escapes : Bool) :
    Nat → List Char → List Char → Option (String × List Char)
  | 0, _, _ => none
  | _ + 1, _, [] => none
  | steps + 1, seen, c :: rest =>
    match closing quote (c :: rest) with
    | some extra =>
      some (String.ofList (seen.reverse ++ List.replicate extra quote),
        (c :: rest).drop (extra + 3))
    | none =>
      if c == '\\' && escapes then
        match readBreak (skipGap rest) with
        | some after => readLong quote escapes steps seen (skipBlankLines after.length after)
        | none =>
          match readEscape rest with
          | some (c, rest) => readLong quote escapes steps (c :: seen) rest
          | none => none
      else if isLongChar c rest then readLong quote escapes steps (c :: seen) rest
      else none

/-! ## Keys -/

def isBare (c : Char) : Bool := c.isAlphanum || c == '_' || c == '-'

def readName (cs : List Char) : Option (String × List Char) :=
  match cs with
  | '"' :: rest => readBasic (rest.length + 1) [] rest
  | '\'' :: rest => readLiteral rest
  | _ =>
    let name := cs.takeWhile isBare
    if name.isEmpty then none else some (String.ofList name, cs.drop name.length)

/-- How many parts a key may have, and how deeply brackets may be nested. A text that
goes beyond either is no document. -/
def maxNesting : Nat := 80

/-- Reads a key of at most some parts, with dots between them and blanks around. -/
def readParts : Nat → List Char → Option (List String × List Char)
  | 0, _ => none
  | limit + 1, cs => do
    let (name, rest) ← readName (skipGap cs)
    match skipGap rest with
    | '.' :: rest =>
      let (names, rest) ← readParts limit rest
      return (name :: names, rest)
    | rest => return ([name], rest)

def readKey (cs : List Char) : Option (List String × List Char) := readParts maxNesting cs

/-! ## Values -/

mutual

def readValue : Nat → List Char → Option (Toml × List Char)
  | 0, _ => none
  | steps + 1, cs =>
    match cs with
    | '"' :: '"' :: '"' :: rest =>
      (readLong '"' true (rest.length + 1) [] (dropBreak rest)).map fun (s, rest) =>
        (string s, rest)
    | '\'' :: '\'' :: '\'' :: rest =>
      (readLong '\'' false (rest.length + 1) [] (dropBreak rest)).map fun (s, rest) =>
        (string s, rest)
    | '"' :: rest => (readBasic (rest.length + 1) [] rest).map fun (s, rest) => (string s, rest)
    | '\'' :: rest => (readLiteral rest).map fun (s, rest) => (string s, rest)
    | '[' :: rest => readItems steps [] rest
    | '{' :: rest => readMembers steps [] rest
    | _ =>
      let word := leadingWord cs
      (ofWord? word).map (·, cs.drop word.length)

/-- Reads the items of an array, from one on or its end; `items` holds those before,
last first. -/
def readItems : Nat → List Toml → List Char → Option (Toml × List Char)
  | 0, _, _ => none
  | steps + 1, items, cs =>
    match skipLines (cs.length + 1) cs with
    | ']' :: rest => some (array items.reverse, rest)
    | rest =>
      match readValue steps rest with
      | none => none
      | some (item, rest) =>
        match skipLines (rest.length + 1) rest with
        | ',' :: rest => readItems steps (item :: items) rest
        | ']' :: rest => some (array (item :: items).reverse, rest)
        | _ => none

/-- Reads the members of an inline table, from one on or its end. -/
def readMembers : Nat → Members → List Char → Option (Toml × List Char)
  | 0, _, _ => none
  | steps + 1, members, cs =>
    match skipLines (cs.length + 1) cs with
    | '}' :: rest => some (table .inline members, rest)
    | rest =>
      match readKey rest with
      | none => none
      | some (key, rest) =>
        match skipLines (rest.length + 1) rest with
        | '=' :: rest =>
          match readValue steps (skipLines (rest.length + 1) rest) with
          | none => none
          | some (value, rest) =>
            match members.put true key value with
            | none => none
            | some members =>
              match skipLines (rest.length + 1) rest with
              | ',' :: rest => readMembers steps members rest
              | '}' :: rest => some (table .inline members, rest)
              | _ => none
        | _ => none

end

/-! ## Documents -/

/-- Reads the lines of a document. `under` is the table that the last header opened, to
which all keys belong until the next one. -/
def readLines : Nat → List String → Members → List Char → Option Members
  | 0, _, _, _ => none
  | _ + 1, _, members, [] => some members
  | steps + 1, under, members, cs =>
    match readLineEnd cs with
    | some rest => readLines steps under members rest
    | none =>
      match skipGap cs with
      | '[' :: rest => do
        let (key, rest) ← readKey rest
        match rest with
        | ']' :: rest => readLines steps key (← members.openTable key) (← readLineEnd rest)
        | _ => none
      | rest => do
        let (key, rest) ← readKey rest
        match rest with
        | '=' :: rest =>
          let (value, rest) ← readValue (2 * rest.length + 2) (skipGap rest)
          if maxNesting < value.nesting then failure
          readLines steps under (← members.putUnder under key value) (← readLineEnd rest)
        | _ => none

def parse (text : String) : Option Members :=
  let cs := match text.toList with
    | '\ufeff' :: rest => rest
    | cs => cs
  readLines (cs.length + 1) [] [] cs

end Custody.Toml
