/-!
# Tables of a settings file

A settings file is a table of values by name. Values are put into it one after the
other: by a dotted key, which may make tables on its way, and under a header, which
opens a table. A table is never defined twice: how it came about says what may still be
added to it.

So a table carries its `Origin`. One that a header named takes the keys under that
header, and no other header may name it; one that a longer header passed through may
still be named once; one that dotted keys made grows by further dotted keys and is never
named by a header; and one that was written as a value does not grow at all. `put` and
`openTable` are the two halves of the rule.
-/

set_option autoImplicit false

namespace Custody

/-- How a table came about. -/
inductive Toml.Origin where
  /-- A header named it. -/
  | header
  /-- A header named a table in it. -/
  | implied
  /-- A dotted key passed through it. -/
  | dotted
  /-- It was written as a value. -/
  | inline
deriving DecidableEq, Repr, Inhabited

/-- A value of a settings file. -/
inductive Toml where
  | bool (value : Bool)
  | int (value : Int)
  | string (text : String)
  /-- A value that no setting has: a number that is no integer or has no value, a date
  or a time. -/
  | other
  | array (items : List Toml)
  | table (origin : Toml.Origin) (members : List (String × Toml))
deriving Repr, Inhabited

namespace Toml

mutual

/-- How deeply arrays and inline tables are nested in a value. Tables that headers or
dotted keys made do not count, since no brackets stand around them. -/
def nesting : Toml → Nat
  | array items => nestingOfItems items + 1
  | table .inline members => nestingOfMembers members + 1
  | table _ members => nestingOfMembers members
  | _ => 0

def nestingOfItems : List Toml → Nat
  | [] => 0
  | item :: rest => max (nesting item) (nestingOfItems rest)

def nestingOfMembers : List (String × Toml) → Nat
  | [] => 0
  | (_, value) :: rest => max (nesting value) (nestingOfMembers rest)

end

abbrev Members := List (String × Toml)

def Members.replace (members : Members) (name : String) (value : Toml) : Members :=
  members.map fun (n, v) => if n = name then (n, value) else (n, v)

/-- The members with a value at a dotted key. `plain` tells whether a value may be put
among these members without passing through a further table. -/
def Members.put (members : Members) (plain : Bool) : List String → Toml → Option Members
  | [], _ => none
  | [name], value =>
    if plain && (members.lookup name).isNone then some (members ++ [(name, value)]) else none
  | name :: rest, value =>
    match members.lookup name with
    | none => (put [] true rest value).map fun inner => members ++ [(name, table .dotted inner)]
    | some (table .dotted inner) =>
      (put inner true rest value).map fun inner => replace members name (table .dotted inner)
    | some (table .implied inner) =>
      (put inner false rest value).map fun inner => replace members name (table .implied inner)
    | some _ => none

/-- The members with a table opened by a header. On its way a header passes through
tables of every origin but one, inline tables, and makes those that are missing. -/
def Members.openTable (members : Members) : List String → Option Members
  | [] => none
  | [name] =>
    match members.lookup name with
    | none => some (members ++ [(name, table .header [])])
    | some (table .implied inner) => some (replace members name (table .header inner))
    | some _ => none
  | name :: rest =>
    match members.lookup name with
    | none => (openTable [] rest).map fun inner => members ++ [(name, table .implied inner)]
    | some (table .inline _) => none
    | some (table origin inner) =>
      (openTable inner rest).map fun inner => replace members name (table origin inner)
    | some _ => none

/-- The members with a value at a dotted key, under the table that a header opened. The
header has made the tables on the way, so that here nothing is missing. -/
def Members.putUnder (members : Members) : List String → List String → Toml → Option Members
  | [], key, value => put members true key value
  | name :: rest, key, value =>
    match members.lookup name with
    | some (table origin inner) =>
      (putUnder inner rest key value).map fun inner => replace members name (table origin inner)
    | _ => none

end Toml

end Custody
