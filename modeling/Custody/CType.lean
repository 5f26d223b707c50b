import Custody.Text.Blank

/-!
# Declared types

Of a declared type only two things matter: the name of its base type, without
qualifiers, and how many pointer levels stand over it.

The checker asks a type one question, whether its objects or what they point to are
capabilities, and the answer goes by the name. So a declaration is not parsed: its stars
are counted wherever they stand, and its other words are the name. An array or a
function pointer gets an odd name by this, and is a capability only if a type of that
very name is declared.

Pointer levels are counted in a byte, which wraps when a declaration is read and stops
at its end when an address is taken. No program has so many, but the count is what the
reader does, and it is kept here.
-/

set_option autoImplicit false

namespace Custody

/-- A base type under some pointer levels. -/
structure CType where
  base : String
  pointers : Nat
deriving DecidableEq, Repr, Inhabited

namespace CType

/-- Words of a declaration that are not part of the type's name. They are dropped
wherever they stand. -/
def qualifiers : List String :=
  ["const", "volatile", "restrict", "struct", "union", "enum", "__rcu", "__percpu", "__iomem"]

/-- Pointer levels are counted in a byte. Every function that makes a level keeps below
this, each in its own way. -/
def levels : Nat := 256

/-- The type that a declaration spells: its stars, counted modulo `levels`, over its
other words. -/
def parse (text : String) : CType :=
  let words := Text.words (text.map fun c => if c = '*' then ' ' else c)
  { base := " ".intercalate (words.filter (· ∉ qualifiers))
    pointers := text.toList.count '*' % levels }

def object (base : String) : CType := ⟨base, 0⟩

def pointee? (type : CType) : Option CType :=
  if type.pointers = 0 then none else some { type with pointers := type.pointers - 1 }

/-- The type of an object's address, of at most `levels - 1` pointer levels. -/
def addressOf (type : CType) : CType :=
  { type with pointers := min (type.pointers + 1) (levels - 1) }

/-- The text of a type: its base, and its stars after a blank. -/
def render (type : CType) : String :=
  if type.pointers = 0 then type.base
  else type.base ++ " " ++ "".pushn '*' type.pointers

end CType

end Custody
