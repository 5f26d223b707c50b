import Custody.Table.Contracts
import Custody.Table.Guards

/-!
# The table of a program

All that a program declares, collected once from all its units before any body is looked
at: names and types, guards, contracts, and what is wrong with the declarations. A unit
with a faulty declaration is not analyzed.

The three parts are collected one after the other over all units, and not unit by unit,
because each needs all of the ones before it: a guard or a contract may speak of a
structure of a later unit. What is collected does depend on the order of the units in
some corners, where two of them declare one name differently; outside of these corners
it does not, up to the numbers of capability types (`Proofs/UnitOrder`).
-/

set_option autoImplicit false

namespace Custody

/-- What a program declares. It is built once and then only read: units are analyzed
with the same table, in any order. -/
structure Table where
  decls : Declarations
  guards : Guards
  contracts : Contracts
  /-- What is wrong with the declarations, in the order of discovery. -/
  errors : List DeclarationError
deriving DecidableEq, Inhabited

namespace Table

/-- The functions of a program, each with the name of its unit. -/
def functionsOf (program : Program) : List (String × FunctionDecl) :=
  program.units.flatMap fun unit => unit.functions.map (unit.name, ·)

def build (program : Program) : Except Malformed Table := do
  let (decls, declErrors) := Declarations.ofProgram program
  let (guards, guardErrors) ← Guards.ofUnits decls [] program.units
  let (contracts, contractErrors) ← Contracts.addDecls decls .empty (functionsOf program)
  return ⟨decls, guards, contracts, declErrors ++ guardErrors ++ contractErrors⟩

def contractFor (table : Table) (unit function : String) : Contract :=
  table.contracts.find unit function

def guard? (table : Table) (member : Member) (pointee : Bool) : Option Guard :=
  table.guards.find? member pointee

/-- Whether the declarations of a unit are free of problems. Problems of other units do
not count, although their declarations are seen in this one. -/
def isClean (table : Table) (unit : String) : Bool := !table.errors.any (·.unit = unit)

end Table

end Custody
