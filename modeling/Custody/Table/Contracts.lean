import Custody.Malformed
import Custody.Table.Scope

/-!
# Declared contracts

The contract of a function is read from the attributes of its declarations. A static
function is known in its own unit only, and hides there a function of the same name that
is known to all units; declarations of one function in one of these places are merged.

A declaration that does not agree with the earlier ones is reported, and what was
collected before it stays. So the first declaration with obligations decides, and the
report names the later ones: `Proofs/Table/Merging` says which of a list of declarations
that is, and what is stored then.

Attributes are added one at a time, and each may add clauses, add problems, or end
everything with an error. The three outcomes are kept apart by type: clauses and
problems are collected, an error is thrown. Contradictions are looked for once the
contract is complete, since any two attributes may make one.
-/

set_option autoImplicit false

namespace Custody

namespace Contract

/-- The contract with the clauses of one more annotation, whose arguments name `found`.
The last annotation of a returned capability counts, even if its argument names none. -/
def extend (contract : Contract) (written : String) (found : List (Ref × CapId)) :
    Annotation → Contract
  | .requires mode _ => { contract with requires := contract.requires ++ clauses mode }
  | .excludes _ => { contract with excludes := contract.excludes ++ clauses .exclusive }
  | .acquires mode _ => { contract with acquires := contract.acquires ++ clauses mode }
  | .releases mode _ => { contract with releases := contract.releases ++ clauses mode }
  | .tryAcquires mode success _ =>
    { contract with
      tryAcquires := contract.tryAcquires ++ (clauses mode).map (⟨·, success⟩) }
  | .asserts mode _ => { contract with asserts := contract.asserts ++ clauses mode }
  | .returns _ => { contract with returns := (clauses .exclusive).head? }
  | .noAnalysis => { contract with noAnalysis := true }
  | .guardedBy _ | .pointeeGuardedBy _ => contract
where
  clauses (mode : Mode) : List Clause :=
    found.map fun (template, type) => ⟨template, type, mode, Text.trim written⟩

/-- The contract with one more attribute, and what is wrong with the attribute. An
attribute that does not speak about capabilities is passed over. -/
def addAttribute (decls : Declarations) (scope : Scope) (contract : Contract) (written : String) :
    Except ClauseError (Contract × List Problem) :=
  match Annotation.parse written with
  | .error error => .ok (contract, [.unreadable error])
  | .ok none => .ok (contract, [])
  | .ok (some annotation) =>
    if annotation.isOnFunction then do
      let (found, problems) ← decls.resolveAll scope written annotation.args
      return (contract.extend written found annotation, problems)
    else .ok (contract, [.memberOnly written])

def addAttributes (decls : Declarations) (unit item : String) (scope : Scope) :
    Contract → List String → Except Malformed (Contract × List Problem)
  | contract, [] => .ok (contract, [])
  | contract, written :: rest => do
    let (contract, problems) ← (addAttribute decls scope contract written).mapError
      (.unresolved unit item written ·)
    let (contract, more) ← addAttributes decls unit item scope contract rest
    return (contract, problems ++ more)

/-- The contract of one declaration, and what is wrong with it: first its attributes one
by one, then clauses that contradict each other. -/
def ofDecl (decls : Declarations) (unit : String) (decl : FunctionDecl) :
    Except Malformed (Contract × List Problem) := do
  let (contract, problems) ←
    addAttributes decls unit decl.name (.function decl) {} decl.attributes
  return (contract, problems ++ contract.contradictions.map .contradiction)

end Contract

/-- The contracts of functions: those known to all units, and those known to one. A
static function of a unit and a function of the same name elsewhere are two
functions. -/
structure Contracts where
  shared : FinMap String Contract
  statics : FinMap String (FinMap String Contract)
deriving DecidableEq, Inhabited

namespace Contracts

def empty : Contracts := ⟨∅, ∅⟩

def ofUnit (contracts : Contracts) (unit : String) : FinMap String Contract :=
  (contracts.statics.get? unit).getD ∅

/-- The contract of a function as seen from a unit: its own static function first. A
function that is not declared has the empty contract. -/
def find (contracts : Contracts) (unit function : String) : Contract :=
  (((contracts.ofUnit unit).get? function).or (contracts.shared.get? function)).getD {}

/-- The contracts of functions by name with one more declaration; nothing if it does not
agree with the earlier ones. Both places where contracts are stored are filled with
this. -/
def insertIn? (known : FinMap String Contract) (name : String) (contract : Contract) :
    Option (FinMap String Contract) :=
  match known.get? name with
  | none => some (known.insert name contract)
  | some existing => (existing.merge? contract).map (known.insert name ·)

def insert? (contracts : Contracts) (unit : String) (decl : FunctionDecl) (contract : Contract) :
    Option Contracts :=
  if decl.isStatic then
    (insertIn? (contracts.ofUnit unit) decl.name contract).map fun own =>
      { contracts with statics := contracts.statics.insert unit own }
  else
    (insertIn? contracts.shared decl.name contract).map fun shared => { contracts with shared }

/-- The contracts with one more declaration, and what is wrong with it. One that does
not agree with the earlier ones is dropped. -/
def addDecl (decls : Declarations) (unit : String) (contracts : Contracts) (decl : FunctionDecl) :
    Except Malformed (Contracts × List DeclarationError) := do
  let (contract, problems) ← Contract.ofDecl decls unit decl
  let errors := problems.map (⟨unit, decl.name, ·⟩)
  match contracts.insert? unit decl contract with
  | some contracts => return (contracts, errors)
  | none => return (contracts, errors ++ [⟨unit, decl.name, .mismatch decl.name⟩])

def addDecls (decls : Declarations) :
    Contracts → List (String × FunctionDecl) → Except Malformed (Contracts × List DeclarationError)
  | contracts, [] => .ok (contracts, [])
  | contracts, (unit, decl) :: rest => do
    let (contracts, errors) ← addDecl decls unit contracts decl
    let (contracts, more) ← addDecls decls contracts rest
    return (contracts, errors ++ more)

end Contracts

end Custody
