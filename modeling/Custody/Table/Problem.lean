import Custody.Attribute.Basic
import Custody.CType
import Custody.Capability.Registry
import Custody.Contract.Basic
import Custody.Expr.Printer
import Custody.Ref.Operand
import Custody.Text.Blank
import Custody.Text.Quote

/-!
# Problems with declarations

Why a reference has no type, why an argument of an attribute names no capability, and
what is wrong with a declaration. Each is a type of causes with one wording.

An argument that speaks of a name or field that does not exist stops everything
(`isFatal`); any other problem is reported and the clause left out. The line is drawn
between mistakes in an annotation, which concern one function, and names that are not
there at all, after which nothing that is said about the program can be relied on.

The types follow the steps in which an argument is resolved: a path, then the type of
what it names, then the capability of that type. Each carries the error of the step
before it, so that a message can be read off without knowing how far it got.
-/

set_option autoImplicit false

namespace Custody

open Text (quoted)

/-- Why a reference has no type. -/
inductive TypeError where
  | unknownField (type : CType) (field : String)
  | notAStruct (ref : Ref)
  | notAPointer (ref : Ref)
  | unresolved (ref : Ref)
deriving DecidableEq, Repr

def TypeError.message : TypeError → String
  | unknownField type field => quoted type.render ++ " has no member " ++ quoted field
  | notAStruct ref => quoted ref.render ++ " is not a struct object"
  | notAPointer ref => quoted ref.render ++ " is not a pointer"
  | unresolved ref => "type of " ++ quoted ref.render ++ " is unknown"

/-- Why an argument of an attribute names no capability. -/
inductive ClauseError where
  | badPath (error : PathError)
  | untyped (error : TypeError)
  /-- Neither a capability nor a pointer to one. -/
  | indirect (expr : Expr) (type : CType)
  | notCapability (expr : Expr) (type : CType)
deriving DecidableEq, Repr

namespace ClauseError

/-- Whether the argument speaks of something that does not exist. All other errors
concern the one attribute, and the rest of the program is looked at. -/
def isFatal : ClauseError → Bool
  | badPath (.unknownName _) => true
  | untyped (.unknownField _ _) => true
  | _ => false

def message : ClauseError → String
  | badPath error => error.message
  | untyped error => error.message
  | indirect expr type => quoted expr.render ++ " has type " ++ quoted type.render
      ++ ", expected a capability or a pointer to one"
  | notCapability expr type => quoted expr.render ++ " has type " ++ quoted type.render
      ++ ", which is not a declared capability type"

end ClauseError

/-- The kinds of problems with declarations. -/
inductive ProblemKind where
  | contradiction
  | contractMismatch
  | unknownCapabilityType
  | typeCollision
  | invalidAttribute
  | misplaced
deriving DecidableEq, Repr, Inhabited

def ProblemKind.name : ProblemKind → String
  | contradiction => "contradiction"
  | contractMismatch => "contract_mismatch"
  | unknownCapabilityType => "unknown_capability_type"
  | typeCollision => "type_collision"
  | invalidAttribute => "invalid_annotation"
  | misplaced => "misplaced"

/-- What is wrong with a declaration. -/
inductive Problem where
  /-- A capability type is declared with both kinds. -/
  | collision (name : String) (declared existing : CapKind)
  /-- A token of something that is no token capability. -/
  | notToken (capability : String)
  /-- An attribute for functions on a member or global. -/
  | functionOnly (written : String)
  /-- An attribute for members and globals on a function. -/
  | memberOnly (written : String)
  /-- An attribute whose arguments do not fit it. -/
  | unreadable (error : Attribute.Error)
  /-- An argument that names no capability. -/
  | unresolved (written : String) (error : ClauseError)
  /-- A guard for what a member points to, on a member that is no pointer. -/
  | notPointer (written : String) (type : CType)
  /-- Clauses of a contract that contradict each other. -/
  | contradiction (clauses : Contradiction)
  /-- Declarations of a function that do not agree. -/
  | mismatch (function : String)
deriving DecidableEq, Repr

namespace Problem

def kind : Problem → ProblemKind
  | collision .. => .typeCollision
  | notToken _ => .unknownCapabilityType
  | functionOnly _ | memberOnly _ => .misplaced
  | unreadable _ | notPointer .. => .invalidAttribute
  | unresolved _ (.notCapability ..) => .unknownCapabilityType
  | unresolved _ _ => .invalidAttribute
  | contradiction _ => .contradiction
  | mismatch _ => .contractMismatch

def message : Problem → String
  | collision name declared existing => "capability " ++ quoted name ++ " declared as "
      ++ declared.name ++ " capability, previously as " ++ existing.name
  | notToken capability => quoted capability ++ " is not a declared token capability"
  | functionOnly written => quoted (Text.trim written) ++ " only applies to functions"
  | memberOnly written =>
    quoted (Text.trim written) ++ " only applies to struct members and globals"
  | unreadable error => error.message
  | unresolved written error => quoted (Text.trim written) ++ ": " ++ error.message
  | notPointer written type => quoted (Text.trim written) ++ " on member of non-pointer type "
      ++ quoted type.render
  | contradiction clauses => clauses.message
  | mismatch function =>
    "declarations of " ++ quoted function ++ " carry different capability contracts"

end Problem

/-- A problem with a declaration, and where it is. A unit that has one is not
analyzed. -/
structure DeclarationError where
  unit : String
  /-- The function, member or global. -/
  item : String
  problem : Problem
deriving DecidableEq, Repr

end Custody
