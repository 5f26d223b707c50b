import Custody.Capability.Instance
import Custody.Capability.Mode
import Custody.Text.Quote

/-!
# Contracts

A contract is what a function's attributes say about capabilities. Its clauses name
capabilities by templates: references that start from a parameter by position, or from a
global object.

Two declarations of a function agree when they state the same obligations
(`sameObligations`), in whatever order or spelling. `Contract.merge?` is the contract of
both if they agree, or if one of them states none. A declaration without obligations is
one that forgot them, or was written before there were any, and takes over those of the
other; it is never taken to say that there are none.

A contradiction is a pair of clauses that no caller can meet together. Only pairs are
looked at, and of those only the ones where a capability is required on one side, or is
required or acquired in two modes. There are contracts without a contradiction that no
caller can meet either, for instance one that releases what it excludes. Which contracts
can be called at all is in `Proofs/Contract/Callable`.
-/

set_option autoImplicit false

namespace Custody

/-- A capability named by an attribute of a function. The text is kept for messages and
does not count when contracts are compared (`Obligation`). -/
structure Clause where
  template : Ref
  type : CapId
  mode : Mode
  /-- The attribute as written. -/
  text : String
deriving DecidableEq, Repr, Inhabited

/-- A try-acquire named by an attribute. -/
structure AttemptClause where
  clause : Clause
  /-- The truth of the result on which the capability is held. -/
  success : Bool
deriving DecidableEq, Repr, Inhabited

/-- What a function's attributes say about capabilities. Clauses of a kind are in the
order of the attributes, which is the order in which they are checked and take
effect. -/
structure Contract where
  requires : List Clause := []
  excludes : List Clause := []
  acquires : List Clause := []
  releases : List Clause := []
  tryAcquires : List AttemptClause := []
  asserts : List Clause := []
  /-- The capability whose address the function returns. -/
  returns : Option Clause := none
  /-- The body is not to be analyzed. -/
  noAnalysis : Bool := false
deriving DecidableEq, Repr, Inhabited

/-! ## Obligations -/

/-- What a clause asks for. -/
inductive Role where
  | required
  | excluded
  | acquired
  | released
  | tryAcquired (success : Bool)
  | asserted
  | returned
deriving DecidableEq, Repr, Inhabited

/-- A clause without its spelling. Contracts are compared by these, so that two
declarations may use different attributes of one meaning. -/
structure Obligation where
  role : Role
  template : Ref
  type : CapId
  mode : Mode
deriving DecidableEq, Repr, Inhabited

def Clause.obligation (role : Role) (clause : Clause) : Obligation :=
  ⟨role, clause.template, clause.type, clause.mode⟩

namespace Contract

def obligations (contract : Contract) : List Obligation :=
  contract.requires.map (·.obligation .required)
    ++ contract.excludes.map (·.obligation .excluded)
    ++ contract.acquires.map (·.obligation .acquired)
    ++ contract.releases.map (·.obligation .released)
    ++ contract.tryAcquires.map (fun attempt =>
      attempt.clause.obligation (.tryAcquired attempt.success))
    ++ contract.asserts.map (·.obligation .asserted)
    ++ contract.returns.toList.map (·.obligation .returned)

def hasObligations (contract : Contract) : Bool := !contract.obligations.isEmpty

/-- Whether two contracts have the same set of obligations. To state one twice is to
state it once, and the order does not matter. -/
def sameObligations (a b : Contract) : Bool :=
  a.obligations.all (b.obligations.contains ·) && b.obligations.all (a.obligations.contains ·)

/-- The contract of two declarations of one function, unless they state different
obligations. The first keeps its spellings, and a body that one of them exempts from
analysis is exempt. -/
def merge? (a b : Contract) : Option Contract :=
  let noAnalysis := a.noAnalysis || b.noAnalysis
  if !b.hasObligations then some { a with noAnalysis }
  else if !a.hasObligations then some { b with noAnalysis }
  else if a.sameObligations b then some { a with noAnalysis }
  else none

end Contract

/-! ## Contradictions -/

/-- Two clauses of a contract that no caller can meet together. They are found where the
contract is declared, before there is any call. -/
inductive Contradiction where
  | requiredAcquired (required acquired : Clause)
  | requiredExcluded (required excluded : Clause)
  /-- Required in both modes. -/
  | requiredModes (a b : Clause)
  /-- Acquired in both modes. -/
  | acquiredModes (a b : Clause)
deriving DecidableEq, Repr

namespace Contradiction

/-- The wording of a contradiction. -/
def message : Contradiction → String
  | requiredAcquired a b =>
    pair a b ++ " both name the same capability (required and acquired)"
  | requiredExcluded a b =>
    pair a b ++ " both name the same capability (required and excluded)"
  | requiredModes a b => pair a b ++ " name the same capability required as both " ++ modes a b
  | acquiredModes a b => pair a b ++ " name the same capability acquired as both " ++ modes a b
where
  pair (a b : Clause) : String := Text.quoted a.text ++ " and " ++ Text.quoted b.text
  modes (a b : Clause) : String := a.mode.name ++ " and " ++ b.mode.name

end Contradiction

namespace Contract

/-- The pairs of clauses, an earlier and a later one, that name a capability in
different modes. Clauses that say the same twice are no conflict. -/
def modeConflicts : List Clause → List (Clause × Clause)
  | [] => []
  | clause :: rest =>
    (rest.filter fun other => clause.template = other.template && clause.mode ≠ other.mode).map
      (clause, ·) ++ modeConflicts rest

/-- What contradicts a required capability: first acquisitions of it, then
exclusions. -/
def conflictsWith (contract : Contract) (required : Clause) : List Contradiction :=
  ((contract.acquires.filter (·.template = required.template)).map (.requiredAcquired required))
    ++ ((contract.excludes.filter (·.template = required.template)).map
      (.requiredExcluded required))

/-- The clauses of a contract that contradict each other. Templates are compared, and
not types: one path has one type. -/
def contradictions (contract : Contract) : List Contradiction :=
  contract.requires.flatMap contract.conflictsWith
    ++ (modeConflicts contract.requires).map (fun (a, b) => .requiredModes a b)
    ++ (modeConflicts contract.acquires).map (fun (a, b) => .acquiredModes a b)

end Contract

end Custody
