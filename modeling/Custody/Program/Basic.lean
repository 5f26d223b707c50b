/-!
# Programs

What the checker is given: source units with the declarations of each, and for every
function that is defined a graph of blocks. Types, attributes, access paths and
arguments are kept as written; the modules that use them read them.

Keeping texts as texts means that a program can be given, and shown, whatever is in it.
A path that is no expression is a fact about the program and not an error of the input,
and how it is treated is said where it is used: an access through it is not checked, a
clause about it is reported.

A body is a list of blocks that are known by their position. Jumps are numbers, and
nothing in the type says that there is a block of that number; the analysis looks first
(`Body.badJump?`), and what follows is stated of bodies that passed (`Body.WellFormed`
in `Proofs/Analysis/Fixpoint`).
-/

set_option autoImplicit false

namespace Custody

/-- A capability type; with `isToken` it has named objects instead of being part of
others. -/
structure CapTypeDecl where
  name : String
  isToken : Bool
deriving DecidableEq, Repr, Inhabited

/-- A named object of a token capability. -/
structure TokenDecl where
  name : String
  capability : String
deriving DecidableEq, Repr, Inhabited

/-- A structure field or a global variable: its type and its attributes as written. Both
are read when the table is built, the type leniently and the attributes strictly. -/
structure MemberDecl where
  name : String
  type : String
  attributes : List String
deriving DecidableEq, Repr, Inhabited

structure StructDecl where
  name : String
  fields : List MemberDecl
deriving DecidableEq, Repr, Inhabited

structure VarDecl where
  name : String
  type : String
deriving DecidableEq, Repr, Inhabited

/-- What a statement does, other than standing around further statements. -/
inductive Action where
  /-- Nothing that concerns capabilities. -/
  | plain (text : String)
  /-- A call; `dest` receives the result. -/
  | call (callee : String) (args : List String) (dest : Option String)
  | read (path : String)
  | write (path : String)
  | assign (dest value : String)
  /-- Checks are off from here on. -/
  | suppressBegin
  /-- Checks are on again. -/
  | suppressEnd
deriving DecidableEq, Repr, Inhabited

/-- A statement, with its source line where that is known. Statements nest only where
some are exempt; all other structure of the source is in the blocks. -/
inductive Stmt where
  | simple (line : Option Nat) (action : Action)
  /-- Statements that are exempt from checks. -/
  | exempt (line : Option Nat) (body : List Stmt)
deriving Repr, Inhabited

def Stmt.line : Stmt → Option Nat
  | simple line _ => line
  | exempt line _ => line

/-- What decides a branch. Only tests of a variable are followed, since only variables
have a truth that is kept. -/
inductive Condition where
  /-- The variable is true. -/
  | holds (name : String)
  /-- The variable is false. -/
  | fails (name : String)
  /-- Something that is not followed. -/
  | unknown
deriving DecidableEq, Repr, Inhabited

/-- How a block ends. -/
inductive Terminator where
  /-- The function returns, with a value where one is given. -/
  | leave (value : Option String)
  | goto (target : Nat)
  | branch (cond : Condition) (yes no : Nat)
  /-- Control never gets here. -/
  | unreachable
deriving DecidableEq, Repr, Inhabited

def Terminator.successors : Terminator → List Nat
  | leave _ => []
  | goto target => [target]
  | branch _ yes no => [yes, no]
  | unreachable => []

/-- Statements in order, and where control goes after them. -/
structure Block where
  stmts : List Stmt
  term : Terminator
deriving Repr, Inhabited

/-- A function body. Blocks are known by their position. -/
structure Body where
  entry : Nat
  blocks : List Block
deriving Repr, Inhabited

/-- A function, defined where it has a body and only declared where it has none. Both
may carry attributes, and several declarations of a function have one contract
together. -/
structure FunctionDecl where
  name : String
  isInline : Bool
  /-- Seen in its own unit only. -/
  isStatic : Bool
  params : List VarDecl
  attributes : List String
  locals : List VarDecl
  body : Option Body
deriving Repr, Inhabited

/-- The position of the first parameter of a name. -/
def FunctionDecl.paramIndex? (decl : FunctionDecl) (name : String) : Option Nat :=
  decl.params.findIdx? (·.name == name)

structure SourceUnit where
  name : String
  /-- Whether the unit asked to be checked. -/
  optedIn : Bool
  capTypes : List CapTypeDecl
  tokens : List TokenDecl
  structs : List StructDecl
  globals : List MemberDecl
  functions : List FunctionDecl
deriving Repr, Inhabited

/-- A program: its units in order. Declarations are shared between them. -/
structure Program where
  units : List SourceUnit
deriving Repr, Inhabited

/-- The units of both programs. -/
def Program.append (a b : Program) : Program := ⟨a.units ++ b.units⟩

end Custody
