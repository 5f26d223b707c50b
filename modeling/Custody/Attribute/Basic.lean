import Custody.Capability.Mode
import Custody.Expr.Arguments
import Custody.Expr.Parser
import Custody.Text.Quote

/-!
# Attributes

Declarations carry their attributes as written, such as `__must_hold(&f->lock)`.
`Annotation.parse` recognizes those that speak about capabilities and reads their
arguments; every other attribute is ignored, whatever its arguments are.

The spellings are a table from names to forms (`Form.spellings`), and a form says which
arguments its annotation takes (`Form.read`). Two spellings of one meaning share a form,
so that there is nothing to keep in step, and that spellings do not differ in meaning is
not a fact to be proved for each of them.

An attribute that is recognized is taken at its word. If its arguments do not fit it,
that is an error, and not an attribute of some other tool: a contract that is dropped in
silence would be worse than one that is refused. An unknown name is another matter,
since declarations carry attributes of all kinds.
-/

set_option autoImplicit false

namespace Custody

/-- What an attribute says about capabilities. Spellings are gone, and with them the
difference between attributes that mean the same. -/
inductive Annotation where
  | requires (mode : Mode) (args : List Expr)
  | excludes (args : List Expr)
  | acquires (mode : Mode) (args : List Expr)
  | releases (mode : Mode) (args : List Expr)
  /-- Acquires when the truth of the function's result is `success`. -/
  | tryAcquires (mode : Mode) (success : Bool) (args : List Expr)
  | asserts (mode : Mode) (args : List Expr)
  | returns (arg : Expr)
  | noAnalysis
  /-- Guards a member. -/
  | guardedBy (arg : Expr)
  /-- Guards what a member points to. -/
  | pointeeGuardedBy (arg : Expr)
deriving DecidableEq, Repr, Inhabited

namespace Annotation

def isOnFunction : Annotation → Bool
  | guardedBy _ | pointeeGuardedBy _ => false
  | _ => true

/-- The arguments that name capabilities. -/
def args : Annotation → List Expr
  | requires _ args | excludes args | acquires _ args | releases _ args | tryAcquires _ _ args
  | asserts _ args => args
  | returns arg | guardedBy arg | pointeeGuardedBy arg => [arg]
  | noAnalysis => []

end Annotation

namespace Attribute

/-- What an attribute should have had as arguments. -/
inductive Arity where
  | atLeastOne
  | exactlyOne
  | capability
  | valueAndCapability
deriving DecidableEq, Repr

def Arity.expected : Arity → String
  | atLeastOne => "at least one capability expression"
  | exactlyOne => "exactly one capability expression"
  | capability => "a capability expression"
  | valueAndCapability => "a return value and a capability expression"

/-- Why the arguments of an attribute do not fit it. -/
inductive Fault where
  | arity (expected : Arity)
  | returnValue (value : String)
  | expr (error : Expr.Error)
deriving DecidableEq, Repr

/-- A faulty attribute, as written. All messages about attributes quote the whole text,
with what stands around it. -/
structure Error where
  written : String
  fault : Fault
deriving DecidableEq, Repr

/-- The wording of an error. -/
def Error.message (e : Error) : String :=
  match e.fault with
  | .arity arity => Text.quoted e.written ++ " expects " ++ arity.expected
  | .returnValue value =>
    Text.quoted e.written ++ ": invalid try-acquire return value " ++ Text.quoted value
      ++ " (expected 0, 1, true or false)"
  | .expr error => Text.quoted e.written ++ ": " ++ error.message

/-! ## Arguments -/

def exprs (args : List String) : Except Fault (List Expr) :=
  args.mapM fun arg => (Expr.parse arg).mapError Fault.expr

def atLeastOne (args : List String) : Except Fault (List Expr) :=
  if args.isEmpty then .error (.arity .atLeastOne) else exprs args

def exactlyOne : List String → Except Fault Expr
  | [arg] => (Expr.parse arg).mapError Fault.expr
  | _ => .error (.arity .exactlyOne)

/-- The result on which a try-acquire succeeds: an expression that spells 0 or 1. Other
numbers are refused although they have a truth. -/
def successValue (value : String) : Except Fault Bool :=
  match (Expr.parse value).toOption.bind Expr.asInt? with
  | some 0 => .ok false
  | some 1 => .ok true
  | _ => .error (.returnValue value)

/-- The success value and the capabilities of a try-acquire. A single argument is a
capability whose success value is true, unless the value has to be given. -/
def attempt (valueRequired : Bool) : List String → Except Fault (Bool × List Expr)
  | [] => .error (.arity .capability)
  | [arg] =>
    if valueRequired then .error (.arity .valueAndCapability)
    else (exprs [arg]).map (true, ·)
  | value :: args => do
    let success ← successValue value
    let args ← exprs args
    return (success, args)

/-! ## Forms -/

/-- A kind of annotation, before its arguments are known. A form is an annotation
without arguments, but for the try-acquires, where it also says whether the success
value has to be given. -/
inductive Form where
  | requires (mode : Mode)
  | excludes
  | acquires (mode : Mode)
  | releases (mode : Mode)
  | tryAcquires (mode : Mode) (valueRequired : Bool)
  | asserts (mode : Mode)
  | returns
  | noAnalysis
  | guardedBy
  | pointeeGuardedBy
deriving DecidableEq, Repr, Inhabited

/-- The names of the attributes that speak about capabilities. -/
def Form.spellings : List (String × Form) :=
  [("__must_hold", .requires .exclusive), ("__requires_cap", .requires .exclusive),
   ("__must_hold_shared", .requires .shared), ("__requires_shared_cap", .requires .shared),
   ("__must_not_hold", .excludes), ("__excludes_cap", .excludes),
   ("__acquires", .acquires .exclusive), ("__acquires_cap", .acquires .exclusive),
   ("__acquires_shared", .acquires .shared), ("__acquires_shared_cap", .acquires .shared),
   ("__releases", .releases .exclusive), ("__releases_cap", .releases .exclusive),
   ("__releases_shared", .releases .shared), ("__releases_shared_cap", .releases .shared),
   ("__cond_acquires", .tryAcquires .exclusive false),
   ("__cond_acquires_shared", .tryAcquires .shared false),
   ("__try_acquires_cap", .tryAcquires .exclusive true),
   ("__try_acquires_shared_cap", .tryAcquires .shared true),
   ("__asserts_cap", .asserts .exclusive), ("__asserts_shared_cap", .asserts .shared),
   ("__returns_cap", .returns), ("__no_capability_analysis", .noAnalysis),
   ("__guarded_by", .guardedBy), ("__var_guarded_by", .guardedBy),
   ("__pt_guarded_by", .pointeeGuardedBy), ("__ref_guarded_by", .pointeeGuardedBy)]

def Form.ofName? (name : String) : Option Form := Form.spellings.lookup name

/-- The annotation a form makes of its arguments. -/
def Form.read (args : List String) : Form → Except Fault Annotation
  | requires mode => (atLeastOne args).map (.requires mode)
  | excludes => (atLeastOne args).map .excludes
  | acquires mode => (atLeastOne args).map (.acquires mode)
  | releases mode => (atLeastOne args).map (.releases mode)
  | tryAcquires mode valueRequired =>
    (attempt valueRequired args).map fun (success, args) => .tryAcquires mode success args
  | asserts mode => (atLeastOne args).map (.asserts mode)
  | returns => (exactlyOne args).map .returns
  | noAnalysis => .ok .noAnalysis
  | guardedBy => (exactlyOne args).map .guardedBy
  | pointeeGuardedBy => (exactlyOne args).map .pointeeGuardedBy

/-! ## Attributes as text -/

/-- A text without one closing parenthesis at its end, if it has one. Whether that is
the one that closes the attribute shows when the arguments are read. -/
def dropClosing (cs : List Char) : List Char :=
  match cs.reverse with
  | ')' :: rest => rest.reverse
  | _ => cs

/-- The name of an attribute and the text of its arguments: what stands before the first
parenthesis, and what stands between it and one at the end. -/
def split (written : String) : String × String :=
  let cs := Text.trimmed written.toList
  let name := cs.takeWhile (· != '(')
  let args := (cs.dropWhile (· != '(')).drop 1
  (String.ofList (Text.trimmed name), String.ofList (dropClosing args))

end Attribute

/-- The annotation an attribute is, if it speaks about capabilities at all. Others are
passed over, whatever their arguments are. -/
def Annotation.parse (written : String) : Except Attribute.Error (Option Annotation) :=
  let (name, args) := Attribute.split written
  match Attribute.Form.ofName? name with
  | none => .ok none
  | some form =>
    match form.read (splitArguments args) with
    | .ok annotation => .ok (some annotation)
    | .error fault => .error ⟨written, fault⟩

end Custody
