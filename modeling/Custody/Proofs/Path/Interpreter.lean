import Custody.Analysis.Basic
import Mathlib.Logic.Relation

/-!
# Executions, exactly

What the analysis is about, said without it: an interpreter that knows of every
capability whether and how it is held, and of every variable whether it is true.
Contracts are taken at their word. A call releases, acquires and tries to acquire what
its contract says, clause by clause, and its result is any truth value at all, unless
the call itself names one.

`Reaches` is what can happen: the points of a body that some execution comes to, with
the store it has there. `Owes` is what is asked of an execution at a point: by the
contract of a call, by the guard of a member, or, where the function returns, by its own
contract. Intrinsics ask for nothing.

No local points anywhere that is known. The bodies this is for assign truth values only
(`IsPlain`), and they switch no checks off and assert nothing.

## Why it shares so little with the analysis

A soundness theorem is worth as much as the thing it is relative to. If the interpreter
called the checks of the analysis, the theorem would say that these agree with
themselves. So stores are functions and not maps, there is no unknown state, demands are
stated in terms of the store alone (`Demand.Met`), and steps are a relation, with the
result of a call and the branch on an unknown condition left open.

What it does share is reading: how texts are parsed, which object an operand is, and how
the clauses of a contract are bound to arguments. These say what a program means, not
what is known of it.

## Why demands that fail are not errors

An execution goes on after a demand that is not met, as programs do. Everything that is
owed along the way is then asked for, not only what comes before the first failure.
-/

set_option autoImplicit false

namespace Custody

/-- What holds at a moment of an execution. Each reference is a capability of its own,
also where two of them may be one object. -/
structure Store where
  /-- The mode in which a capability is held, if it is. -/
  held : Ref → Option Mode
  /-- Whether a variable is true. -/
  truth : String → Bool

namespace Store

/-- The state of a capability. It is never unknown. -/
def state (store : Store) (ref : Ref) : HeldState :=
  match store.held ref with
  | none => .notHeld
  | some mode => .held mode

def release (store : Store) (ref : Ref) : Store :=
  { store with held := fun other => if other = ref then none else store.held other }

def acquire (store : Store) (ref : Ref) (mode : Mode) : Store :=
  { store with held := fun other => if other = ref then some mode else store.held other }

/-- A try-acquire succeeds exactly if the call has the result that its contract
names. -/
def tryAcquire (store : Store) (attempt : BoundAttempt) (result : Bool) : Store :=
  if result = attempt.success
    then store.acquire attempt.clause.inst.ref attempt.clause.mode else store

def apply (store : Store) (contract : BoundContract) (result : Bool) : Store :=
  let store :=
    contract.releases.foldl (fun store clause => store.release clause.inst.ref) store
  let store := contract.acquires.foldl
    (fun store clause => store.acquire clause.inst.ref clause.mode) store
  contract.tryAcquires.foldl (fun store attempt => store.tryAcquire attempt result) store

def assign (store : Store) (name : String) (value : Bool) : Store :=
  { store with truth := fun other => if other = name then value else store.truth other }

def receive (store : Store) (dest : Option String) (result : Bool) : Store :=
  match dest with
  | none => store
  | some name => store.assign name result

/-- The truth of a text: a number, a truth value or a variable. -/
def value? (store : Store) (text : String) : Option Bool :=
  match (Expr.parse text).toOption with
  | none => none
  | some expr =>
    match expr.asInt? with
    | some value => some (value != 0)
    | none => expr.asIdent?.map store.truth

/-- The result of a call, where the call names it: the second argument of a
try-acquire. -/
def result? (store : Store) (callee : String) (args : List String) : Option Bool :=
  match Intrinsic.ofName? callee with
  | some (.tryAcquire _) => args[1]?.bind store.value?
  | _ => none

/-- Where an execution can go from the end of a block. A condition that is not followed
leaves both ways open, whatever the program would do. -/
def Goes (store : Store) (target : Nat) : Terminator → Prop
  | .goto next => target = next
  | .branch .unknown yes no => target = yes ∨ target = no
  | .branch (.holds name) yes no => target = if store.truth name then yes else no
  | .branch (.fails name) yes no => target = if store.truth name then no else yes
  | .leave _ | .unreachable => False

end Store

namespace Context

/-! ## Steps -/

def contractOf (ctx : Context) (callee : String) (args : List String) : BoundContract :=
  match Intrinsic.ofName? callee with
  | some intrinsic =>
    intrinsicContract callee args (args.head?.bind (ctx.instance? .empty)) intrinsic
  | none => ctx.boundContract .empty callee args

/-- What an action can do. An assignment to anything but a variable of the function is a
write to a member. A value that is no literal and no variable can be anything. -/
inductive Does (ctx : Context) : Action → Store → Store → Prop where
  | plain {text : String} {store : Store} : Does ctx (.plain text) store store
  | read {path : String} {store : Store} : Does ctx (.read path) store store
  | write {path : String} {store : Store} : Does ctx (.write path) store store
  | call {callee : String} {args : List String} {dest : Option String} {store : Store}
      {result : Bool}
      (hresult : ∀ fixed, store.result? callee args = some fixed → result = fixed) :
      Does ctx (.call callee args dest) store
        ((store.receive dest result).apply (ctx.contractOf callee args) result)
  | assign {dest value : String} {store : Store} {new : Bool}
      (hdest : ctx.vars.contains dest = true)
      (hnew : ∀ fixed, store.value? value = some fixed → new = fixed) :
      Does ctx (.assign dest value) store (store.assign dest new)
  | writeMember {dest value : String} {store : Store}
      (hdest : ctx.vars.contains dest = false) :
      Does ctx (.assign dest value) store store

/-- A point of an execution: in front of a statement of a block, or at its end. -/
structure Point where
  block : Nat
  stmt : Nat
  store : Store

/-- One step of an execution. A statement that is in none of the forms of `Does` has no
step, and an execution ends there. -/
inductive Step (ctx : Context) (body : Body) : Point → Point → Prop where
  | stmt {block index : Nat} {code : Block} {line : Option Nat} {action : Action}
      {store after : Store} (hcode : body.blocks[block]? = some code)
      (hstmt : code.stmts[index]? = some (.simple line action))
      (hdoes : ctx.Does action store after) :
      Step ctx body ⟨block, index, store⟩ ⟨block, index + 1, after⟩
  | jump {block target : Nat} {code : Block} {store : Store}
      (hcode : body.blocks[block]? = some code) (hgoes : store.Goes target code.term) :
      Step ctx body ⟨block, code.stmts.length, store⟩ ⟨target, 0, store⟩

/-- Where an execution starts: the function holds what it requires and what it releases,
and of its variables nothing is known. -/
def startStore (ctx : Context) (truth : String → Bool) : Store :=
  (ctx.own.requires ++ ctx.own.releases).foldl
    (fun store clause => store.acquire clause.inst.ref clause.mode) ⟨fun _ => none, truth⟩

/-- Some execution of a body comes to a point. It starts with what the function's
contract lets it count on, and with any truth of the variables. -/
def Reaches (ctx : Context) (body : Body) (point : Point) : Prop :=
  ∃ truth, Relation.ReflTransGen (ctx.Step body) ⟨body.entry, 0, ctx.startStore truth⟩ point

/-! ## Plain bodies -/

/-- A text that is a truth value: a literal, or a variable of the function that is no
pointer. -/
def IsTruth (ctx : Context) (text : String) : Prop :=
  ∃ expr, Expr.parse text = .ok expr ∧
    (expr.asInt?.isSome ∨
      ∃ name type, expr = .ident name ∧ ctx.vars.get? name = some type ∧ type.pointers = 0)

/-- A statement under checks that asserts nothing and lets no local point anywhere.
Reads, writes and calls without a destination are not restricted beyond this. -/
def IsPlain (ctx : Context) : Stmt → Prop
  | .simple _ (.call callee args dest) =>
    Marker.ofName? callee = none ∧ (ctx.contractOf callee args).asserts = [] ∧
      (dest.isSome → (ctx.contractOf callee args).returns = none)
  | .simple _ (.assign dest value) => ctx.vars.contains dest = true → ctx.IsTruth value
  | .simple _ (.plain _) | .simple _ (.read _) | .simple _ (.write _) => True
  | .simple _ .suppressBegin | .simple _ .suppressEnd | .exempt _ _ => False

def PlainBody (ctx : Context) (body : Body) : Prop :=
  ∀ block ∈ body.blocks, ∀ stmt ∈ block.stmts, ctx.IsPlain stmt

/-!
## Demands

There are four kinds, because contracts ask in four ways. Two of them are met by the
same stores: `free` and `fresh` differ only in what the analysis does when it does not
know (`Demand.isLenient`).
-/

inductive Demand where
  /-- A capability is held, in a mode that is good enough. -/
  | held (ref : Ref) (mode : Mode)
  /-- A capability is held in this very mode. -/
  | heldAs (ref : Ref) (mode : Mode)
  /-- A capability is not held. -/
  | free (ref : Ref)
  /-- A capability is not held, as far as anyone can tell. -/
  | fresh (ref : Ref)

namespace Demand

def ref : Demand → Ref
  | held ref _ | heldAs ref _ | free ref | fresh ref => ref

def Met (store : Store) : Demand → Prop
  | held ref mode => ∃ actual, store.held ref = some actual ∧ actual.satisfies mode = true
  | heldAs ref mode => store.held ref = some mode
  | free ref | fresh ref => store.held ref = none

/-- Whether a demand counts as met where the state of its capability is unknown. Only
acquiring what may be held already is let pass. -/
def isLenient : Demand → Bool
  | fresh _ => true
  | held _ _ | heldAs _ _ | free _ => false

end Demand

/-- The guard of a member, with the mode that an access asks for and the clause as
written. -/
def guardOf (ctx : Context) (access : Access) (member : Ref) (pointee : Bool) :
    Option (Ref × Mode × String) := do
  let (declared, holder) ← ctx.member? member
  let guard ← ctx.table.guard? declared pointee
  let ref ← (guardRef guard holder).toOption
  return (ref, access.guardMode, guard.text)

/-- The guards that an access to an object needs, along its whole path. A pointer on the
way is only read. -/
def guardsOf (ctx : Context) (access : Access) : Ref → List (Ref × Mode × String)
  | .field base name =>
    (ctx.guardOf access (.field base name) false).toList ++ guardsOf ctx access base
  | .deref pointer => (ctx.guardOf access pointer true).toList ++ guardsOf ctx .read pointer
  | .global name => (ctx.guardOf access (.global name) false).toList
  | .var _ | .self | .param _ => []

def object? (ctx : Context) (text : String) : Option Ref := do
  let expr ← (Expr.parse text).toOption
  let operand ← (expr.lower (ctx.root .empty) true).toOption
  return operand.object

/-- An action accesses an object. A value that is assigned is read where it is a member;
calls access nothing that is checked. -/
inductive Accesses (ctx : Context) : Action → Access → Ref → Prop where
  | read {path : String} {ref : Ref} (href : ctx.object? path = some ref) :
      Accesses ctx (.read path) .read ref
  | write {path : String} {ref : Ref} (href : ctx.object? path = some ref) :
      Accesses ctx (.write path) .write ref
  | assigned {dest value : String} {expr : Expr} {ref : Ref}
      (hexpr : Expr.parse value = .ok expr)
      (hreads : ctx.readsMember expr = true) (href : ctx.object? value = some ref) :
      Accesses ctx (.assign dest value) .read ref
  | writeMember {dest value : String} {ref : Ref} (hdest : ctx.vars.contains dest = false)
      (href : ctx.object? dest = some ref) : Accesses ctx (.assign dest value) .write ref

/-- What an action asks for, with the clause that says so. -/
inductive Asks (ctx : Context) : Action → Demand → String → Prop where
  | required {callee : String} {args : List String} {dest : Option String}
      {clause : BoundClause} (hdeclared : Intrinsic.ofName? callee = none)
      (hclause : clause ∈ (ctx.contractOf callee args).requires) :
      Asks ctx (.call callee args dest) (.held clause.inst.ref clause.mode) clause.text
  | excluded {callee : String} {args : List String} {dest : Option String}
      {clause : BoundClause} (hdeclared : Intrinsic.ofName? callee = none)
      (hclause : clause ∈ (ctx.contractOf callee args).excludes) :
      Asks ctx (.call callee args dest) (.free clause.inst.ref) clause.text
  | released {callee : String} {args : List String} {dest : Option String}
      {clause : BoundClause} (hdeclared : Intrinsic.ofName? callee = none)
      (hclause : clause ∈ (ctx.contractOf callee args).releases) :
      Asks ctx (.call callee args dest) (.heldAs clause.inst.ref clause.mode) clause.text
  | acquired {callee : String} {args : List String} {dest : Option String}
      {clause : BoundClause} (hdeclared : Intrinsic.ofName? callee = none)
      (hclause : clause ∈ (ctx.contractOf callee args).acquires) :
      Asks ctx (.call callee args dest) (.fresh clause.inst.ref) clause.text
  | guarded {action : Action} {access : Access} {object ref : Ref} {mode : Mode}
      {text : String}
      (haccess : ctx.Accesses action access object)
        (hguard : (ref, mode, text) ∈ ctx.guardsOf access object) :
      Asks ctx action (.held ref mode) text

/-- What a function's own contract asks for where it returns, with the clause that says
so. A capability that the contract does not speak of must not be held. -/
inductive AsksAtReturn (own : BoundContract) (returned : Option String) :
    Demand → String → Prop where
  | acquired {clause : BoundClause} (hclause : clause ∈ own.acquires) :
      AsksAtReturn own returned (.held clause.inst.ref clause.mode) clause.text
  | kept {clause : BoundClause} (hclause : clause ∈ own.requires)
      (hkept : ∀ released ∈ own.releases, released.inst ≠ clause.inst) :
      AsksAtReturn own returned (.held clause.inst.ref clause.mode) clause.text
  | gone {clause : BoundClause} (hclause : clause ∈ own.releases) :
      AsksAtReturn own returned (.free clause.inst.ref) clause.text
  | attempted {attempt : BoundAttempt} {text : String} {expr : Expr} {value : Int}
      (hattempt : attempt ∈ own.tryAcquires) (hreturned : returned = some text)
      (hexpr : Expr.parse text = .ok expr) (hvalue : expr.asInt? = some value)
      (hsuccess : attempt.success = (value != 0)) :
      AsksAtReturn own returned (.held attempt.clause.inst.ref attempt.clause.mode)
        attempt.clause.text
  | failed {attempt : BoundAttempt} {text : String} {expr : Expr} {value : Int}
      (hattempt : attempt ∈ own.tryAcquires) (hreturned : returned = some text)
      (hexpr : Expr.parse text = .ok expr) (hvalue : expr.asInt? = some value)
      (hfailure : attempt.success ≠ (value != 0)) :
      AsksAtReturn own returned (.fresh attempt.clause.inst.ref) attempt.clause.text
  | undeclared {ref : Ref} (href : ref ∉ own.declared) :
      AsksAtReturn own returned (.free ref) ""

/-- What is asked of an execution at a point of a body, and where a finding about it
belongs. The site is part of it, so that a report elsewhere does not count. -/
inductive Owes (ctx : Context) (body : Body) : Site → Demand → String → Prop where
  | stmt {block index : Nat} {code : Block} {line : Option Nat} {action : Action}
      {demand : Demand} {clause : String} (hcode : body.blocks[block]? = some code)
      (hstmt : code.stmts[index]? = some (.simple line action))
        (hasks : ctx.Asks action demand clause) :
      Owes ctx body ⟨block, index, line⟩ demand clause
  | leave {block : Nat} {code : Block} {returned : Option String} {demand : Demand}
      {clause : String}
      (hcode : body.blocks[block]? = some code) (hterm : code.term = .leave returned)
      (hasks : AsksAtReturn ctx.own returned demand clause) :
      Owes ctx body ⟨block, code.stmts.length, none⟩ demand clause

end Context

end Custody
