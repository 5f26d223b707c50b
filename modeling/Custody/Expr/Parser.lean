import Custody.Expr.Printer
import Custody.Expr.Token

/-!
# Reading expressions

`Expr.parse` reads the grammar

    expr    := '&' expr | '*' expr | postfixed
    postfixed := primary ( '->' IDENT | '.' IDENT | '[' expr ']' )*
    primary := IDENT | INT | '(' expr ')'

where `a->f` is the field `f` of the dereference of `a`. Each call of the reader has
consumed a token since the previous one, so one more step than there are tokens is
always enough.

The number of steps is what the two functions recurse on. A recursion on the tokens
themselves would need a proof that each call gives back fewer than it was given, before
anything can be said about what it gives back; here the definitions are structural and
can be run in proofs, and that the steps never run out is a consequence of what the
reader accepts. That it accepts exactly the grammar is `Proofs/Expr/Grammar`.

What selections follow an expression is left to `select`, which carries the expression
read so far: selections group to the left, and a function that read the base first would
have to read it again.
-/

set_option autoImplicit false

namespace Custody

namespace Expr

/-- Why a text is not an expression. Reading stops at the first problem, so that there
is one reason. -/
inductive Reason where
  | token (error : Token.Error)
  /-- A closing bracket is missing where `found` (or the end) stands. -/
  | expected (wanted : Token) (found : Option Token)
  | fieldName (found : Option Token)
  | unexpected (found : Token)
  | empty
  | trailing (found : Token)
deriving DecidableEq, Repr

/-- How a message names the token it stopped at. -/
def foundLabel : Option Token → String
  | some token => token.label
  | none => "end of input"

def Reason.message : Reason → String
  | token (.badInteger text) => "invalid integer literal `" ++ text ++ "`"
  | token (.badCharacter shown) => "unexpected character `" ++ shown.toString ++ "`"
  | expected wanted found => "expected " ++ wanted.label ++ ", found " ++ foundLabel found
  | fieldName found => "expected field name, found " ++ foundLabel found
  | unexpected found => "unexpected token " ++ found.label
  | empty => "empty expression"
  | trailing found => "trailing input at " ++ found.label

structure Error where
  input : String
  reason : Reason
deriving DecidableEq, Repr

/-- The wording of an error, which quotes the whole text. -/
def Error.message (e : Error) : String :=
  "cannot parse expression `" ++ e.input ++ "`: " ++ e.reason.message

/-- The tokens after the closing bracket that has to come next. -/
def expect (wanted : Token) : List Token → Except Reason (List Token)
  | found :: rest => if found = wanted then .ok rest else .error (.expected wanted (some found))
  | [] => .error (.expected wanted none)

/-- The field name that has to come next, and the tokens after it. -/
def fieldName : List Token → Except Reason (String × List Token)
  | .ident name :: rest => .ok (name, rest)
  | found :: _ => .error (.fieldName (some found))
  | [] => .error (.fieldName none)

mutual

/-- Reads an expression; gives it and the tokens after it. What follows a name, a number
or a closing parenthesis are selections; what follows `&` or `*` is an expression with
its own selections, which is why those bind less tightly. -/
def read : Nat → List Token → Except Reason (Expr × List Token)
  | 0, _ => .error .empty
  | _ + 1, [] => .error .empty
  | steps + 1, .amp :: rest => do
    let (inner, rest) ← read steps rest
    return (.addrOf inner, rest)
  | steps + 1, .star :: rest => do
    let (inner, rest) ← read steps rest
    return (.deref inner, rest)
  | steps + 1, .ident name :: rest => select steps (.ident name) rest
  | steps + 1, .int value :: rest => select steps (.int value) rest
  | steps + 1, .lparen :: rest => do
    let (inner, rest) ← read steps rest
    let rest ← expect .rparen rest
    select steps inner rest
  | _ + 1, found :: _ => .error (.unexpected found)

/-- Reads the selections that follow `base`. With none left it gives back all its
tokens, and the caller decides whether they may stand there. -/
def select : Nat → Expr → List Token → Except Reason (Expr × List Token)
  | 0, _, _ => .error .empty
  | steps + 1, base, .arrow :: rest => do
    let (name, rest) ← fieldName rest
    select steps (.field (.deref base) name) rest
  | steps + 1, base, .dot :: rest => do
    let (name, rest) ← fieldName rest
    select steps (.field base name) rest
  | steps + 1, base, .lbracket :: rest => do
    let (position, rest) ← read steps rest
    let rest ← expect .rbracket rest
    select steps (.index base position) rest
  | _ + 1, base, rest => .ok (base, rest)

end

def ofTokens (tokens : List Token) : Except Reason Expr := do
  let (expr, rest) ← read (tokens.length + 1) tokens
  match rest with
  | [] => return expr
  | found :: _ => throw (.trailing found)

/-- The expression that a whole text is. The error has the text with it, since a message
quotes it and the reader only knows what is left. -/
def parse (input : String) : Except Error Expr :=
  match Token.scan input.toList with
  | .error e => .error ⟨input, .token e⟩
  | .ok tokens => (ofTokens tokens).mapError (Error.mk input)

end Expr

end Custody
