import Custody.Json.Reader
import Custody.Program.Basic

/-!
# Reading a program

`Program.parse` reads a program from JSON text. Records are objects or arrays of their
fields (`Json.record?`); alternatives are a name or an object with one member
(`Json.choice?`).

A statement is always an object. The first of its members, in the order of the text,
that is named for a kind of statement decides; other members but `line` are not
interpreted, yet must be usable.

Each type has an `ofJson?` that takes a value apart and asks for its fields by name,
with what a field is if it is left out written beside it. None of them says why a value
is not what it should be: whether a text is a program is all that is reported of it,
with the path of the file.

Statements are read by recursion on the value, in three functions for a value, its
members and the items of an array, because an exempt block has statements in it. All the
other types are not recursive, and are read by composing decoders.
-/

set_option autoImplicit false

namespace Custody

open Json

def flag? : Option Json → Option Bool := optional false bool?

def items? {α : Type} (decode : Json → Option α) : Option Json → Option (List α) :=
  optional [] (list? decode)

/-- The value that goes with a name only when there is nothing to say: none, or
`null`. -/
def isBare : Option Json → Bool
  | none => true
  | some .null => true
  | _ => false

/-! ## Statements -/

namespace Action

def kinds : List String :=
  ["plain", "call", "read", "write", "assign", "suppress_begin", "suppress_end"]

def call? (value : Json) : Option Action := do
  let [callee, args, dest] ← record? ["callee", "args", "dest"] value | none
  return .call (← required text? callee) (← items? text? args)
    (← optional none (nullable? text?) dest)

def assign? (value : Json) : Option Action := do
  let [dest, value] ← record? ["dest", "value"] value | none
  return .assign (← required text? dest) (← required text? value)

def isNothing : Json → Bool
  | .null => true
  | .object [] => true
  | _ => false

def ofJson? (kind : String) (value : Json) : Option Action :=
  match kind with
  | "plain" => (text? value).map .plain
  | "call" => call? value
  | "read" => (text? value).map .read
  | "write" => (text? value).map .write
  | "assign" => assign? value
  | "suppress_begin" => if isNothing value then some .suppressBegin else none
  | "suppress_end" => if isNothing value then some .suppressEnd else none
  | _ => none

end Action

namespace Stmt

def line? (members : List (String × Json)) : Option (Option Nat) :=
  match valuesOf "line" members with
  | [] => some none
  | [value] => nullable? (nat? maxWord32) value
  | _ => none

mutual

def ofJson? : Json → Option Stmt
  | .object members =>
    if membersReadable (members.filter (·.1 ≠ "line")) then
      match line? members with
      | some line => ofMembers? line members
      | none => none
    else none
  | _ => none

/-- The statement that the first deciding member describes. -/
def ofMembers? (line : Option Nat) : List (String × Json) → Option Stmt
  | [] => none
  | (name, value) :: rest =>
    if name = "unsafe" then
      match value with
      | .array items =>
        match ofItems? items with
        | some body => some (.exempt line body)
        | none => none
      | _ => none
    else if name ∈ Action.kinds then (Action.ofJson? name value).map (.simple line)
    else ofMembers? line rest

def ofItems? : List Json → Option (List Stmt)
  | [] => some []
  | item :: rest =>
    match ofJson? item with
    | some stmt =>
      match ofItems? rest with
      | some stmts => some (stmt :: stmts)
      | none => none
    | none => none

end

end Stmt

/-! ## Graphs -/

def blockIndex? : Json → Option Nat := nat? maxWord64

namespace Condition

def ofJson? (value : Json) : Option Condition := do
  match ← choice? value with
  | ("local", some name) => return .holds (← text? name)
  | ("not", some name) => return .fails (← text? name)
  | ("opaque", rest) => if isBare rest then some .unknown else none
  | _ => none

end Condition

namespace Terminator

def branch? (value : Json) : Option Terminator := do
  let [cond, yes, no] ← record? ["cond", "then", "else"] value | none
  return .branch (← required Condition.ofJson? cond) (← required blockIndex? yes)
    (← required blockIndex? no)

def ofJson? (value : Json) : Option Terminator := do
  match ← choice? value with
  | ("return", rest) => if isBare rest then some (.leave none) else none
  | ("unreachable", rest) => if isBare rest then some .unreachable else none
  | ("return_value", some text) => return .leave (some (← text? text))
  | ("goto", some target) => return .goto (← blockIndex? target)
  | ("backedge", some target) => return .goto (← blockIndex? target)
  | ("branch", some value) => branch? value
  | _ => none

end Terminator

/-- The block a value describes; one without a terminator returns. -/
def Block.ofJson? (value : Json) : Option Block := do
  let [stmts, term] ← record? ["stmts", "term"] value | none
  return ⟨← items? Stmt.ofJson? stmts, ← optional (.leave none) Terminator.ofJson? term⟩

def Body.ofJson? (value : Json) : Option Body := do
  let [entry, blocks] ← record? ["entry", "blocks"] value | none
  return ⟨← optional 0 blockIndex? entry, ← required (list? Block.ofJson?) blocks⟩

/-! ## Declarations -/

def CapTypeDecl.ofJson? (value : Json) : Option CapTypeDecl := do
  let [name, isToken] ← record? ["name", "token"] value | none
  return ⟨← required text? name, ← flag? isToken⟩

def TokenDecl.ofJson? (value : Json) : Option TokenDecl := do
  let [name, capability] ← record? ["name", "capability"] value | none
  return ⟨← required text? name, ← required text? capability⟩

def MemberDecl.ofJson? (value : Json) : Option MemberDecl := do
  let [name, type, attributes] ← record? ["name", "ty", "attrs"] value | none
  return ⟨← required text? name, ← required text? type, ← items? text? attributes⟩

def StructDecl.ofJson? (value : Json) : Option StructDecl := do
  let [name, fields] ← record? ["name", "fields"] value | none
  return ⟨← required text? name, ← items? MemberDecl.ofJson? fields⟩

def VarDecl.ofJson? (value : Json) : Option VarDecl := do
  let [name, type] ← record? ["name", "ty"] value | none
  return ⟨← required text? name, ← required text? type⟩

def FunctionDecl.ofJson? (value : Json) : Option FunctionDecl := do
  let [name, isInline, isStatic, params, attributes, locals, body] ←
    record? ["name", "inline", "static", "params", "attrs", "locals", "body"] value | none
  return {
    name := ← required text? name
    isInline := ← flag? isInline
    isStatic := ← flag? isStatic
    params := ← items? VarDecl.ofJson? params
    attributes := ← items? text? attributes
    locals := ← items? VarDecl.ofJson? locals
    body := ← optional none (nullable? Body.ofJson?) body }

/-- The unit a value describes. A unit asks to be checked unless it says that it does
not. -/
def SourceUnit.ofJson? (value : Json) : Option SourceUnit := do
  let [name, optedIn, capTypes, tokens, structs, globals, functions] ←
    record? ["name", "opted_in", "capability_types", "token_instances", "structs", "globals",
      "functions"] value | none
  return {
    name := ← required text? name
    optedIn := ← optional true bool? optedIn
    capTypes := ← items? CapTypeDecl.ofJson? capTypes
    tokens := ← items? TokenDecl.ofJson? tokens
    structs := ← items? StructDecl.ofJson? structs
    globals := ← items? MemberDecl.ofJson? globals
    functions := ← items? FunctionDecl.ofJson? functions }

namespace Program

def ofJson? (value : Json) : Option Program := do
  let [units] ← record? ["units"] value | none
  return ⟨← items? SourceUnit.ofJson? units⟩

def parse (text : String) : Option Program := (parseDocument text).bind ofJson?

end Program

end Custody
