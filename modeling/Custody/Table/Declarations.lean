import Custody.CType
import Custody.Capability.Registry
import Custody.FinMap
import Custody.Program.Basic
import Custody.Ref.Operand
import Custody.Table.Problem

/-!
# Declared names and their types

The capability types, tokens, structures and globals of all units together. What a name
means and which type a reference has are answered from them; what is local to a scope
comes as an argument.

Of two structures or two globals of one name the first counts, without a word: units
include the same headers, and see the same declarations again and again. Capability
types are different. They are matched by name across units, and a name that is a struct
capability in one and a token in another would make two programs out of one, so that is
reported.

Types are found by following a reference from its start (`typeOf`). What the start has
for a type is not in here unless it is global; the scope of an attribute and the context
of a body each bring their own.
-/

set_option autoImplicit false

namespace Custody

/-- What the units of a program declare, apart from guards and functions. -/
structure Declarations where
  registry : Registry
  /-- The capability types of the named tokens. -/
  tokens : FinMap String CapId
  /-- The field types of the structures. -/
  structs : FinMap String (FinMap String CType)
  globals : FinMap String CType
deriving DecidableEq, Inhabited

namespace Declarations

def empty : Declarations := ⟨.empty, ∅, ∅, ∅⟩

/-! ## Collecting -/

/-- Declares a capability type. A token type is also a token of its own name, which a
later declaration of a token may replace. -/
def addCapType (decls : Declarations) (decl : CapTypeDecl) : Except Problem Declarations :=
  let kind := if decl.isToken then .token else .struct
  match decls.registry.declare decl.name kind with
  | .ok (id, registry) =>
    let tokens := if decl.isToken then decls.tokens.insert decl.name id else decls.tokens
    .ok { decls with registry, tokens }
  | .error existing => .error (.collision decl.name kind existing)

def addToken (decls : Declarations) (decl : TokenDecl) : Except Problem Declarations :=
  match decls.registry.lookup decl.capability with
  | some id =>
    if decls.registry.kind id = .token then
      .ok { decls with tokens := decls.tokens.insert decl.name id }
    else .error (.notToken decl.capability)
  | none => .error (.notToken decl.capability)

/-- Declares one item after another, skipping those with a problem, which are
reported. -/
def addAll {α : Type} (add : Declarations → α → Except Problem Declarations) (name : α → String)
    (unit : String) : Declarations → List α → Declarations × List DeclarationError
  | decls, [] => (decls, [])
  | decls, item :: rest =>
    match add decls item with
    | .ok decls => addAll add name unit decls rest
    | .error problem =>
      let (decls, errors) := addAll add name unit decls rest
      (decls, ⟨unit, name item, problem⟩ :: errors)

/-- Declares the capability types of a unit, then its tokens. A token may be of a type
that the unit declares, or one before it; of a later unit it is too early. -/
def addCapabilities (decls : Declarations) (unit : SourceUnit) :
    Declarations × List DeclarationError :=
  let (decls, typeErrors) := addAll addCapType (·.name) unit.name decls unit.capTypes
  let (decls, tokenErrors) := addAll addToken (·.name) unit.name decls unit.tokens
  (decls, typeErrors ++ tokenErrors)

/-- Declares a structure, unless one of its name is there. Of two fields of one name the
later counts. -/
def addStruct (decls : Declarations) (decl : StructDecl) : Declarations :=
  if decls.structs.contains decl.name then decls
  else
    let fields := FinMap.ofList (decl.fields.map fun field => (field.name, CType.parse field.type))
    { decls with structs := decls.structs.insert decl.name fields }

def addGlobal (decls : Declarations) (decl : MemberDecl) : Declarations :=
  if decls.globals.contains decl.name then decls
  else { decls with globals := decls.globals.insert decl.name (CType.parse decl.type) }

def addMembers (decls : Declarations) (unit : SourceUnit) : Declarations :=
  unit.globals.foldl addGlobal (unit.structs.foldl addStruct decls)

/-- `addCapabilities` for unit after unit. -/
def addUnits : Declarations → List SourceUnit → Declarations × List DeclarationError
  | decls, [] => (decls, [])
  | decls, unit :: rest =>
    let (decls, errors) := decls.addCapabilities unit
    let (decls, more) := addUnits decls rest
    (decls, errors ++ more)

/-- What a program declares, and what is wrong with its capability types and tokens.
Structures and globals come after, and nothing can be wrong with them. -/
def ofProgram (program : Program) : Declarations × List DeclarationError :=
  let (decls, errors) := addUnits empty program.units
  (program.units.foldl addMembers decls, errors)

/-! ## Names and types -/

/-- What a global name stands for: a token is the address of an object, any other name
the object itself. -/
def globalRoot (decls : Declarations) (name : String) : Option Operand :=
  if decls.tokens.contains name then some (.address (.global name))
  else if decls.globals.contains name then some (.place (.global name))
  else none

def fieldType? (decls : Declarations) (struct field : String) : Option CType :=
  (decls.structs.get? struct).bind (·.get? field)

/-- The type of a global object. A token counts before a variable of its name, as it
does in `globalRoot`. -/
def globalType? (decls : Declarations) (name : String) : Option CType :=
  match decls.tokens.get? name with
  | some id => some (.object (decls.registry.name id))
  | none => decls.globals.get? name

/-- The type of the object a reference names. `rootType` knows the roots that belong to
a scope. -/
def typeOf (decls : Declarations) (rootType : Ref → Option CType) : Ref → Except TypeError CType
  | .global name =>
    match decls.globalType? name with
    | some type => .ok type
    | none => .error (.unresolved (.global name))
  | .deref pointer => do
    let type ← typeOf decls rootType pointer
    match type.pointee? with
    | some pointee => .ok pointee
    | none => .error (.notAPointer pointer)
  | .field base name => do
    let type ← typeOf decls rootType base
    if type.pointers ≠ 0 then .error (.notAStruct base)
    else match decls.structs.get? type.base with
      | none => .error (.notAStruct base)
      | some fields =>
        match fields.get? name with
        | some fieldType => .ok fieldType
        | none => .error (.unknownField type name)
  | root =>
    match rootType root with
    | some type => .ok type
    | none => .error (.unresolved root)

def typeOfOperand (decls : Declarations) (rootType : Ref → Option CType) :
    Operand → Except TypeError CType
  | .place ref => decls.typeOf rootType ref
  | .address ref => (decls.typeOf rootType ref).map CType.addressOf

/-- The capability type of objects of a type, or of the objects it points to. A pointer
to a pointer to a lock is no lock. -/
def capabilityOf (decls : Declarations) (type : CType) : Option CapId :=
  if type.pointers ≤ 1 then decls.registry.lookup type.base else none

end Declarations

end Custody
