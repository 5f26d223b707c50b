import Custody.Malformed
import Custody.Table.Scope

/-!
# Guards

A guard is the capability that has to be held to access a structure field or a global,
or to access what it points to. Guards are collected in the order of the attributes; of
several for one member, the last counts.

They are kept as a list and not as a map. Nothing is lost in it, neither order nor
repetition, so what is collected from two lists of attributes is what is collected from
each, one after the other, and collecting is a fold (`gather` in
`Proofs/Table/Reading`). Which one counts is decided when a guard is looked up.

The names of fields are written with their structure in front of them, and taken apart
again at the last double colon. A field whose own name has a double colon in it is not
found again by this, and its guard is then one of another field, or of none.
-/

set_option autoImplicit false

namespace Custody

/-- The capability that guards a member. That of a field may start from the object that
holds it, so that every object has a guard of its own. -/
structure Guard where
  template : Ref
  type : CapId
  /-- Guards what the member points to, not the member. -/
  pointee : Bool
  /-- The attribute as written. -/
  text : String
deriving DecidableEq, Repr, Inhabited

/-- What can be guarded. -/
inductive Member where
  | field (struct name : String)
  | global (name : String)
deriving DecidableEq, Repr, Inhabited

namespace Member

/-- The text after the last double colon; `seen` is what has been read from the end, so
that it is in order again when the colons are found. -/
def afterColons (seen : List Char) : List Char → List Char
  | [] => seen
  | ':' :: ':' :: _ => seen
  | c :: rest => afterColons (c :: seen) rest

def qualified (struct name : String) : String := struct ++ "::" ++ name

/-- The field of a structure that a qualified name means: its part after the last double
colon. -/
def ofQualified (struct item : String) : Member :=
  .field struct (String.ofList (afterColons [] item.toList.reverse))

def type? (decls : Declarations) : Member → Option CType
  | field struct name => decls.fieldType? struct name
  | global name => decls.globals.get? name

end Member

/-- The guards of a program, in the order of their attributes. Of several for one member
the last counts, so that the order is kept. -/
abbrev Guards := List (Member × Guard)

namespace Guards

def find? (guards : Guards) (member : Member) (pointee : Bool) : Option Guard :=
  ((guards.filter fun (m, guard) => m = member && guard.pointee = pointee).getLast?).map (·.2)

/-- What a guard attribute names, and whether it guards what the member points to. -/
def subject? : Annotation → Option (Expr × Bool)
  | .guardedBy arg => some (arg, false)
  | .pointeeGuardedBy arg => some (arg, true)
  | _ => none

/-- The guard that an attribute puts on a member, if it puts one, and what is wrong with
it. A member that was not declared gets none, without a word. -/
def ofAttribute (decls : Declarations) (scope : Scope) (member : Member) (written : String) :
    Except ClauseError (Option Guard × List Problem) :=
  match Annotation.parse written with
  | .error error => .ok (none, [.unreadable error])
  | .ok none => .ok (none, [])
  | .ok (some annotation) =>
    match subject? annotation with
    | none => .ok (none, [.functionOnly written])
    | some (arg, pointee) => do
      match ← decls.resolveAll scope written [arg] with
      | ([(template, type)], problems) =>
        match member.type? decls with
        | none => return (none, problems)
        | some declared =>
          if pointee && declared.pointers = 0 then
            return (none, problems ++ [.notPointer written declared])
          else return (some ⟨template, type, pointee, Text.trim written⟩, problems)
      | (_, problems) => return (none, problems)

def ofMember (decls : Declarations) (unit item : String) (scope : Scope) (member : Member) :
    List String → Except Malformed (Guards × List DeclarationError)
  | [] => .ok ([], [])
  | written :: rest => do
    let (guard, problems) ← (ofAttribute decls scope member written).mapError
      (.unresolved unit item written ·)
    let (guards, errors) ← ofMember decls unit item scope member rest
    return (guard.toList.map (member, ·) ++ guards,
      problems.map (⟨unit, item, ·⟩) ++ errors)

def followedBy (a b : Guards × List DeclarationError) : Guards × List DeclarationError :=
  (a.1 ++ b.1, a.2 ++ b.2)

def ofStruct (decls : Declarations) (unit : String) (decl : StructDecl) :
    Except Malformed (Guards × List DeclarationError) :=
  decl.fields.foldlM (fun collected field => do
    let item := Member.qualified decl.name field.name
    return followedBy collected (← ofMember decls unit item (.struct decl.name)
      (Member.ofQualified decl.name item) field.attributes)) ([], [])

def ofGlobals (decls : Declarations) (unit : SourceUnit) :
    Except Malformed (Guards × List DeclarationError) :=
  unit.globals.foldlM (fun collected decl => do
    return followedBy collected (← ofMember decls unit.name decl.name .global
      (.global decl.name) decl.attributes)) ([], [])

/-- The structures of a unit whose names have not been seen, and the names seen then.
Structures are often repeated from unit to unit, and their attributes with them. -/
def freshStructs : List String → List StructDecl → List StructDecl × List String
  | seen, [] => ([], seen)
  | seen, decl :: rest =>
    if decl.name ∈ seen then freshStructs seen rest
    else
      let (fresh, seen) := freshStructs (decl.name :: seen) rest
      (decl :: fresh, seen)

/-- The guards of unit after unit. Only the first structure of a name, in the whole
program, has its attributes read; `seen` are the names so far. -/
def ofUnits (decls : Declarations) : List String → List SourceUnit →
    Except Malformed (Guards × List DeclarationError)
  | _, [] => .ok ([], [])
  | seen, unit :: rest => do
    let (fresh, seen) := freshStructs seen unit.structs
    let fields ← fresh.foldlM (fun collected decl => do
      return followedBy collected (← ofStruct decls unit.name decl)) ([], [])
    let globals ← ofGlobals decls unit
    let more ← ofUnits decls seen rest
    return followedBy (followedBy fields globals) more

end Guards

end Custody
