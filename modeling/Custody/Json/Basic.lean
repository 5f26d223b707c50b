import Custody.Json.Number

/-!
# JSON values

A value keeps what its text shows and a decoder may ask for: the members of an object in
their order, repeated names included, and whether a number was written as an integer.

Some parts of a well-formed text may be skipped but not used. They are `unusable`: a
string with an unpaired surrogate escape, an object with such a name, and, once
`Json.bury` has set a limit, whatever is nested too deeply. A decoder that ignores a
member never looks at it, so an unusable value there does no harm; one that needs it
fails.

## Why being unusable is a value

The alternative would be to fail while reading, and that would fail too often: whether a
deep or misspelt part matters is decided by the decoder, which comes later. With a value
of its own, reading and decoding stay two functions, and the rule "ignored parts may be
anything" needs no parser that knows what will be ignored. Where all parts of a value
have to be usable although none is looked at, `isReadable` asks for it.
-/

set_option autoImplicit false

namespace Custody

/-- A JSON value. -/
inductive Json where
  | null
  | bool (value : Bool)
  | number (value : Json.Number)
  | string (text : String)
  | array (items : List Json)
  | object (members : List (String × Json))
  | unusable
deriving Repr, Inhabited

namespace Json

def nat (n : Nat) : Json := number ⟨false, n, 0, true⟩

mutual

/-- A value whose arrays and objects are nested at most `levels` deep; deeper ones are
unusable. -/
def bury : Nat → Json → Json
  | 0, array _ => unusable
  | 0, object _ => unusable
  | levels + 1, array items => array (buryItems levels items)
  | levels + 1, object members => object (buryMembers levels members)
  | _, value => value

def buryItems (levels : Nat) : List Json → List Json
  | [] => []
  | item :: rest => bury levels item :: buryItems levels rest

def buryMembers (levels : Nat) : List (String × Json) → List (String × Json)
  | [] => []
  | (name, value) :: rest => (name, bury levels value) :: buryMembers levels rest

end

mutual

/-- Whether every part of a value can be used: nothing in it is unusable, and every
number in it is finite in double precision. -/
def isReadable : Json → Bool
  | unusable => false
  | number value => value.fitsDouble
  | array items => areReadable items
  | object members => membersReadable members
  | _ => true

def areReadable : List Json → Bool
  | [] => true
  | item :: rest => isReadable item && areReadable rest

def membersReadable : List (String × Json) → Bool
  | [] => true
  | (_, value) :: rest => isReadable value && membersReadable rest

end

def text? : Json → Option String
  | string text => some text
  | _ => none

def bool? : Json → Option Bool
  | bool value => some value
  | _ => none

/-- The value of a number written as a natural number of at most `limit`. A number that
has a fraction or an exponent is not, even if its value is one. -/
def nat? (limit : Nat) : Json → Option Nat
  | number value =>
    if value.integral && !value.negative && value.exponent = 0 && value.significand ≤ limit then
      some value.significand
    else none
  | _ => none

def list? {α : Type} (decode : Json → Option α) : Json → Option (List α)
  | array items => items.mapM decode
  | _ => none

def nullable? {α : Type} (decode : Json → Option α) : Json → Option (Option α)
  | null => some none
  | value => (decode value).map some

def maxWord64 : Nat := 0xFFFFFFFFFFFFFFFF

def maxWord32 : Nat := 0xFFFFFFFF

/-! ## Records

A record is written as an object whose members are named for its fields, or as an array
of its fields in order. -/

def valuesOf (name : String) (members : List (String × Json)) : List Json :=
  (members.filter (·.1 = name)).map (·.2)

/-- The value of each field, where there is one. A name that is no field's is ignored; a
field given twice, or more items than fields, is no record. -/
def record? (fields : List String) : Json → Option (List (Option Json))
  | object members =>
    fields.mapM fun name =>
      match valuesOf name members with
      | [] => some none
      | [value] => some (some value)
      | _ => none
  | array items =>
    if items.length ≤ fields.length then
      some (items.map some ++ List.replicate (fields.length - items.length) none)
    else none
  | _ => none

def required {α : Type} (decode : Json → Option α) (field : Option Json) : Option α :=
  field.bind decode

def optional {α : Type} (default : α) (decode : Json → Option α) : Option Json → Option α
  | none => some default
  | some value => decode value

/-- The choice a value makes among named alternatives: a name alone, or an object with a
single member whose value goes with the name. -/
def choice? : Json → Option (String × Option Json)
  | string name => some (name, none)
  | object [(name, value)] => some (name, some value)
  | _ => none

end Json

end Custody
