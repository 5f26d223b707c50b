import Custody.Check.Settings
import Custody.Json.Basic
import Custody.Path
import Custody.Toml.Reader

/-!
# Settings files

A settings file has two tables: `analysis` says how a program is checked, `output` names
a baseline. Everything in it may be left out, and nothing else may be in it. A baseline
is named relative to the file.

Unlike in a program, a name that is not known is an error. A program is written by
another program, which may say more than the checker asks for; a settings file is
written by people, and a setting that is misspelt should not go unnoticed.
-/

set_option autoImplicit false

namespace Custody

/-- What a settings file says. -/
structure Config where
  settings : Settings := {}
  baseline : Option String := none
deriving DecidableEq, Repr, Inhabited

namespace Config

/-- The value of each field, where there is one. A record is a table in which nothing
but its fields is named, or an array of its fields in order. -/
def record? (fields : List String) : Toml → Option (List (Option Toml))
  | .table _ members =>
    if members.all (·.1 ∈ fields) then some (fields.map (members.lookup ·)) else none
  | .array items => some ((List.range fields.length).map fun i => items[i]?)
  | _ => none

def field {α : Type} (default : α) (decode : Toml → Option α) : Option Toml → Option α
  | none => some default
  | some value => decode value

def bool? : Toml → Option Bool
  | .bool value => some value
  | _ => none

def text? : Toml → Option String
  | .string text => some text
  | _ => none

def jobs? : Toml → Option Nat
  | .int value => if 0 ≤ value && value ≤ Json.maxWord64 then some value.toNat else none
  | _ => none

/-- The coverage a value names: by its name, or by a table with the name for its only
key and nothing in it. -/
def coverage? : Toml → Option Coverage
  | .string name => Coverage.ofName? name
  | .table _ [(name, .table _ [])] => Coverage.ofName? name
  | .table _ [(name, .array [])] => Coverage.ofName? name
  | _ => none

def settings? (value : Toml) : Option Settings := do
  let [enabled, coverage, treatAsFatal, jobs] ←
    record? ["enabled", "scope", "treat_as_fatal", "jobs"] value | none
  return ⟨← field true bool? enabled, ← field .all coverage? coverage,
    ← field false bool? treatAsFatal, ← field 1 jobs? jobs⟩

def baseline? (value : Toml) : Option (Option String) := do
  let [baseline] ← record? ["baseline"] value | none
  field none (fun value => (text? value).map some) baseline

def ofMembers? (members : Toml.Members) : Option Config := do
  let [analysis, output] ← record? ["analysis", "output"] (.table .header members) | none
  return ⟨← field {} settings? analysis, ← field none baseline? output⟩

/-- What the file at a path says, given its text. -/
def parse (path text : String) : Option Config := do
  let config ← ofMembers? (← Toml.parse text)
  match Path.parent? path with
  | none => return config
  | some dir => return { config with baseline := config.baseline.map (Path.join dir) }

def fileName : String := "capcheck.toml"

end Config

end Custody
