import Custody.Baseline.Basic
import Custody.Json.Printer
import Custody.Json.Reader

/-!
# Baselines as text

A baseline is stored as JSON. Reading follows the rules of `Json.record?`; of two
entries with one fingerprint the later counts.

An entry repeats what the finding said, so that a file can be read and reviewed by
people. None of that is looked at again when diagnostics are filtered: the key of an
entry decides, and a file in which the texts were changed filters as before. What is
written is in the order of the fingerprints, so that the file does not change when
nothing in it does.
-/

set_option autoImplicit false

namespace Custody

open Json

/-! ## Writing -/

def BaselineEntry.toJson (entry : BaselineEntry) : Json :=
  .object ([("kind", .string entry.kind), ("unit", .string entry.unit),
      ("function", .string entry.function)]
    ++ (entry.capability.map fun text => ("instance", Json.string text)).toList
    ++ [("message", .string entry.message), ("first_seen", .string entry.firstSeen.render)])

def Baseline.toJson (baseline : Baseline) : Json :=
  .object [("version", .string baseline.version), ("updated_at", .string baseline.updatedAt.render),
    ("entries", .object (baseline.entries.entries.map fun (id, entry) => (id, entry.toJson)))]

def Baseline.render (baseline : Baseline) : String := baseline.toJson.pretty

/-! ## Reading -/

def timestamp? (value : Json) : Option Timestamp := (text? value).bind Timestamp.parse

def BaselineEntry.ofJson? (value : Json) : Option BaselineEntry := do
  let [kind, unit, function, capability, message, firstSeen] ←
    record? ["kind", "unit", "function", "instance", "message", "first_seen"] value | none
  return ⟨← required text? kind, ← required text? unit, ← required text? function,
    ← optional none (nullable? text?) capability, ← required text? message,
    ← required timestamp? firstSeen⟩

def Baseline.entries? : Json → Option (FinMap String BaselineEntry)
  | .object members =>
    (members.mapM fun (member : String × Json) =>
      (BaselineEntry.ofJson? member.2).map (member.1, ·)).map FinMap.ofList
  | _ => none

def Baseline.ofJson? (value : Json) : Option Baseline := do
  let [version, updatedAt, entries] ← record? ["version", "updated_at", "entries"] value | none
  return ⟨← required text? version, ← required timestamp? updatedAt, ← required entries? entries⟩

/-- Why a baseline cannot be used. -/
inductive BaselineError where
  /-- Its file cannot be read or written. -/
  | file (reason : String)
  /-- Its text is not a baseline. -/
  | text
  /-- It is of another version. -/
  | version (found : String)
deriving DecidableEq, Repr

namespace BaselineError

def message : BaselineError → String
  | file reason => "failed to read baseline: " ++ reason
  | text => "failed to parse baseline: not a baseline"
  | version found => "unsupported baseline version " ++ Text.quoted found

/-- The wording of a baseline error, followed by that of what caused it. -/
def chain : BaselineError → List String
  | file reason => [message (file reason), reason]
  | error => [error.message]

end BaselineError

/-- The baseline a text describes. The version is looked at last, so that a text of
another version that is not even a baseline is told to be none. -/
def Baseline.parse (text : String) : Except BaselineError Baseline :=
  match (parseDocument text).bind ofJson? with
  | none => .error .text
  | some baseline =>
    if baseline.version = currentVersion then .ok baseline
    else .error (.version baseline.version)

end Custody
