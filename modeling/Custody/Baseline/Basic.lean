import Custody.Digest.Hex
import Custody.Digest.Sha256
import Custody.FinMap
import Custody.Report.Diagnostic
import Custody.Time.Timestamp

/-!
# Baselines

A baseline records findings that are accepted, so that only new ones are reported. A
finding is known by its fingerprint, which leaves out where in the function it is, so
that other changes to the function do not make it a new one.

`record` replaces the entries by the findings of now, but the time at which one was
first seen stays; `filter` takes away the findings that are recorded.

Two diagnostics of one function that differ only in their place there have one
fingerprint, and are accepted or reported together. That is meant: when a line is added
above them neither is new. What else they could share a fingerprint by is chance, since
it is a part of a digest; how far it can be relied on is stated with the chance as a
hypothesis (`Proofs/Baseline/Fingerprint`, `Proofs/Baseline/Filter`).

Only findings are recorded and only findings are taken away. What is wrong with
declarations or markers is never accepted.
-/

set_option autoImplicit false

namespace Custody

namespace Diagnostic

/-- What a fingerprint is made from: unit, function, kind, capability and message,
divided by zero bytes. The zero bytes keep the parts apart as long as none of them
contains one. -/
def identity (d : Diagnostic) : List UInt8 :=
  [0].intercalate ([d.location.unit, d.location.function, d.kind.name,
    d.capability.getD "", d.message].map (·.toUTF8.toList))

/-- The first eight bytes of the digest of a diagnostic's identity. They are written
with sixteen hexadecimal digits. -/
def fingerprint (d : Diagnostic) : String := Hex.encode ((Sha256.digest d.identity).take 8)

end Diagnostic

/-- A recorded finding. -/
structure BaselineEntry where
  kind : String
  unit : String
  function : String
  capability : Option String
  message : String
  firstSeen : Timestamp
deriving DecidableEq, Repr, Inhabited

def Diagnostic.entry (d : Diagnostic) (firstSeen : Timestamp) : BaselineEntry :=
  ⟨d.kind.name, d.location.unit, d.location.function, d.capability, d.message, firstSeen⟩

/-- Recorded findings, by their fingerprints. -/
structure Baseline where
  version : String
  updatedAt : Timestamp
  entries : FinMap String BaselineEntry
deriving DecidableEq

namespace Baseline

def currentVersion : String := "1.0"

def empty (now : Timestamp) : Baseline := ⟨currentVersion, now, ∅⟩

def size (baseline : Baseline) : Nat := baseline.entries.size

/-- The entry of a finding: what is recorded already keeps its first time, and all else
is of now. -/
def entryFor (baseline : Baseline) (now : Timestamp) (d : Diagnostic) : BaselineEntry :=
  d.entry (((baseline.entries.get? d.fingerprint).map (·.firstSeen)).getD now)

/-- The baseline with the findings of now as its entries. Entries that no finding
matches are gone after that, and a finding that comes back later is new. -/
def record (baseline : Baseline) (now : Timestamp) (ds : List Diagnostic) : Baseline :=
  let findings := ds.filter (·.kind.isFinding)
  { baseline with
    entries := FinMap.ofList (findings.map fun d => (d.fingerprint, baseline.entryFor now d)) }

/-- The baseline as it is stored at a time. Recording does not stamp: the time of an
update is that of writing the file. -/
def stamp (baseline : Baseline) (now : Timestamp) : Baseline := { baseline with updatedAt := now }

/-- Whether a diagnostic is a recorded finding. What is no finding is never covered, not
even if an entry has its fingerprint. -/
def covers (baseline : Baseline) (d : Diagnostic) : Bool :=
  d.kind.isFinding && baseline.entries.contains d.fingerprint

/-- What a baseline makes of diagnostics. -/
structure Filtered where
  kept : List Diagnostic
  /-- How many were taken away. -/
  suppressed : Nat
  /-- The fingerprints of entries that no diagnostic matches. -/
  stale : List String
deriving DecidableEq, Repr

/-- The diagnostics without recorded findings. Suppressed are counted by diagnostics and
not by entries, since several may share a fingerprint. -/
def filter (baseline : Baseline) (ds : List Diagnostic) : Filtered :=
  let matched := (ds.filter baseline.covers).map (·.fingerprint)
  { kept := ds.filter (!baseline.covers ·)
    suppressed := matched.length
    stale := baseline.entries.keys.filter (· ∉ matched) }

end Baseline

end Custody
