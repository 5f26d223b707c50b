import Custody.Proofs.Baseline.Filter
import Mathlib.Order.Bounds.Basic

/-!
# When a finding was first seen

Recording makes all entries anew, so that what is no longer found is forgotten, and
takes over only the time of what is still found. A finding that goes away and comes back
is therefore a new one: over a whole history of recordings, its time is that of the
first in the unbroken row of recordings with it that leads up to the last
(`recordAll_firstSeen`).

The row is given by its start, as the least position from which on all recordings have
the finding (`PresentSince`, `IsLeast`). The start is a position and not a time, because
nothing says that times increase: a clock may be set back between two recordings, and
each entry has the time that was given with its recording.

Findings are known by fingerprint throughout. Two findings with one fingerprint share an
entry, whether they say the same or their digests collide, and so have one time.
-/

set_option autoImplicit false

namespace Custody

namespace Baseline

open Diagnostic (fingerprint)

/-- Diagnostics that are recorded, and the time at which they are. -/
structure Recording where
  now : Timestamp
  diagnostics : List Diagnostic

def Recording.fingerprints (recording : Recording) : List String :=
  (findings recording.diagnostics).map fingerprint

def recordAll (baseline : Baseline) (history : List Recording) : Baseline :=
  history.foldl (fun baseline recording =>
    baseline.record recording.now recording.diagnostics) baseline

/-- From some recording on, all have a finding with this fingerprint. At the end of the
history and behind it this says nothing, and holds. -/
def PresentSince (history : List Recording) (id : String) (start : Nat) : Prop :=
  ∀ recording ∈ history.drop start, id ∈ recording.fingerprints

variable {baseline : Baseline} {created now : Timestamp} {ds : List Diagnostic}
  {history : List Recording} {last : Recording} {id : String} {start : Nat}

/-! ## One recording -/

/-- Of several findings with one fingerprint the last is recorded. It says the same as
the others, up to collisions, so that the choice cannot be seen. -/
theorem get?_record :
    (baseline.record now ds).entries.get? id =
      ((findings ds).reverse.find? (·.fingerprint = id)).map (baseline.entryFor now) := by
  simp only [record]
  rw [FinMap.get?_ofList, ← List.map_reverse, List.find?_map, Option.map_map]
  rfl

/-- A finding keeps the time it is known with, whichever of the findings with its
fingerprint is recorded. -/
theorem firstSeen_of_get?_record {entry : BaselineEntry}
    (h : (baseline.record now ds).entries.get? id = some entry) :
    entry.firstSeen = ((baseline.entries.get? id).map (·.firstSeen)).getD now := by
  rw [get?_record] at h
  obtain ⟨d, hfound, rfl⟩ := Option.map_eq_some_iff.1 h
  have hid : d.fingerprint = id := by simpa using List.find?_some hfound
  rw [← hid]
  rfl

/-!
## A history of recordings

The induction is on the history from its end: a recording that is added either finds an
entry and takes over its time, or makes a new one with its own.
-/

theorem recordAll_concat :
    baseline.recordAll (history ++ [last]) =
      (baseline.recordAll history).record last.now last.diagnostics :=
  List.foldl_concat ..

theorem contains_recordAll :
    ((empty created).recordAll history).entries.contains id = true ↔
      ∃ last ∈ history.getLast?, id ∈ last.fingerprints := by
  cases history using List.reverseRecOn with
  | nil => simp [recordAll, empty, FinMap.contains]
  | append_singleton history last =>
    rw [recordAll_concat, contains_record, List.getLast?_concat]
    simp [Recording.fingerprints]

theorem presentSince_concat (hstart : start ≤ history.length) :
    PresentSince (history ++ [last]) id start ↔
      PresentSince history id start ∧ id ∈ last.fingerprints := by
  unfold PresentSince
  rw [List.drop_append_of_le_length hstart]
  simp [or_imp, forall_and]

theorem PresentSince.contains_recordAll (h : PresentSince history id start)
    (hstart : start < history.length) :
    ((empty created).recordAll history).entries.contains id = true := by
  have hne : history.drop start ≠ [] := by
    rw [Ne, List.drop_eq_nil_iff]
    exact Nat.not_le.2 hstart
  have hlast : (history.drop start).getLast hne ∈ history.getLast? := by
    rw [List.getLast_drop]
    exact List.getLast?_eq_some_getLast _
  exact Baseline.contains_recordAll.2 ⟨_, hlast, h _ (List.getLast_mem hne)⟩

theorem isLeast_presentSince_of_known (hlast : id ∈ last.fingerprints)
    (hstart : start < history.length)
    (hleast : IsLeast {start | PresentSince history id start} start) :
    IsLeast {start | PresentSince (history ++ [last]) id start} start := by
  refine ⟨(presentSince_concat (Nat.le_of_lt hstart)).2 ⟨hleast.1, hlast⟩,
    fun other hother => ?_⟩
  rcases Nat.lt_or_ge history.length other with hlater | hearlier
  · exact Nat.le_of_lt (Nat.lt_trans hstart hlater)
  · exact hleast.2 ((presentSince_concat hearlier).1 hother).1

theorem isLeast_presentSince_of_new (hlast : id ∈ last.fingerprints)
    (hnew : ∀ start < history.length, ¬PresentSince history id start) :
    IsLeast {start | PresentSince (history ++ [last]) id start} history.length := by
  refine ⟨(presentSince_concat (Nat.le_refl _)).2 ⟨by simp [PresentSince], hlast⟩,
    fun other hother => ?_⟩
  refine Nat.le_of_not_lt fun hearlier => ?_
  exact hnew other hearlier ((presentSince_concat (Nat.le_of_lt hearlier)).1 hother).1

/-- **First times survive recording.** After any history of recordings from an empty
baseline, the entries are those of the findings of the last one, and each was first seen
at the time of the earliest recording since which its fingerprint has been in all. -/
theorem recordAll_firstSeen (created : Timestamp) (history : List Recording) :
    (∀ id, id ∈ ((empty created).recordAll history).entries.keys ↔
      ∃ last ∈ history.getLast?, id ∈ last.fingerprints) ∧
    ∀ id entry, ((empty created).recordAll history).entries.get? id = some entry →
      ∃ start, ∃ hstart : start < history.length,
        IsLeast {start | PresentSince history id start} start ∧
        entry.firstSeen = history[start].now := by
  refine ⟨fun id => FinMap.mem_keys_iff.trans contains_recordAll, fun id entry h => ?_⟩
  induction history using List.reverseRecOn generalizing entry with
  | nil => cases h
  | append_singleton history last ih =>
    rw [recordAll_concat] at h
    have hlast : id ∈ last.fingerprints := by
      rw [Recording.fingerprints, ← contains_record, FinMap.contains, h]
      rfl
    have htime := firstSeen_of_get?_record h
    -- Recorded before, it keeps its time and has been present since then; else it is
    -- new, and present since this recording only.
    cases hknown : ((empty created).recordAll history).entries.get? id with
    | some known =>
      obtain ⟨start, hstart, hleast, hseen⟩ := ih known hknown
      refine ⟨start, by simp; omega, isLeast_presentSince_of_known hlast hstart hleast, ?_⟩
      rw [List.getElem_append_left hstart, ← hseen, htime, hknown]
      rfl
    | none =>
      have hnew : ∀ start < history.length, ¬PresentSince history id start := by
        intro start hstart hpresent
        have hcontains : ((empty created).recordAll history).entries.contains id = true :=
          hpresent.contains_recordAll hstart
        rw [FinMap.contains, hknown] at hcontains
        cases hcontains
      refine ⟨history.length, by simp, isLeast_presentSince_of_new hlast hnew, ?_⟩
      rw [List.getElem_concat_length rfl, htime, hknown]
      rfl

def noon (day : Nat) : Timestamp := ⟨⟨2024, 5, day⟩, 43200, 0⟩

/-- A finding that goes away on the second day and is back on the third, twice, with
another one on the fourth. -/
def returning : List Recording :=
  [⟨noon 1, [heldAt 3 "old"]⟩, ⟨noon 2, [unclosed]⟩,
    ⟨noon 3, [heldAt 5 "old", heldAt 7 "old"]⟩,
    ⟨noon 4, [heldAt 1 "new", unclosed, heldAt 9 "old"]⟩]

theorem recordAll_firstSeen_returning :
    ∃ entry, ((empty default).recordAll returning).entries.get?
      (heldAt 3 "old").fingerprint = some entry ∧
      entry.firstSeen = noon 3 := by
  obtain ⟨hkeys, htimes⟩ := recordAll_firstSeen default returning
  -- Where in the function the finding is does not matter.
  have hfound : ∀ block (recording : Recording),
      heldAt block "old" ∈ recording.diagnostics →
      (heldAt 3 "old").fingerprint ∈ recording.fingerprints :=
    fun block recording hmem =>
      List.mem_map.2 ⟨heldAt block "old", mem_findings.2 ⟨hmem, rfl⟩, rfl⟩
  have hkey := (hkeys (heldAt 3 "old").fingerprint).2 ⟨_, rfl, hfound 9 _ (by decide)⟩
  obtain ⟨entry, hentry⟩ := Option.isSome_iff_exists.1 (FinMap.mem_keys_iff.1 hkey)
  obtain ⟨start, hstart, hleast, hseen⟩ := htimes _ entry hentry
  have hthird : start = 2 := by
    refine hleast.unique ⟨?_, fun other hother => Nat.le_of_not_lt fun hearlier => ?_⟩
    · intro recording hrecording
      obtain rfl | rfl := List.mem_pair.1 hrecording
      · exact hfound 5 _ (by decide)
      · exact hfound 9 _ (by decide)
    · -- On the second day there is no finding.
      have hsecond : ⟨noon 2, [unclosed]⟩ ∈ returning.drop other := by
        obtain rfl | rfl : other = 0 ∨ other = 1 := by omega
        · exact .tail _ (.head _)
        · exact .head _
      cases hother _ hsecond
  subst hthird
  exact ⟨entry, hentry, hseen⟩

end Baseline

end Custody
