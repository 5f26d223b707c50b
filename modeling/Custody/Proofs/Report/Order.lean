import Custody.Proofs.Keyed
import Custody.Report.Basic
import Mathlib.Data.List.Nodup

/-!
# The order of reports

Of the diagnostics with one key a reporter keeps the first (`find?_pushAll`), so that it
has no key twice. Diagnostics that compare equal have the same key. Hence what a
reporter prints is known from what it has under each key (`finish_congr`), whatever the
order in which the keys arrived.

Diagnostics are compared by key and then by message, so comparing equal is not being
equal. Sorting is unique only up to such pairs, and a sorted list would not be known
from its members. That no key occurs twice (`Distinct`) is what excludes them.
-/

set_option autoImplicit false

namespace Custody

instance : Std.TransOrd Kind := inferInstanceAs (Std.TransCmp (compareOn Kind.index))

theorem Kind.eq_of_compare {a b : Kind} : compare a b = .eq → a = b := by
  cases a <;> cases b <;> decide

instance : Std.TransOrd Location := inferInstanceAs (Std.TransCmp (compareLex _ _))

theorem Location.eq_of_compare {a b : Location} (h : compare a b = .eq) : a = b := by
  have hparts :
      (compare a.unit b.unit).then ((compare a.function b.function).then
        ((compare a.block b.block).then ((compare a.stmt b.stmt).then
          (compare a.line b.line)))) = .eq := h
  simp only [Ordering.then_eq_eq, Std.compare_eq_iff_eq] at hparts
  obtain ⟨hunit, hfunction, hblock, hstmt, hline⟩ := hparts
  cases a
  cases b
  simp_all

namespace Diagnostic

instance : Std.TransOrd Key := inferInstanceAs (Std.TransCmp (compareLex _ _))

instance : Std.TransOrd Diagnostic := inferInstanceAs (Std.TransCmp (compareLex _ _))

theorem Key.eq_of_compare {a b : Key} (h : compare a b = .eq) : a = b := by
  have hparts : (compare a.location b.location).then ((compare a.kind b.kind).then
      (compare a.capability b.capability)) = .eq := h
  simp only [Ordering.then_eq_eq, Std.compare_eq_iff_eq] at hparts
  obtain ⟨hlocation, hkind, hcapability⟩ := hparts
  cases a
  cases b
  exact Key.mk.injEq .. ▸ ⟨Location.eq_of_compare hlocation, Kind.eq_of_compare hkind,
    hcapability⟩

theorem key_eq_of_compare {a b : Diagnostic} (h : compare a b = .eq) : a.key = b.key := by
  have hparts : (compare a.key b.key).then (compare a.message b.message) = .eq := h
  exact Key.eq_of_compare (Ordering.then_eq_eq.1 hparts).1

end Diagnostic

namespace Reporter

open Diagnostic (Key)

variable {reporter other : Reporter}

/-- Of the diagnostics with one key, the first counts. -/
theorem find?_push (reporter : Reporter) (d : Diagnostic) (key : Key) :
    (reporter.push d).diagnostics.find? (·.key = key) =
      (reporter.diagnostics ++ [d]).find? (·.key = key) := by
  unfold push
  by_cases hhas : reporter.has d.key
  · rw [if_pos hhas, List.find?_append]
    by_cases hkey : d.key = key
    · obtain ⟨first, hfirst, hsame⟩ := List.any_eq_true.1 hhas
      have hfound : (reporter.diagnostics.find? (·.key = key)).isSome :=
        isSome_find?_key.2 (List.mem_map.2 ⟨first, hfirst, by simpa [hkey] using hsame⟩)
      rw [Option.or_of_isSome hfound]
    · simp [hkey]
  · rw [if_neg hhas]

theorem find?_pushAll (reporter : Reporter) (ds : List Diagnostic) (key : Key) :
    (reporter.pushAll ds).diagnostics.find? (·.key = key) =
      (reporter.diagnostics ++ ds).find? (·.key = key) := by
  induction ds generalizing reporter with
  | nil => simp [pushAll]
  | cons d rest ih =>
    calc ((reporter.push d).pushAll rest).diagnostics.find? (·.key = key)
      _ = ((reporter.push d).diagnostics.find? (·.key = key)).or
            (rest.find? (·.key = key)) := by
        rw [ih, List.find?_append]
      _ = (reporter.diagnostics ++ d :: rest).find? (·.key = key) := by
        rw [find?_push, ← List.find?_append, List.append_assoc, List.singleton_append]

/-- No key is reported twice. -/
def Distinct (reporter : Reporter) : Prop := (reporter.diagnostics.map (·.key)).Nodup

theorem distinct_empty : Distinct empty := List.nodup_nil

theorem Distinct.push (h : reporter.Distinct) (d : Diagnostic) :
    (reporter.push d).Distinct := by
  unfold Reporter.push
  by_cases hhas : reporter.has d.key
  · rwa [if_pos hhas]
  · rw [if_neg hhas, Distinct, List.map_append, List.map_singleton, List.nodup_append]
    refine ⟨h, List.nodup_singleton _, ?_⟩
    rintro key hkey _ hd rfl
    obtain ⟨first, hfirst, rfl⟩ := List.mem_map.1 hkey
    rw [List.mem_singleton] at hd
    exact hhas (List.any_eq_true.2 ⟨first, hfirst, by simpa using hd⟩)

theorem Distinct.pushAll (h : reporter.Distinct) (ds : List Diagnostic) :
    (reporter.pushAll ds).Distinct := by
  induction ds generalizing reporter with
  | nil => exact h
  | cons d rest ih => exact ih (h.push d)

theorem Distinct.eq_of_key (h : reporter.Distinct) :
    ∀ a ∈ reporter.diagnostics, ∀ b ∈ reporter.diagnostics, a.key = b.key → a = b :=
  fun _ ha _ hb => List.inj_on_of_nodup_map h ha hb

theorem Distinct.find?_eq_some_iff (h : reporter.Distinct) {key : Key} {d : Diagnostic} :
    reporter.diagnostics.find? (·.key = key) = some d ↔
      d ∈ reporter.diagnostics ∧ d.key = key :=
  find?_key_eq_some_iff h.eq_of_key

theorem finish_perm (reporter : Reporter) : reporter.finish.Perm reporter.diagnostics :=
  List.mergeSort_perm _ _

theorem pairwise_finish (reporter : Reporter) :
    reporter.finish.Pairwise fun a b => (compare a b).isLE = true := by
  have htotal : ∀ a b : Diagnostic, ((compare a b).isLE || (compare b a).isLE) = true := by
    intro a b
    rw [Std.OrientedOrd.eq_swap (a := b) (b := a)]
    cases compare a b <;> rfl
  have htrans : ∀ a b c : Diagnostic,
      (compare a b).isLE = true → (compare b c).isLE = true → (compare a c).isLE = true :=
    fun _ _ _ => Std.TransOrd.isLE_trans
  exact List.pairwise_mergeSort htrans htotal _

/-- **A report says of each key what the reporter has under it**, and nothing of the
order in which the keys came. -/
theorem finish_congr (h : reporter.Distinct) (h' : other.Distinct)
    (hsame : ∀ key : Key,
      reporter.diagnostics.find? (·.key = key) =
        other.diagnostics.find? (·.key = key)) :
    reporter.finish = other.finish := by
  have hperm : reporter.diagnostics.Perm other.diagnostics := by
    rw [List.perm_ext_iff_of_nodup (.of_map _ h) (.of_map _ h')]
    intro d
    have hfind : d ∈ reporter.diagnostics ∧ d.key = d.key ↔
        d ∈ other.diagnostics ∧ d.key = d.key := by
      rw [← h.find?_eq_some_iff, hsame, h'.find?_eq_some_iff]
    simpa using hfind
  refine List.Perm.eq_of_pairwise ?_ reporter.pairwise_finish other.pairwise_finish
    (reporter.finish_perm.trans (hperm.trans other.finish_perm.symm))
  intro a b ha hb hab hba
  -- diagnostics that compare equal have one key, and there are no two with it
  have hkey : a.key = b.key :=
    Diagnostic.key_eq_of_compare (Std.OrientedCmp.isLE_antisymm hab hba)
  exact h'.eq_of_key a (hperm.mem_iff.1 (reporter.finish_perm.mem_iff.1 ha)) b
    (other.finish_perm.mem_iff.1 hb) hkey

end Reporter

end Custody
