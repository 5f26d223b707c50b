import Custody.Proofs.Baseline.Fingerprint
import Custody.Proofs.FinMap

/-!
# What a baseline hides

A baseline knows findings by their fingerprints: recording collects them, and filtering
takes away the findings whose fingerprint was collected. Both go by the same kinds, so
after recording the findings of now nothing of them is left (`filter_record_self`),
whatever the digest.

That nothing else is taken away is a matter of the fingerprints. Where the texts before
the message have no zero bytes and the digests of the findings at hand do not collide,
findings with one fingerprint say the same, and what is hidden is exactly what says the
same as a recorded finding (`filter_record`).

The assumption on digests is about the findings of the two lists and not about the
digest. That a digest of eight bytes never collides is false, so a theorem that assumes
it would say nothing; that it does not on a few hundred given texts can be checked.

Findings are compared by what they say, their `profile`, which leaves out the block and
the line. A finding that has moved within its function is still hidden, and that is what
a baseline is for.
-/

set_option autoImplicit false

namespace Custody

/-- Those of some diagnostics that the analysis of function bodies found. -/
def findings (ds : List Diagnostic) : List Diagnostic := ds.filter (·.kind.isFinding)

theorem mem_findings {ds : List Diagnostic} {d : Diagnostic} :
    d ∈ findings ds ↔ d ∈ ds ∧ d.kind.isFinding = true :=
  List.mem_filter

theorem Kind.not_isFinding (kind : Kind) :
    (!kind.isFinding) = decide (kind = .unbalancedSuppression ∨ kind = .declaration) := by
  cases kind <;> rfl

namespace Diagnostic

/-- Without a collision, a fingerprint tells all that a finding says. That there is none
is only assumed of these two findings. -/
theorem fingerprint_eq_iff_profile {d d' : Diagnostic} (hd : d.Unambiguous)
    (hd' : d'.Unambiguous)
    (hdigest : (Sha256.digest d.identity).take 8 = (Sha256.digest d'.identity).take 8 →
      d.identity = d'.identity) :
    d.fingerprint = d'.fingerprint ↔ d.profile = d'.profile := by
  rw [fingerprint_eq_iff, ← identity_eq_iff_profile hd hd']
  exact ⟨hdigest, fun h => by rw [h]⟩

theorem mem_map_fingerprint_iff {ds : List Diagnostic} {d : Diagnostic}
    (h : ∀ other ∈ ds, other.fingerprint = d.fingerprint ↔ other.profile = d.profile) :
    d.fingerprint ∈ ds.map fingerprint ↔ d.profile ∈ ds.map profile := by
  simp only [List.mem_map]
  exact exists_congr fun other => and_congr_right (h other)

end Diagnostic

namespace Baseline

open Diagnostic (fingerprint profile)

variable {baseline : Baseline} {now : Timestamp} {ds ds' : List Diagnostic}
  {d : Diagnostic} {id : String}

/-!
## By fingerprint

What can be said without looking at what a fingerprint is made from.
-/

theorem covers_iff :
    baseline.covers d = true ↔
      d.kind.isFinding = true ∧ baseline.entries.contains d.fingerprint = true :=
  Bool.and_eq_true_iff

theorem contains_record :
    (baseline.record now ds).entries.contains id = true ↔
      id ∈ (findings ds).map fingerprint := by
  have hkeys :
      ((findings ds).map fun d => (d.fingerprint, baseline.entryFor now d)).map (·.1) =
        (findings ds).map fingerprint := by
    rw [List.map_map]
    rfl
  rw [← hkeys]
  exact FinMap.contains_ofList

theorem nodup_stale (baseline : Baseline) (ds : List Diagnostic) :
    (baseline.filter ds).stale.Nodup :=
  baseline.entries.nodup_keys.filter _

theorem mem_stale :
    id ∈ (baseline.filter ds).stale ↔
      baseline.entries.contains id = true ∧ id ∉ (findings ds).map fingerprint := by
  have hstale : id ∈ (baseline.filter ds).stale ↔
      id ∈ baseline.entries.keys ∧ id ∉ (ds.filter baseline.covers).map fingerprint := by
    simp only [filter, List.mem_filter, decide_eq_true_eq]
  rw [hstale, FinMap.mem_keys_iff]
  refine and_congr_right fun hcontains => not_congr ?_
  simp only [List.mem_map, List.mem_filter, mem_findings, covers_iff]
  constructor
  · rintro ⟨d, ⟨hmem, hfinding, -⟩, rfl⟩
    exact ⟨d, ⟨hmem, hfinding⟩, rfl⟩
  · rintro ⟨d, ⟨hmem, hfinding⟩, rfl⟩
    exact ⟨d, ⟨hmem, hfinding, hcontains⟩, rfl⟩

/-- What is kept and what is not, where it is known of the diagnostics at hand which
ones are covered. -/
theorem filter_of_covers {known : Diagnostic → Bool}
    (h : ∀ d ∈ ds, baseline.covers d = known d) :
    (baseline.filter ds).kept = ds.filter (!known ·) ∧
    (baseline.filter ds).suppressed = ds.countP known := by
  constructor
  · exact List.filter_congr fun d hd => by rw [h d hd]
  · show ((ds.filter baseline.covers).map fingerprint).length = ds.countP known
    rw [List.length_map, List.filter_congr h, List.countP_eq_length_filter]

theorem filter_record_self (baseline : Baseline) (now : Timestamp) (ds : List Diagnostic) :
    (baseline.record now ds).filter ds =
      ⟨ds.filter fun d => d.kind = .unbalancedSuppression ∨ d.kind = .declaration,
        ds.countP (·.kind.isFinding), []⟩ := by
  have hcovers : ∀ d ∈ ds, (baseline.record now ds).covers d = d.kind.isFinding := by
    intro d hd
    rw [Bool.eq_iff_iff, covers_iff, contains_record]
    refine and_iff_left_of_imp fun hfinding => ?_
    exact List.mem_map_of_mem (mem_findings.2 ⟨hd, hfinding⟩)
  have hstale : ((baseline.record now ds).filter ds).stale = [] := by
    refine List.eq_nil_iff_forall_not_mem.2 fun id hid => ?_
    obtain ⟨hrecorded, hunmatched⟩ := mem_stale.1 hid
    exact hunmatched (contains_record.1 hrecorded)
  obtain ⟨hkept, hsuppressed⟩ := filter_of_covers hcovers
  simp only [Kind.not_isFinding] at hkept
  exact (Filtered.mk.injEq ..).mpr ⟨hkept, hsuppressed, hstale⟩

/-! ## By what is said -/

/-- **A baseline hides exactly the recorded findings.** Let no text before a message
have a zero byte, and let no digest of a finding of now collide with that of a recorded
one. What is kept, in order, is what is no finding or says what no recorded finding
says; the others are counted; and the stale entries are those of recorded findings that
no finding of now says again. Filtering what was just recorded keeps only errors and
leaves nothing stale, whatever the digests. -/
theorem filter_record (baseline : Baseline) (now : Timestamp) (ds : List Diagnostic) :
    (∀ ds', (∀ d ∈ findings ds ++ findings ds', d.Unambiguous) →
      (∀ d ∈ findings ds, ∀ d' ∈ findings ds',
        (Sha256.digest d.identity).take 8 = (Sha256.digest d'.identity).take 8 →
        d.identity = d'.identity) →
      ((baseline.record now ds).filter ds').kept =
          ds'.filter (fun d => !d.kind.isFinding || d.profile ∉ (findings ds).map profile) ∧
        ((baseline.record now ds).filter ds').suppressed =
          ds'.countP (fun d => d.kind.isFinding && d.profile ∈ (findings ds).map profile) ∧
        ((baseline.record now ds).filter ds').stale.Nodup ∧
        ∀ id, id ∈ ((baseline.record now ds).filter ds').stale ↔
          ∃ d ∈ findings ds, d.fingerprint = id ∧ d.profile ∉ (findings ds').map profile) ∧
      (baseline.record now ds).filter ds =
        ⟨ds.filter fun d => d.kind = .unbalancedSuppression ∨ d.kind = .declaration,
          ds.countP (·.kind.isFinding), []⟩ := by
  refine ⟨fun ds' hplain hdigest => ?_, filter_record_self baseline now ds⟩
  have htells : ∀ d ∈ findings ds, ∀ d' ∈ findings ds', d.fingerprint = d'.fingerprint ↔
      d.profile = d'.profile := by
    intro d hd d' hd'
    exact Diagnostic.fingerprint_eq_iff_profile (hplain d (List.mem_append_left _ hd))
      (hplain d' (List.mem_append_right _ hd')) (hdigest d hd d' hd')
  -- From here on fingerprints play no part: what is covered is told by profiles.
  have hcovers : ∀ d' ∈ ds', (baseline.record now ds).covers d' =
      (d'.kind.isFinding && decide (d'.profile ∈ (findings ds).map profile)) := by
    intro d' hd'
    rw [Bool.eq_iff_iff, covers_iff, contains_record, Bool.and_eq_true_iff,
      decide_eq_true_iff]
    refine and_congr_right fun hfinding => Diagnostic.mem_map_fingerprint_iff fun d hd => ?_
    exact htells d hd d' (mem_findings.2 ⟨hd', hfinding⟩)
  have hsaid : ∀ d ∈ findings ds,
      d.fingerprint ∈ (findings ds').map fingerprint ↔
        d.profile ∈ (findings ds').map profile := by
    intro d hd
    refine Diagnostic.mem_map_fingerprint_iff fun d' hd' => ?_
    rw [eq_comm, htells d hd d' hd', eq_comm]
  obtain ⟨hkept, hsuppressed⟩ := filter_of_covers hcovers
  refine ⟨?_, hsuppressed, nodup_stale _ _, fun id => ?_⟩
  · rw [hkept]
    simp only [Bool.not_and, decide_not]
  · rw [mem_stale, contains_record, List.mem_map]
    constructor
    · rintro ⟨⟨d, hd, rfl⟩, hunmatched⟩
      exact ⟨d, hd, rfl, fun hmem => hunmatched ((hsaid d hd).2 hmem)⟩
    · rintro ⟨d, hd, rfl, hunsaid⟩
      exact ⟨⟨d, hd, rfl⟩, fun hmem => hunsaid ((hsaid d hd).1 hmem)⟩

def heldAt (block : Nat) (message : String) : Diagnostic :=
  ⟨.stillHeld, .warning, ⟨"unit", "f", some block, none, none⟩, some "lock", message, none⟩

def unclosed : Diagnostic :=
  ⟨.unbalancedSuppression, .error, ⟨"unit", "f", none, none, none⟩, none, "unclosed", none⟩

theorem filter_record_moved :
    ∃ filtered,
      ((empty default).record default [heldAt 3 "old", heldAt 1 "gone", unclosed]).filter
        [heldAt 5 "old", unclosed, heldAt 3 "new"] = filtered ∧
      filtered.kept = [unclosed, heldAt 3 "new"] ∧ filtered.suppressed = 1 ∧
      (heldAt 1 "gone").fingerprint ∈ filtered.stale := by
  have hdigest : ∀ d ∈ findings [heldAt 3 "old", heldAt 1 "gone", unclosed],
      ∀ d' ∈ findings [heldAt 5 "old", unclosed, heldAt 3 "new"],
        (Sha256.digest d.identity).take 8 = (Sha256.digest d'.identity).take 8 →
          d.identity = d'.identity := by
    decide +kernel
  obtain ⟨hkept, hsuppressed, -, hstale⟩ :=
    (filter_record (empty default) default [heldAt 3 "old", heldAt 1 "gone", unclosed]).1
      [heldAt 5 "old", unclosed, heldAt 3 "new"] (by decide) hdigest
  exact ⟨_, rfl, hkept.trans (by decide), hsuppressed.trans (by decide),
    (hstale _).2 ⟨heldAt 1 "gone", by decide, rfl, by decide⟩⟩

end Baseline

end Custody
