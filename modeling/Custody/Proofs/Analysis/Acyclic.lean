import Custody.Proofs.Analysis.Fixpoint
import Custody.Proofs.Flow.Sweep
import Custody.Proofs.Flow.Topological

/-!
# Bodies without loops

Where no block can be reached again, nothing is transient: every block is run once at
most, when its entry environment is final, and that is the join of what the blocks
before it send on. What holds on entry to the body stays as it is, since nothing flows
back to the entry.

With loops none of this is so. A block is run again when its entry environment changes,
and what it sent on before stays in the joins (`Proofs/Analysis/Transient`). So this is
the case in which the entry environments can be said in one equation, block by block: it
is recursive, but along the edges of a graph without cycles.

Only what can be reached from the entry matters. A loop among other blocks is never
seen, and `Body.Acyclic` does not exclude it.

The proof is in `Proofs/Flow`: the visiting order is topological
(`Flow.topological_reversePostorder`), so that all flows go forward, and then the
iteration is one sweep (`Flow.Forward.runs_receives`). What is left is to say it of
bodies.
-/

set_option autoImplicit false

namespace Custody

namespace Body

def Acyclic (body : Body) : Prop := Flow.Acyclic body.successors body.entry

theorem Acyclic.topological_order {body : Body} (hacyclic : body.Acyclic)
    (hbody : body.WellFormed) :
    Flow.Topological body.successors body.order :=
  Flow.topological_reversePostorder hbody.entry_lt hbody.successors_lt hacyclic

theorem Acyclic.entry_notMem {body : Body} (hacyclic : body.Acyclic)
    (hbody : body.WellFormed) {block : Nat} (hblock : block ∈ body.order) :
    body.entry ∉ body.successors block := by
  intro hedge
  have hpath :=
    Flow.reaches_of_mem_reversePostorder hbody.entry_lt hbody.successors_lt hblock
  exact hacyclic body.entry .refl (.tail' hpath hedge)

/-- A body whose blocks jump ahead only has no loops. This can be decided, and is how
the witness below is shown to be one. -/
theorem acyclic_of_increasing {body : Body}
    (h : ∀ block < body.blocks.length, ∀ target ∈ body.successors block, block < target) :
    body.Acyclic := by
  have hedge : ∀ {block target}, Flow.Edge body.successors block target →
      block < target := by
    intro block target hedge
    by_cases hlt : block < body.blocks.length
    · exact h block hlt target hedge
    · -- A block that does not exist jumps nowhere.
      unfold Flow.Edge successors at hedge
      rw [List.getElem?_eq_none (Nat.le_of_not_lt hlt)] at hedge
      cases hedge
  have hpath : ∀ {block target},
      Relation.TransGen (Flow.Edge body.successors) block target → block < target := by
    intro block target hpath
    induction hpath with
    | single hstep => exact hedge hstep
    | tail _ hstep ih => exact Nat.lt_trans ih (hedge hstep)
  intro block _ hcycle
  exact Nat.lt_irrefl block (hpath hcycle)

/-- Two arms, of which one opens a region, come together before a branch whose own arms
lead to one block. That block gets two flows from a single run, which are joined. -/
def regionDiamond : Body :=
  ⟨0, [⟨[], .branch .unknown 1 2⟩, ⟨[.simple none .suppressBegin], .goto 3⟩, ⟨[], .goto 3⟩,
    ⟨[], .branch .unknown 4 4⟩, ⟨[], .leave none⟩]⟩

end Body

namespace Context

open Custody.Flow (Runs Receives entered arrivals joinAll)

variable {ctx : Context} {body : Body}

theorem forward_system (ctx : Context) (hacyclic : body.Acyclic) (hbody : body.WellFormed) :
    Flow.Forward (ctx.system body) body.order where
  nodup := (hacyclic.topological_order hbody).nodup
  ahead hblock hflow :=
    (hacyclic.topological_order hbody).forward _ hblock _
      (mem_successors_of_mem_runIndex hflow)

theorem arrivals_entry_eq_nil (hacyclic : body.Acyclic) (hbody : body.WellFormed)
    (entries : FinMap Nat Env) :
    arrivals body.entry (body.order.flatMap ((ctx.system body).sends entries)) = [] := by
  refine List.eq_nil_iff_forall_not_mem.2 fun env henv => ?_
  obtain ⟨block, hblock, hflow⟩ := List.mem_flatMap.1 (Flow.mem_arrivals.1 henv)
  unfold Flow.System.sends at hflow
  cases hstate : entries.get? block with
  | none =>
    rw [hstate] at hflow
    cases hflow
  | some state =>
    rw [hstate] at hflow
    exact hacyclic.entry_notMem hbody hblock (mem_successors_of_mem_runIndex hflow)

/-- **A body without loops is analysed in one sweep.** The blocks that are run are those
that have an entry environment in the end, in visiting order and none of them twice. The
entry keeps the environment it had, and that of any other block is the join, in visiting
order, of what the blocks send there from their own. -/
theorem analyze_acyclic {outcome : Outcome} (hacyclic : body.Acyclic)
    (h : ctx.analyze body = .ok outcome) :
    ∃ last, Runs (ctx.system body) body.order (ctx.start body)
      (entered last.entries body.order) ⟨last, []⟩ ∧
      ctx.entries body changeLimit = .ok (last.entries, outcome.visits) ∧
      outcome.findings = ctx.record body last.entries ∧
      (entered last.entries body.order).Nodup ∧
      outcome.visits = (entered last.entries body.order).length ∧
      outcome.visits ≤ outcome.reachable ∧
      last.entries.get? body.entry = some ctx.entryEnv ∧
      ∀ block, block ≠ body.entry →
        last.entries.get? block = joinAll Env.join
          (arrivals block (body.order.flatMap ((ctx.system body).sends last.entries))) := by
  obtain ⟨hbody, entries, hentries, hfindings, hreachable⟩ := analyzeWithin_eq_ok_iff.1 h
  obtain ⟨last, hlast, hend, -, rfl, hvisits⟩ := (entries_eq_ok_iff hbody).1 hentries
  have hforward := ctx.forward_system hacyclic hbody
  obtain ⟨hruns, hreceives, hcount⟩ :=
    hforward.runs_receives (ctx.lawful_system hbody) (canonical_entryEnv ctx)
    hbody.closed_order.entry_mem hlast hend
  -- The record of a sweep is what the blocks send from their final entry states, in
  -- order.
  have hjoined : ∀ block, last.entries.get? block =
      joinAll Env.join ((if block = body.entry then [ctx.entryEnv] else []) ++
        arrivals block (body.order.flatMap ((ctx.system body).sends last.entries))) := by
    intro block
    rw [← toList_get?_start]
    exact hreceives.get?_entries block
  refine ⟨last, hruns, hentries, hfindings, hforward.nodup.filter _,
    hvisits.symm.trans hcount, ?_, ?_, ?_⟩
  · rw [← hvisits, hcount, hreachable]
    exact List.length_filter_le _ _
  · rw [hjoined, if_pos rfl, arrivals_entry_eq_nil hacyclic hbody]
    rfl
  · intro block hblock
    rw [hjoined, if_neg hblock, List.nil_append]

theorem analyze_acyclic_regionDiamond :
    Body.regionDiamond.Acyclic ∧
      ∃ outcome entries,
      (ofDecl default "unit" default).analyze .regionDiamond = .ok outcome ∧
        outcome.visits = 5 ∧ outcome.visits ≤ outcome.reachable ∧
        outcome.findings = (ofDecl default "unit" default).record .regionDiamond entries ∧
        entries.get? 0 = some (ofDecl default "unit" default).entryEnv ∧
        entries.get? 3 = joinAll Env.join (arrivals 3 (Body.regionDiamond.order.flatMap
          (((ofDecl default "unit" default).system .regionDiamond).sends entries))) := by
  have hacyclic : Body.regionDiamond.Acyclic := Body.acyclic_of_increasing (by decide)
  have hok : (ofDecl default "unit" default).analyze .regionDiamond
      = .ok ⟨[.overall .mergedDepths, .overall .mergedDepths], 5, 5⟩ := by decide
  obtain ⟨last, -, -, hfindings, -, -, hle, hentry, hblock⟩ := analyze_acyclic hacyclic hok
  exact ⟨hacyclic, _, last.entries, hok, rfl, hle, hfindings, hentry, hblock 3 (by decide)⟩

end Context

end Custody
