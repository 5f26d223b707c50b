import Custody.Proofs.Analysis.Steering
import Custody.Proofs.Env.Rank
import Custody.Proofs.Flow.Convergence
import Custody.Proofs.Flow.Order

/-!
# The fixed point of a body

The iteration over the blocks of a body, put together: environments with `join` are
`Flow.Lawful` and `Flow.Finitary`, and the visiting order of a body whose jumps stay
inside it leaves no block out.

* `analyze_postFixed` — the entry environments that findings are recorded from are a
  post-fixed point, reached by states that only rise;
* `analyzeWithin_converges` — with a limit that is high enough, every well-formed body
  is analysed;
* `analyzeWithin_fails_iff` — with any limit, a well-formed body is given up on if and
  only if some entry environment changes too often on the way.

Running a block is *not* monotone: an environment that has lost a binding may name
another capability. The first result does not need it to be.

## Why the limit is a parameter

The analysis runs with `changeLimit`. `analyzeWithin` has the limit as an argument, and
the results about it are for all limits. That is what lets one say that the limit is
only a matter of how long one is willing to wait: from some bound on, which depends on
the body, the outcome is always the same one.

## Why the whole way is in the result

That entries are a post-fixed point does not say where they come from, and there are
many post-fixed points. So `analyze_postFixed` also has the run that leads there. Blocks
have an entry environment only if something was sent to them, entry environments never
fall, and none comes back to what it was, which would be a loop of the iteration.
-/

set_option autoImplicit false

namespace Custody

namespace Body

/-- The entry exists, and so does every block that is jumped to. The analysis refuses
bodies of which this is not so before it runs anything. -/
structure WellFormed (body : Body) : Prop where
  entry_lt : body.entry < body.blocks.length
  target_lt : ∀ block ∈ body.blocks, ∀ target ∈ block.term.successors,
    target < body.blocks.length

instance (body : Body) : Decidable body.WellFormed :=
  decidable_of_iff (body.entry < body.blocks.length ∧
      ∀ block ∈ body.blocks, ∀ target ∈ block.term.successors, target < body.blocks.length)
    ⟨fun h => ⟨h.1, h.2⟩, fun h => ⟨h.entry_lt, h.target_lt⟩⟩

/-- A block that opens a region every time it jumps back to itself, and then a branch
whose two arms lead to one block. -/
def regionLoop : Body :=
  ⟨0, [⟨[.simple none .suppressBegin], .branch .unknown 0 1⟩, ⟨[], .branch .unknown 2 2⟩,
    ⟨[], .leave none⟩]⟩

theorem badJump?_eq_none_iff {body : Body} : body.badJump? = none ↔
    ∀ block ∈ body.blocks, ∀ target ∈ block.term.successors,
    target < body.blocks.length := by
  unfold badJump?
  rw [List.findSome?_eq_none_iff]
  constructor
  · intro h block hblock target htarget
    obtain ⟨index, hindex⟩ := List.mem_iff_getElem?.1 hblock
    have hmem : (block, index) ∈ body.blocks.zipIdx :=
      List.mk_mem_zipIdx_iff_getElem?.2 hindex
    have hfind := Option.map_eq_none_iff.1 (h (block, index) hmem)
    have hlt := List.find?_eq_none.1 hfind target htarget
    simpa using hlt
  · rintro h ⟨block, index⟩ hmem
    have hblock : block ∈ body.blocks := List.mem_iff_getElem?.2
      ⟨index, List.mk_mem_zipIdx_iff_getElem?.1 hmem⟩
    refine Option.map_eq_none_iff.2 (List.find?_eq_none.2 fun target htarget => ?_)
    have hlt := h block hblock target htarget
    simpa using hlt

theorem WellFormed.successors_lt {body : Body} (h : body.WellFormed) (index : Nat) :
    ∀ target ∈ body.successors index, target < body.blocks.length := by
  intro target htarget
  unfold successors at htarget
  cases hblock : body.blocks[index]? with
  | none =>
    rw [hblock] at htarget
    cases htarget
  | some block =>
    rw [hblock] at htarget
    exact h.target_lt block (List.mem_of_getElem? hblock) target htarget

theorem WellFormed.closed_order {body : Body} (h : body.WellFormed) :
    Flow.Closed body.successors body.entry body.order :=
  Flow.closed_reversePostorder h.entry_lt h.successors_lt

end Body

namespace Context

open Custody.Flow (Moment Leads Sent)

variable {ctx : Context} {body : Body}

/-- Environments can be iterated over a well-formed body. They are good if they are
canonical, and rise by `Ascends`, which is transitive without a condition and lets no
change be undone. -/
theorem lawful_system (ctx : Context) (hbody : body.WellFormed) :
    Flow.Lawful (ctx.system body) body.order Env.Canonical Env.Ascends where
  run_good hstate hflow := canonical_of_mem_runIndex hstate hflow
  run_mem hblock hflow :=
    hbody.closed_order.successors_mem _ hblock _ (mem_successors_of_mem_runIndex hflow)
  join_good ha _ := ha.join
  join_self ha := Env.Ascends.below ha ha (.refl _)
  join_absorbs ha hb := Env.below_join_right ha hb
  rises_refl := .refl
  rises_trans := .trans
  rises_join ha hb := Env.ascends_join ha hb
  rises_absorbs ha hs hs' habsorbs hrises :=
    Env.Below.trans ha hs hs' habsorbs (hrises.below hs hs')

/-- The iteration over a body converges: the bindings and open regions of an entry
environment decide which references its block can add. -/
theorem exists_finitary_system (ctx : Context) (body : Body) :
    ∃ named, Flow.Finitary (ctx.system body) Env.Canonical Env.steering
      Env.steeringWeight Env.Mentions named (fun refs env => env.rank refs) := by
  choose named hnamed using ctx.exists_named_runIndex body
  refine ⟨named, Env.exists_finset_mentions, ?_, Env.mentions_of_mentions_join,
    fun _ _ => Env.steering_join _ _, ?_⟩
  · intro block env flow ref hflow href
    rcases (hnamed block env.steering env rfl flow.1 flow.2 hflow).mentions ref
      href with h | h
    · exact .inl h
    · exact .inr h
  · intro a b refs ha hb harefs hbrefs hne
    refine Env.rank_lt_of_ascends ha ha.join (Env.ascends_join ha hb)
      (fun ref href => ?_) hne
    rcases Env.mentions_of_mentions_join href with h | h
    · exact harefs ref h
    · exact hbrefs ref h

def start (ctx : Context) (body : Body) : Moment Env :=
  .start body.order body.entry ctx.entryEnv

theorem sound_start (ctx : Context) (hbody : body.WellFormed) :
    Flow.Sound (ctx.system body) body.order Env.Canonical (ctx.start body) body.entry
      (ctx.start body) :=
  .initial (canonical_entryEnv ctx) hbody.closed_order.entry_mem

theorem sound_of_leads (hbody : body.WellFormed) {moment : Moment Env}
    (h : Leads (ctx.system body) body.order (ctx.start body) moment) :
    Flow.Sound (ctx.system body) body.order Env.Canonical
      (ctx.start body) body.entry moment :=
  (ctx.sound_start hbody).leads (ctx.lawful_system hbody) h

/-!
## What an analysis is made of

The iteration and then one run of each block for the record. From here on an analysis
that succeeds is taken apart with these two equivalences.
-/

theorem entries_eq_ok_iff (hbody : body.WellFormed) {limit : Nat} {entries : FinMap Nat Env}
    {visits : Nat} :
    ctx.entries body limit = .ok (entries, visits) ↔
      ∃ last, Leads (ctx.system body) body.order (ctx.start body) ⟨last, []⟩ ∧
        last.pending.entries = [] ∧ Flow.Progress.Bounded limit last ∧
        last.entries = entries ∧ last.visits = visits :=
  Flow.solve_eq_ok_iff (ctx.lawful_system hbody) (canonical_entryEnv ctx)
    hbody.closed_order.entry_mem

theorem analyzeWithin_eq_ok_iff {limit : Nat} {outcome : Outcome} :
    ctx.analyzeWithin body limit = .ok outcome ↔
      body.WellFormed ∧ ∃ entries, ctx.entries body limit = .ok (entries, outcome.visits) ∧
        outcome.findings = ctx.record body entries ∧
        outcome.reachable = body.order.length := by
  unfold analyzeWithin
  by_cases hentry : body.blocks.length ≤ body.entry
  · rw [if_pos hentry]
    refine ⟨fun h => (nomatch h), fun ⟨hbody, _⟩ => ?_⟩
    exact absurd hbody.entry_lt (Nat.not_lt.2 hentry)
  · rw [if_neg hentry]
    cases hjump : body.badJump? with
    | some jump =>
      refine ⟨fun h => (nomatch h), fun ⟨hbody, _⟩ => ?_⟩
      rw [Body.badJump?_eq_none_iff.2 hbody.target_lt] at hjump
      cases hjump
    | none =>
      have hbody : body.WellFormed :=
        ⟨Nat.lt_of_not_le hentry, Body.badJump?_eq_none_iff.1 hjump⟩
      cases hentries : ctx.entries body limit with
      | error block => exact ⟨fun h => (nomatch h), fun ⟨_, _, h, _⟩ => (nomatch h)⟩
      | ok result =>
        obtain ⟨entries, visits⟩ := result
        constructor
        · intro h
          cases h
          exact ⟨hbody, entries, rfl, rfl, rfl⟩
        · rintro ⟨-, entries', heq, hfindings, hreachable⟩
          cases heq
          obtain ⟨findings, visits, reachable⟩ := outcome
          cases hfindings
          cases hreachable
          rfl

/-! ## Post-fixed points -/

/-- Entry environments that nothing which flows can change: what holds on entry is below
that of the entry block, and what a block sends on is below that of the block it is sent
to. In particular every block that is sent something has an entry environment. -/
structure PostFixed (ctx : Context) (body : Body) (entries : FinMap Nat Env) : Prop where
  entry : ∃ env, entries.get? body.entry = some env ∧ ctx.entryEnv.Below env
  flow : ∀ {block env}, entries.get? block = some env →
    ∀ target out, (target, out) ∈ (ctx.runIndex body block env).1 →
      ∃ env', entries.get? target = some env' ∧ out.Below env'

theorem get?_start (ctx : Context) (body : Body) :
    (ctx.start body).progress.entries.get? body.entry = some ctx.entryEnv := by
  show ((∅ : FinMap Nat Env).insert body.entry ctx.entryEnv).get? body.entry = _
  rw [FinMap.get?_insert, if_pos rfl]

theorem toList_get?_start (ctx : Context) (body : Body) (block : Nat) :
    ((ctx.start body).progress.entries.get? block).toList
      = if block = body.entry then [ctx.entryEnv] else [] := by
  show (((∅ : FinMap Nat Env).insert body.entry ctx.entryEnv).get? block).toList = _
  by_cases hblock : block = body.entry <;> simp [hblock]

theorem postFixed_of_leads (hbody : body.WellFormed) {last : Flow.Progress Env}
    (hlast : Leads (ctx.system body) body.order (ctx.start body) ⟨last, []⟩)
    (hend : last.pending.entries = []) : ctx.PostFixed body last.entries := by
  have hsound := sound_of_leads hbody hlast
  constructor
  · -- The entry block had its environment before the first step, and it only rose since.
    obtain ⟨env, henv, hrises⟩ :=
      (ctx.sound_start hbody).rises_leads (ctx.lawful_system hbody) hlast
      (ctx.get?_start body)
    exact ⟨env, henv, hrises.below (canonical_entryEnv ctx) (hsound.entries_good henv)⟩
  · intro block env henv target out hflow
    exact hsound.postFixed hend henv (target, out) hflow

/-- An entry environment that changes never comes back to what it was: on the way there
and back it would have risen, and `Ascends` is a partial order. -/
theorem get?_eq_of_returns (hbody : body.WellFormed) {a b c : Moment Env}
    (ha : Leads (ctx.system body) body.order (ctx.start body) a)
    (hab : Leads (ctx.system body) body.order a b)
    (hbc : Leads (ctx.system body) body.order b c) {block : Nat} {env : Env}
    (henv : a.progress.entries.get? block = some env)
    (hagain : c.progress.entries.get? block = some env) :
    b.progress.entries.get? block = some env := by
  have hsound := sound_of_leads hbody ha
  have hsound' := sound_of_leads hbody (ha.trans hab)
  obtain ⟨mid, hmid, hup⟩ := hsound.rises_leads (ctx.lawful_system hbody) hab henv
  obtain ⟨later, hlater, hup'⟩ := hsound'.rises_leads (ctx.lawful_system hbody) hbc hmid
  rw [hagain] at hlater
  cases hlater
  -- Up to `mid` and from there up to where it started: the order is antisymmetric.
  rw [hup.antisymm (hsound.entries_good henv) (hsound'.entries_good hmid) hup']
  exact hmid

/-- **The recorded entry environments are a post-fixed point.** What was found was found
from them; only the entry block and blocks that something was sent to have one; and on
the way there every entry environment only went up, and never came back to one it had
left. -/
theorem analyze_postFixed {outcome : Outcome} (h : ctx.analyze body = .ok outcome) :
    ∃ last, Leads (ctx.system body) body.order (ctx.start body) ⟨last, []⟩ ∧
      ctx.entries body changeLimit = .ok (last.entries, outcome.visits) ∧
      outcome.findings = ctx.record body last.entries ∧
      ctx.PostFixed body last.entries ∧
      (∀ block env, last.entries.get? block = some env →
        block = body.entry ∨
          ∃ out, Sent (ctx.system body) body.order (ctx.start body) (block, out)) ∧
      (∀ a b, Leads (ctx.system body) body.order (ctx.start body) a →
        Leads (ctx.system body) body.order a b →
        ∀ block env, a.progress.entries.get? block = some env →
          ∃ later, b.progress.entries.get? block = some later ∧ env.Below later ∧
            env.Ascends later) ∧
      (∀ a b c, Leads (ctx.system body) body.order (ctx.start body) a →
        Leads (ctx.system body) body.order a b → Leads (ctx.system body) body.order b c →
        ∀ block env, a.progress.entries.get? block = some env →
          c.progress.entries.get? block = some env →
            b.progress.entries.get? block = some env) := by
  obtain ⟨hbody, entries, hentries, hfindings, -⟩ := analyzeWithin_eq_ok_iff.1 h
  obtain ⟨last, hlast, hend, hbounded, rfl, hvisits⟩ := (entries_eq_ok_iff hbody).1 hentries
  refine ⟨last, hlast, hentries, hfindings, postFixed_of_leads hbody hlast hend, ?_, ?_, ?_⟩
  · intro block env henv
    exact (sound_of_leads hbody hlast).entries_sent henv
  · intro a b ha hab block env henv
    have hsound := sound_of_leads hbody ha
    obtain ⟨later, hlater, hrises⟩ := hsound.rises_leads (ctx.lawful_system hbody) hab henv
    have hgood := (sound_of_leads hbody (ha.trans hab)).entries_good hlater
    exact ⟨later, hlater, hrises.below (hsound.entries_good henv) hgood, hrises⟩
  · intro a b c ha hab hbc block env henv hagain
    exact get?_eq_of_returns hbody ha hab hbc henv hagain

theorem analyze_postFixed_regionLoop :
    ∃ outcome entries, (ofDecl default "unit" default).analyze .regionLoop = .ok outcome ∧
      outcome.findings = (ofDecl default "unit" default).record .regionLoop entries ∧
      (ofDecl default "unit" default).PostFixed .regionLoop entries := by
  have hok : (ofDecl default "unit" default).analyze .regionLoop
      = .ok ⟨[.overall .mergedDepths, .overall .mergedDepths, .overall .mergedDepths,
          .overall .returnsDisabled], 4, 3⟩ := by decide
  obtain ⟨last, -, -, hfindings, hpostFixed, -⟩ := analyze_postFixed hok
  exact ⟨_, last.entries, hok, hfindings, hpostFixed⟩

/-! ## Convergence -/

theorem exists_last (ctx : Context) (hbody : body.WellFormed) :
    ∃ last, Leads (ctx.system body) body.order (ctx.start body) ⟨last, []⟩ ∧
      last.pending.entries = [] := by
  obtain ⟨named, hfinitary⟩ := ctx.exists_finitary_system body
  exact Flow.exists_end (ctx.lawful_system hbody) hfinitary (ctx.sound_start hbody)

/-- **The iteration converges on every well-formed body**: there is a bound from which
on the limit plays no part in the outcome. -/
theorem analyzeWithin_converges (ctx : Context) (body : Body) (hbody : body.WellFormed) :
    ∃ bound outcome, ∀ limit, bound ≤ limit →
      ctx.analyzeWithin body limit = .ok outcome := by
  obtain ⟨last, hlast, hend⟩ := ctx.exists_last hbody
  obtain ⟨bound, hbound⟩ := Flow.Progress.exists_bounded last
  refine ⟨bound, ⟨ctx.record body last.entries, last.visits, body.order.length⟩,
    fun limit hlimit => ?_⟩
  refine analyzeWithin_eq_ok_iff.2 ⟨hbody, last.entries, ?_, rfl, rfl⟩
  exact (entries_eq_ok_iff hbody).2
    ⟨last, hlast, hend, fun block => Nat.le_trans (hbound block) hlimit, rfl, rfl⟩

theorem analyzeWithin_converges_regionLoop :
    Body.regionLoop.WellFormed ∧ ∃ bound outcome, ∀ limit, bound ≤ limit →
      (ofDecl default "unit" default).analyzeWithin .regionLoop limit = .ok outcome :=
  ⟨by decide, analyzeWithin_converges _ .regionLoop (by decide)⟩

/-!
## Giving up

The number of visits is never the reason, because the loop may make as many as the limit
on changes allows for.
-/

/-- On a well-formed body the analysis gives up exactly if, at some moment of the
iteration, the entry environment of some block has changed more often than the limit
allows. -/
theorem analyzeWithin_fails_iff (hbody : body.WellFormed) {limit : Nat} :
    (∃ error, ctx.analyzeWithin body limit = .error error) ↔
      ∃ moment block, Leads (ctx.system body) body.order (ctx.start body) moment ∧
        limit < moment.progress.count block := by
  constructor
  · rintro ⟨error, herror⟩
    -- Without a limit there is an end. If no count exceeded the limit on the way there,
    -- the iteration with the limit would have come to it.
    obtain ⟨last, hlast, hend⟩ := ctx.exists_last hbody
    by_contra hnone
    have hbounded : Flow.Progress.Bounded limit last :=
      fun block => Nat.le_of_not_lt fun hlt => hnone ⟨_, block, hlast, hlt⟩
    have hok := analyzeWithin_eq_ok_iff.2 ⟨hbody, last.entries,
      (entries_eq_ok_iff hbody).2 ⟨last, hlast, hend, hbounded, rfl, rfl⟩,
      (rfl : (⟨ctx.record body last.entries, last.visits, body.order.length⟩ :
        Outcome).findings = _), rfl⟩
    rw [herror] at hok
    cases hok
  · rintro ⟨moment, block, hmoment, hlt⟩
    cases hwithin : ctx.analyzeWithin body limit with
    | error error => exact ⟨error, rfl⟩
    | ok outcome =>
      obtain ⟨-, entries, hentries, -⟩ := analyzeWithin_eq_ok_iff.1 hwithin
      obtain ⟨last, hlast, hend, hbounded, -⟩ := (entries_eq_ok_iff hbody).1 hentries
      -- Every moment lies before the end, and counts never go down.
      have hrest := hmoment.to_end hlast (Moment.next_eq_none_iff.2 ⟨rfl, hend⟩)
      exact absurd (Nat.lt_of_lt_of_le hlt (Flow.count_le_of_leads hrest block))
        (Nat.not_lt.2 (hbounded block))

end Context

end Custody
