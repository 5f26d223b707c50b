import Custody.Proofs.Analysis.Fixpoint
import Custody.Proofs.Flow.Arrivals

/-!
# What is left of transient states

Findings are recorded from the last entry environments alone. These are not a function
of what flows at the end: each is the join of all that its block has received
(`Flow.Receives.get?_entries`), and that includes what blocks sent on from entry
environments they no longer have. Mostly this makes no difference, since what a block
sends on later covers what it sent before. It does make one when a block on a loop loses
what it knew of a pointer: from then on it names another capability.

`analyze_state_eq_iff` says exactly when a state is the join of what flows at the end,
and `analyze_keeps_transient` is a function for which it is not. Which of its two arms
is written first decides whether anything is found in it.

The comparison is made for the state of one capability at a time. A join of environments
is pointwise in the states (`Flow.joinAll_map`), and states have few values and one that
absorbs all others: if the join over everything that was received differs from the join
over what flows at the end, it is `unknown`. So a transient state never leaves a hold
behind. It can only make the analysis uncertain, which may be enough for a report.

What was received is a record of the whole run, and cannot be computed from the result.
What flows at the end can (`sentFrom`), and the theorem has it as a part of the record.
-/

set_option autoImplicit false

namespace Custody

namespace HeldState

theorem absorbs_trans {a b c : HeldState} (hab : a.join b = a) (hbc : b.join c = b) :
    a.join c = a := by
  cases a <;> cases b <;> cases c <;> revert hab hbc <;> decide

theorem absorbs_antisymm {a b : HeldState} (hab : a.join b = a) (hba : b.join a = b) :
    a = b := by
  cases a <;> cases b <;> revert hab hba <;> decide

theorem join_absorbs_left (a b : HeldState) : (a.join b).join a = a.join b := by
  cases a <;> cases b <;> decide

theorem join_absorbs_right (a b : HeldState) : (a.join b).join b = a.join b := by
  cases a <;> cases b <;> decide

theorem absorbs_join {a b c : HeldState} (hab : a.join b = a) (hac : a.join c = a) :
    a.join (b.join c) = a := by
  cases a <;> cases b <;> cases c <;> revert hab hac <;> decide

theorem absorbs_of_joinAll {states : List HeldState} {all : HeldState}
    (h : Flow.joinAll join states = some all) : ∀ state ∈ states, all.join state = all := by
  cases states with
  | nil => cases h
  | cons first rest =>
    cases h
    have hfold : ∀ (rest : List HeldState) (first : HeldState), ∀ state ∈ first :: rest,
        (rest.foldl join first).join state = rest.foldl join first := by
      intro rest
      induction rest with
      | nil => simp
      | cons second rest ih =>
        intro first state hstate
        have hstep := ih (first.join second)
        have hjoin := hstep _ List.mem_cons_self
        rcases List.mem_cons.1 hstate with rfl | hstate
        · exact absorbs_trans hjoin (join_absorbs_left state second)
        · rcases List.mem_cons.1 hstate with rfl | hstate
          · exact absorbs_trans hjoin (join_absorbs_right first state)
          · exact hstep state (List.mem_cons_of_mem _ hstate)
    exact hfold rest first

theorem joinAll_absorbed {states : List HeldState} {all bound : HeldState}
    (h : Flow.joinAll join states = some all)
    (hbound : ∀ state ∈ states, bound.join state = bound) :
    bound.join all = bound := by
  cases states with
  | nil => cases h
  | cons first rest =>
    cases h
    obtain ⟨hfirst, hrest⟩ := List.forall_mem_cons.1 hbound
    exact List.foldlRecOn (motive := fun state => bound.join state = bound) rest join hfirst
      fun state hstate other hother => absorbs_join hstate (hrest other hother)

/-- More states to join make no difference exactly if they add nothing. The states are
compared as sets, since a join of states does not depend on their order. -/
theorem joinAll_eq_iff_of_subset {fewer states : List HeldState} {part all : HeldState}
    (hsubset : fewer ⊆ states) (hpart : Flow.joinAll join fewer = some part)
    (hall : Flow.joinAll join states = some all) :
    all = part ↔ ∀ state ∈ states, part.join state = part := by
  constructor
  · rintro rfl
    exact absorbs_of_joinAll hall
  · intro habsorbs
    refine absorbs_antisymm ?_ (joinAll_absorbed hall habsorbs)
    exact joinAll_absorbed hpart fun state hstate =>
      absorbs_of_joinAll hall state (hsubset hstate)

end HeldState

namespace Context

open Custody.Flow (Receives arrivals joinAll)

variable {ctx : Context} {body : Body}

/-- What comes into a block when all of `flows` flow: that, and what holds on entry if
it is the entry. -/
def feeds (ctx : Context) (body : Body) (flows : List (Nat × Env)) (block : Nat) :
    List Env :=
  (if block = body.entry then [ctx.entryEnv] else []) ++ arrivals block flows

/-- All that the blocks send on from given entry environments. For those of the fixed
point this is what arrives in the end, without what was sent and later taken back. -/
def sentFrom (ctx : Context) (body : Body) (entries : FinMap Nat Env) : List (Nat × Env) :=
  (List.range body.blocks.length).flatMap fun block =>
    match entries.get? block with
    | some env => (ctx.runIndex body block env).1
    | none => []

theorem mem_sentFrom {entries : FinMap Nat Env} {flow : Nat × Env} :
    flow ∈ ctx.sentFrom body entries ↔
      ∃ block env, entries.get? block = some env ∧
        flow ∈ (ctx.runIndex body block env).1 := by
  constructor
  · intro hflow
    obtain ⟨block, -, hflow⟩ := List.mem_flatMap.1 hflow
    split at hflow
    · rename_i env henv
      exact ⟨block, env, henv, hflow⟩
    · cases hflow
  · rintro ⟨block, env, henv, hflow⟩
    refine List.mem_flatMap.2 ⟨block, List.mem_range.2 ?_, by simpa [henv] using hflow⟩
    -- A block that does not exist sends nothing on.
    unfold runIndex at hflow
    split at hflow
    · rename_i hblock
      exact (List.getElem?_eq_some_iff.1 hblock).1
    · cases hflow

theorem feeds_subset {flows more : List (Nat × Env)} (h : flows ⊆ more) (block : Nat) :
    ctx.feeds body flows block ⊆ ctx.feeds body more block := by
  intro env henv
  simp only [feeds, List.mem_append, Flow.mem_arrivals] at henv ⊢
  exact henv.imp_right fun hflow => h hflow

def joinedState (envs : List Env) (ref : Ref) : Option HeldState :=
  joinAll HeldState.join (envs.map (·.state ref))

/-- **What is known of a capability on entry to a block is the join of all that the
block received.** -/
theorem joinedState_feeds {log : List (Nat × Env)} {last : Flow.Progress Env}
    (h : Receives (ctx.system body) body.order (ctx.start body) log ⟨last, []⟩)
    {block : Nat} {env : Env} (henv : last.entries.get? block = some env) (ref : Ref) :
    joinedState (ctx.feeds body log block) ref = some (env.state ref) := by
  have hentry := h.get?_entries block
  rw [toList_get?_start] at hentry
  have hjoined : joinAll Env.join (ctx.feeds body log block) = some env := by
    rw [feeds]
    exact hentry.symm.trans henv
  rw [joinedState, Flow.joinAll_map fun a b => Env.state_join a b ref, hjoined]
  rfl

/-- **When transient states leave no trace.** The findings are those of the last entry
environments. The state of a capability in one of them is the join of its states in all
that the block has received. It is the join over what flows into the block at the end
exactly if this join absorbs all else that was received, and otherwise nothing is known
of the capability. -/
theorem analyze_state_eq_iff {outcome : Outcome} (h : ctx.analyze body = .ok outcome) :
    ∃ log last, Receives (ctx.system body) body.order (ctx.start body) log ⟨last, []⟩ ∧
      ctx.entries body changeLimit = .ok (last.entries, outcome.visits) ∧
      outcome.findings = ctx.record body last.entries ∧
      ctx.sentFrom body last.entries ⊆ log ∧
      ∀ block env, last.entries.get? block = some env → ∀ ref,
        joinedState (ctx.feeds body log block) ref = some (env.state ref) ∧
        ∀ state,
          joinedState (ctx.feeds body (ctx.sentFrom body last.entries) block) ref
            = some state →
          (env.state ref = state ↔
            ∀ received ∈ ctx.feeds body log block,
              state.join (received.state ref) = state) ∧
          (env.state ref ≠ state → env.state ref = .unknown) := by
  obtain ⟨hbody, entries, hentries, hfindings, -⟩ := analyzeWithin_eq_ok_iff.1 h
  obtain ⟨last, hlast, hend, -, rfl, -⟩ := (entries_eq_ok_iff hbody).1 hentries
  obtain ⟨log, hlog⟩ := hlast.exists_receives
  have hsubset : ctx.sentFrom body last.entries ⊆ log := by
    intro flow hflow
    obtain ⟨block, env, henv, hflow⟩ := mem_sentFrom.1 hflow
    exact hlog.mem_of_end (ctx.lawful_system hbody) (canonical_entryEnv ctx)
      hbody.closed_order.entry_mem hend henv flow hflow
  refine ⟨log, last, hlog, hentries, hfindings, hsubset, fun block env henv ref => ?_⟩
  have hall := joinedState_feeds hlog henv ref
  refine ⟨hall, fun state hstate => ?_⟩
  -- What the blocks send in the end is part of what was ever received, so the state can
  -- only be less certain than it would be from this part.
  have hstates : (ctx.feeds body (ctx.sentFrom body last.entries) block).map (·.state ref)
      ⊆ (ctx.feeds body log block).map (·.state ref) :=
    List.map_subset _ (feeds_subset hsubset block)
  refine ⟨by simpa using HeldState.joinAll_eq_iff_of_subset hstates hstate hall,
    fun hne => ?_⟩
  have habsorbs := HeldState.joinAll_absorbed hstate fun other hother =>
    HeldState.absorbs_of_joinAll hall other (hstates hother)
  exact (HeldState.join_eq_left_iff.1 habsorbs).resolve_left hne

def rebindDecl : FunctionDecl :=
  { (default : FunctionDecl) with
    name := "probe"
    locals := [⟨"a", "spinlock_t"⟩, ⟨"b", "spinlock_t"⟩, ⟨"p", "spinlock_t *"⟩] }

/-- A loop that sets the pointer to the other lock, and after it the lock pointed to is
acquired and released. The arms of the branch are for going around and for leaving. -/
def rebindBody (arms : Nat × Nat) : Body :=
  ⟨0, [⟨[.simple none (.assign "p" "&a")], .goto 1⟩,
    ⟨[], .branch .unknown arms.1 arms.2⟩,
    ⟨[.simple none (.assign "p" "&b")], .goto 1⟩,
    ⟨[.simple none (.call "__acquire" ["p"] none)], .goto 4⟩,
    ⟨[.simple none (.call "__release" ["p"] none)], .leave none⟩]⟩

theorem state_rebindBody :
    ∃ entries visits env,
      (ofDecl default "unit" rebindDecl).entries (rebindBody (2, 3)) changeLimit =
        .ok (entries, visits) ∧
      entries.get? 4 = some env ∧ env.state (.var "a") = .unknown ∧
      joinedState ((ofDecl default "unit" rebindDecl).feeds (rebindBody (2, 3))
          ((ofDecl default "unit" rebindDecl).sentFrom (rebindBody (2, 3)) entries) 4)
        (.var "a") = some .notHeld := by
  have hrun :
      (((ofDecl default "unit" rebindDecl).entries
          (rebindBody (2, 3)) changeLimit).toOption.bind
        fun result => (result.1.get? 4).map fun env =>
          (env.state (.var "a"),
            joinedState ((ofDecl default "unit" rebindDecl).feeds (rebindBody (2, 3))
              ((ofDecl default "unit" rebindDecl).sentFrom (rebindBody (2, 3)) result.1) 4)
              (.var "a")))
        = some (.unknown, some .notHeld) := by decide +kernel
  obtain ⟨⟨entries, visits⟩, hentries, hstates⟩ := Option.bind_eq_some_iff.1 hrun
  obtain ⟨env, henv, hstates⟩ := Option.map_eq_some_iff.1 hstates
  obtain ⟨hstate, hjoined⟩ := Prod.mk.inj hstates
  refine ⟨entries, visits, env, ?_, henv, hstate, hjoined⟩
  cases hresult :
      (ofDecl default "unit" rebindDecl).entries (rebindBody (2, 3)) changeLimit with
  | error block =>
    rw [hresult] at hentries
    cases hentries
  | ok result =>
    rw [hresult] at hentries
    cases hentries
    rfl

/-- The last block was once told that `a` may be held, and is not at the end. -/
theorem analyze_state_eq_iff_rebindBody :
    ∃ outcome log last, (ofDecl default "unit" rebindDecl).analyze (rebindBody (2, 3)) =
      .ok outcome ∧
      Receives ((ofDecl default "unit" rebindDecl).system (rebindBody (2, 3)))
        (rebindBody (2, 3)).order
        ((ofDecl default "unit" rebindDecl).start (rebindBody (2, 3))) log ⟨last, []⟩ ∧
      ∃ received ∈ (ofDecl default "unit" rebindDecl).feeds (rebindBody (2, 3)) log 4,
        received.state (.var "a") ≠ .notHeld := by
  have hok : (ofDecl default "unit" rebindDecl).analyze (rebindBody (2, 3))
      = .ok ⟨[⟨some ⟨4, 1, none⟩, .leaked "probe" (.var "a") .unknown, ""⟩], 9, 5⟩ := by
    decide +kernel
  obtain ⟨log, last, hlog, hentries, -, -, hstates⟩ := analyze_state_eq_iff hok
  obtain ⟨entries, visits, env, hentries', henv, hunknown, hjoined⟩ := state_rebindBody
  rw [hentries] at hentries'
  cases hentries'
  obtain ⟨hiff, -⟩ := (hstates 4 env henv (.var "a")).2 .notHeld hjoined
  rw [hunknown] at hiff
  refine ⟨_, log, last, hok, hlog, ?_⟩
  by_contra hnone
  refine absurd (hiff.2 fun received hreceived => ?_) (by decide)
  have hstate : received.state (.var "a") = .notHeld := by
    by_contra hne
    exact hnone ⟨received, hreceived, hne⟩
  rw [hstate]
  rfl

/-- **A transient state shows.** On entry to the last block nothing is known of `a`,
which is not held in any of what flows there at the end. A leak is found for it, and
with the arms of the branch written the other way round nothing is. -/
theorem analyze_keeps_transient :
    (∃ entries visits env,
      (ofDecl default "unit" rebindDecl).entries (rebindBody (2, 3)) changeLimit =
        .ok (entries, visits) ∧
      entries.get? 4 = some env ∧ env.state (.var "a") = .unknown ∧
      joinedState ((ofDecl default "unit" rebindDecl).feeds (rebindBody (2, 3))
          ((ofDecl default "unit" rebindDecl).sentFrom (rebindBody (2, 3)) entries) 4)
        (.var "a") = some .notHeld) ∧
    (ofDecl default "unit" rebindDecl).analyze (rebindBody (2, 3))
      = .ok ⟨[⟨some ⟨4, 1, none⟩, .leaked "probe" (.var "a") .unknown, ""⟩], 9, 5⟩ ∧
    (ofDecl default "unit" rebindDecl).analyze (rebindBody (3, 2)) = .ok ⟨[], 7, 5⟩ :=
  ⟨state_rebindBody, by decide +kernel, by decide +kernel⟩

end Context

end Custody
