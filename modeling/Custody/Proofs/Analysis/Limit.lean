import Custody.Proofs.Analysis.Fixpoint

/-!
# What the limit on changes costs

The iteration would end on its own (`Context.analyzeWithin_converges`). It is cut off
where one entry environment has changed more than `changeLimit` times, and this is the
only way in which a well-formed body can fail (`Context.analyzeWithin_fails_iff`).

It does happen, at any limit and to any function (`Context.exists_wellFormed_fails`). On
a flight of `stairs` the number of open regions goes down by one with each step, and
each step has a way out to the same last block. What is known there changes once for
every step, though there is not even a loop.

## Why regions

An entry environment can also change because a capability becomes uncertain or a binding
is lost. But each reference and each local changes only a few times, so that many
changes need many of them, with declarations and types to go with them. The number of
open regions is a single number that a join lowers to the smaller one; a body can set it
as high as it likes, and it depends on nothing else. That makes it the shortest way, and
one that works for every function.

## Why the visiting order is not computed

What is counted is changes of the entry environment, and these come with the steps,
however often the last block itself is run in between. So `Stage` leaves open when it
is: it says that nothing waits but the next step and perhaps the last block, and that
the count of changes of the last block has kept up with the steps.
-/

set_option autoImplicit false

namespace Custody

namespace Body

/-- The blocks of a flight of stairs: regions are opened, then closed one at a time.
From each step it is on to the next one or out to the last block. -/
def stair (height : Nat) : Nat → Block
  | 0 => ⟨List.replicate height (.simple none .suppressBegin), .goto 1⟩
  | index + 1 =>
    if index < height then
      ⟨[.simple none .suppressEnd], .branch .unknown (height + 1) (index + 2)⟩
    else ⟨[], .unreachable⟩

def stairs (height : Nat) : Body := ⟨0, (List.range (height + 2)).map (stair height)⟩

theorem getElem?_stairs {height index : Nat} (h : index < height + 2) :
    (stairs height).blocks[index]? = some (stair height index) := by
  simp [stairs, h]

theorem stair_step {height index : Nat} (hpos : 0 < index) (hle : index ≤ height) :
    stair height index
      = ⟨[.simple none .suppressEnd], .branch .unknown (height + 1) (index + 1)⟩ := by
  cases index with
  | zero => exact absurd hpos (Nat.lt_irrefl 0)
  | succ index => exact if_pos hle

theorem stair_last (height : Nat) : stair height (height + 1) = ⟨[], .unreachable⟩ :=
  if_neg (Nat.lt_irrefl height)

theorem wellFormed_stairs (height : Nat) : (stairs height).WellFormed := by
  have hlength : (stairs height).blocks.length = height + 2 := by simp [stairs]
  refine ⟨by rw [hlength]; exact Nat.zero_lt_succ _, fun block hblock target htarget => ?_⟩
  rw [hlength]
  obtain ⟨index, hindex, rfl⟩ := List.mem_map.1 hblock
  have hlt := List.mem_range.1 hindex
  cases index with
  | zero =>
    cases List.mem_singleton.1 htarget
    omega
  | succ index =>
    by_cases hle : index + 1 ≤ height
    · rw [stair_step (Nat.zero_lt_succ _) hle] at htarget
      rcases List.mem_cons.1 htarget with rfl | htarget
      · omega
      · cases List.mem_singleton.1 htarget
        omega
    · obtain rfl : index = height := by omega
      rw [stair_last] at htarget
      cases htarget

end Body

namespace Context

open Custody.Flow (Moment Leads Progress)
open Body (stairs stair)

variable {ctx : Context} {height : Nat}

/-! ## Running the blocks -/

theorem suppression_runFrom_replicate (ctx : Context) (block count : Nat) (index : Nat)
    (env : Env) :
    (ctx.runFrom block index env
      (List.replicate count (.simple none .suppressBegin))).1.suppression
      = env.suppression + count := by
  induction count generalizing index env with
  | zero => rfl
  | succ count ih =>
    rw [List.replicate_succ]
    show (ctx.runFrom block (index + 1) env.enterRegion
      (List.replicate count (.simple none .suppressBegin))).1.suppression = _
    rw [ih]
    show env.suppression + 1 + count = _
    omega

theorem run_stairs_zero (ctx : Context) (height : Nat) (env : Env) :
    ∃ out, (ctx.system (stairs height)).run 0 env = [(1, out)] ∧
      out.suppression = env.suppression + height := by
  refine ⟨(ctx.runFrom 0 0 env (List.replicate height (.simple none .suppressBegin))).1, ?_,
    suppression_runFrom_replicate ctx 0 height 0 env⟩
  show (ctx.runIndex (stairs height) 0 env).1 = _
  unfold runIndex
  rw [Body.getElem?_stairs (Nat.zero_lt_succ _)]
  rfl

theorem run_stairs_step {index : Nat} (hpos : 0 < index) (hle : index ≤ height) {env : Env}
    (henv : 0 < env.suppression) :
    ∃ out,
      (ctx.system (stairs height)).run index env = [(height + 1, out), (index + 1, out)] ∧
      out.suppression + 1 = env.suppression := by
  obtain ⟨depth, hdepth⟩ : ∃ depth, env.suppression = depth + 1 :=
    ⟨env.suppression - 1, by omega⟩
  refine ⟨{ env with suppression := depth }, ?_, hdepth.symm⟩
  have hleave : env.leaveRegion? = some { env with suppression := depth } := by
    unfold Env.leaveRegion?
    rw [hdepth]
  show (ctx.runIndex (stairs height) index env).1 = _
  unfold runIndex
  rw [Body.getElem?_stairs (by omega), Body.stair_step hpos hle]
  simp [runBlock, runFrom, runStmt, runAction, Action.marker?, runMarker, hleave,
    flowsFrom, branch]

theorem run_stairs_last (ctx : Context) (height : Nat) (env : Env) :
    (ctx.system (stairs height)).run (height + 1) env = [] := by
  show (ctx.runIndex (stairs height) (height + 1) env).1 = _
  unfold runIndex
  rw [Body.getElem?_stairs (Nat.lt_succ_self _), Body.stair_last]
  rfl

theorem suppression_entryEnv (ctx : Context) : ctx.entryEnv.suppression = 0 :=
  congrArg Prod.snd
    (Env.answer_foldl Env.steering (fun env _ _ => env.steering_set _ _) .empty)

/-! ## Going down -/

/-- The iteration where step `index` is to be run next, but for the last block, which
may wait as well. The number of regions is known on the next step and bounded from below
in the last block, so that what comes from the next step is lower and changes it. -/
structure Stage (ctx : Context) (height index : Nat) (progress : Progress Env) : Prop where
  reached : Leads (ctx.system (stairs height)) (stairs height).order
    (ctx.start (stairs height)) ⟨progress, []⟩
  env : ∃ env, progress.entries.get? index = some env ∧ env.suppression + index = height + 1
  waits : progress.pending.get? ((stairs height).order.idxOf index) = some ()
  waits_only : ∀ position, progress.pending.get? position = some () →
    position = (stairs height).order.idxOf index ∨
      position = (stairs height).order.idxOf (height + 1)
  last : ∀ env, progress.entries.get? (height + 1) = some env →
    height + 1 ≤ env.suppression + index
  ahead : ∀ later, index < later → later ≤ height → progress.entries.get? later = none
  changes : index ≤ progress.count (height + 1) + 1

theorem last_mem_order (hheight : 0 < height) : height + 1 ∈ (stairs height).order := by
  have hclosed := (Body.wellFormed_stairs height).closed_order
  have hone : 1 ∈ (stairs height).order := by
    refine hclosed.successors_mem 0 hclosed.entry_mem 1 ?_
    unfold Body.successors
    rw [Body.getElem?_stairs (Nat.zero_lt_succ _)]
    exact List.mem_singleton.2 rfl
  refine hclosed.successors_mem 1 hone (height + 1) ?_
  unfold Body.successors
  rw [Body.getElem?_stairs (by omega), Body.stair_step Nat.one_pos hheight]
  exact List.mem_cons_self

namespace Stage

variable {index : Nat} {progress : Progress Env}

theorem sound (h : Stage ctx height index progress) :
    Flow.Sound (ctx.system (stairs height)) (stairs height).order Env.Canonical
      (ctx.start (stairs height)) (stairs height).entry ⟨progress, []⟩ :=
  sound_of_leads (Body.wellFormed_stairs height) h.reached

theorem idxOf_ne (h : Stage ctx height index progress) (hpos : 0 < index)
    (hle : index ≤ height) :
    (stairs height).order.idxOf index ≠ (stairs height).order.idxOf (height + 1) := by
  intro heq
  obtain ⟨env, henv, -⟩ := h.env
  have hindex := Flow.getD_idxOf (h.sound.entries_mem henv)
  rw [heq, Flow.getD_idxOf (last_mem_order (Nat.lt_of_lt_of_le hpos hle))] at hindex
  omega

/-- If the last block waits in front, it is run, and nothing comes of it: it has no
successors. The stage is the same as before, with one block less that waits. -/
theorem runLast (h : Stage ctx height index progress) (hpos : 0 < index)
    (hle : index ≤ height) {rest : List (Nat × Unit)}
    (hpending :
      progress.pending.entries = ((stairs height).order.idxOf (height + 1), ()) :: rest) :
    Stage ctx height index
      (progress.unwait ((stairs height).order.idxOf (height + 1))).visited := by
  have hlast := Flow.getD_idxOf (last_mem_order (Nat.lt_of_lt_of_le hpos hle))
  obtain ⟨env, henv⟩ := h.sound.awaited _
    (FinMap.get?_eq_some_iff.2 (by rw [hpending]; exact List.mem_cons_self))
  have hvisit : Leads (ctx.system (stairs height)) (stairs height).order ⟨progress, []⟩ _ :=
    Flow.leads_visit hpending henv
  rw [hlast, run_stairs_last] at hvisit
  have hget : ∀ position, (progress.unwait
      ((stairs height).order.idxOf (height + 1))).visited.pending.get? position
        = if position = (stairs height).order.idxOf (height + 1) then none
          else progress.pending.get? position :=
    fun position => FinMap.get?_erase _ _ _
  refine ⟨h.reached.trans hvisit, h.env, ?_, ?_, h.last, h.ahead, h.changes⟩
  · rw [hget, if_neg (h.idxOf_ne hpos hle)]
    exact h.waits
  · intro position hposition
    rw [hget] at hposition
    split at hposition
    · cases hposition
    · exact h.waits_only position hposition

theorem exists_front (h : Stage ctx height index progress) (hpos : 0 < index)
    (hle : index ≤ height) :
    ∃ front rest, Stage ctx height index front ∧
      front.pending.entries = ((stairs height).order.idxOf index, ()) :: rest := by
  have hhead : ∀ {progress}, Stage ctx height index progress → ∃ position rest,
      progress.pending.entries = (position, ()) :: rest ∧
        (position = (stairs height).order.idxOf index ∨
          position = (stairs height).order.idxOf (height + 1)) := by
    intro progress h
    have hwaits := FinMap.get?_eq_some_iff.1 h.waits
    cases hpending : progress.pending.entries with
    | nil =>
      rw [hpending] at hwaits
      cases hwaits
    | cons head rest =>
      exact ⟨head.1, rest, rfl, h.waits_only head.1
        (FinMap.get?_eq_some_iff.2 (by rw [hpending]; exact List.mem_cons_self))⟩
  obtain ⟨position, rest, hpending, rfl | rfl⟩ := hhead h
  · exact ⟨progress, rest, h, hpending⟩
  · have hnext := h.runLast hpos hle hpending
    obtain ⟨position, rest', hpending', rfl | rfl⟩ := hhead hnext
    · exact ⟨_, rest', hnext, hpending'⟩
    · -- The last block has just been taken off.
      have hwaits : (progress.pending.erase ((stairs height).order.idxOf (height + 1))).get?
          ((stairs height).order.idxOf (height + 1)) = some () :=
        FinMap.get?_eq_some_iff.2 (by
          show _ ∈ (progress.unwait _).visited.pending.entries
          rw [hpending']
          exact List.mem_cons_self)
      rw [FinMap.get?_erase, if_pos rfl] at hwaits
      cases hwaits

/-- What the last block is told from a step is news to it. The number of open regions
that it knows is larger, and a join lowers it. -/
theorem receive_last {index : Nat} {progress : Progress Env} {out : Env}
    (hlast : ∀ env, progress.entries.get? (height + 1) = some env →
      height + 1 ≤ env.suppression + index)
    (hout : out.suppression + index = height) :
    ∃ env, progress.receive Env.join (stairs height).order (height + 1) out
        = progress.enter (stairs height).order (height + 1) env ∧
      env.suppression = out.suppression := by
  rcases progress.receive_cases Env.join (stairs height).order (height + 1) out with
    ⟨-, heq⟩ | ⟨old, hold, ⟨hjoin, -⟩ | ⟨-, heq⟩⟩
  · exact ⟨out, heq, rfl⟩
  · -- The old environment has more regions open than `out`, so a join has to change it.
    have hdeeper := hlast old hold
    have hmin : min old.suppression out.suppression = old.suppression :=
      congrArg Env.suppression hjoin
    omega
  · have hdeeper := hlast old hold
    refine ⟨old.join out, heq, ?_⟩
    show min old.suppression out.suppression = out.suppression
    omega

/-- The step is run, and the last block told: once more something has changed there.
What the step sends to the next one is still on its way. -/
theorem runStep (h : Stage ctx height index progress) (hpos : 0 < index)
    (hle : index ≤ height) :
    ∃ mid out, Leads (ctx.system (stairs height)) (stairs height).order
      (ctx.start (stairs height))
        ⟨mid, [(index + 1, out)]⟩ ∧
      out.suppression + index = height ∧
      (∀ env, mid.entries.get? (height + 1) = some env →
        env.suppression = out.suppression) ∧
      (∀ later, index < later → later ≤ height → mid.entries.get? later = none) ∧
      (∀ position, mid.pending.get? position = some () →
        position = (stairs height).order.idxOf (height + 1)) ∧
      index ≤ mid.count (height + 1) := by
  obtain ⟨front, rest, hfront, hpending⟩ := h.exists_front hpos hle
  obtain ⟨entry, hentry, hdepth⟩ := hfront.env
  have hopen : 0 < entry.suppression := by omega
  obtain ⟨out, hrun, hout⟩ := run_stairs_step hpos hle hopen
  have hdown : out.suppression + index = height := by omega
  have hindex := Flow.getD_idxOf (hfront.sound.entries_mem hentry)
  have hnext :
      Moment.next (ctx.system (stairs height)) (stairs height).order ⟨front, []⟩ = _ :=
    Flow.next_take hpending (by rw [hindex]; exact hentry)
  rw [hindex, hrun] at hnext
  have hlast : ∀ env,
      (front.unwait ((stairs height).order.idxOf index)).visited.entries.get? (height + 1)
        = some env → height + 1 ≤ env.suppression + index := hfront.last
  obtain ⟨env, henv, hsame⟩ := receive_last hlast hdown
  -- Out comes before on, so the last block is told while the next step still is on its
  -- way.
  have hreached :
      Leads (ctx.system (stairs height)) (stairs height).order
        (ctx.start (stairs height)) ⟨_, [(index + 1, out)]⟩ :=
    hfront.reached.trans (.head hnext (.head rfl (.refl _)))
  rw [show (ctx.system (stairs height)).join = Env.join from rfl, henv] at hreached
  refine ⟨_, out, hreached, hdown, ?_, ?_, ?_, ?_⟩
  · intro env' henv'
    rw [Progress.get?_enter, if_pos rfl] at henv'
    cases henv'
    exact hsame
  · intro later hlater hle'
    rw [Progress.get?_enter, if_neg (by omega)]
    exact hfront.ahead later hlater hle'
  · intro position hposition
    rw [Progress.waits_enter] at hposition
    split at hposition
    · assumption
    · have herase :
          (front.pending.erase ((stairs height).order.idxOf index)).get? position =
            some () :=
        hposition
      rw [FinMap.get?_erase] at herase
      split at herase
      · cases herase
      · rename_i hne
        exact (hfront.waits_only position herase).resolve_left hne
  · rw [Progress.count_enter, if_pos rfl]
    exact hfront.changes

/-- **One step down.** The step is run, what it sends to the next one is received as its
first environment, and the stage is set again, one step further on. -/
theorem step (h : Stage ctx height index progress) (hpos : 0 < index)
    (hlt : index < height) :
    ∃ after, Stage ctx height (index + 1) after := by
  obtain ⟨mid, out, hmid, hdown, hlast, hahead, hwaits, hchanges⟩ :=
    h.runStep hpos (Nat.le_of_lt hlt)
  have hne : height + 1 ≠ index + 1 := by omega
  -- The next step was not told anything before, so it takes over what it is told now.
  have henter :
      mid.receive (ctx.system (stairs height)).join (stairs height).order
        (index + 1) out
        = mid.enter (stairs height).order (index + 1) out := by
    unfold Progress.receive
    rw [hahead _ (Nat.lt_succ_self _) hlt]
  have hreceive := Flow.leads_receive (ctx.system (stairs height)) (stairs height).order mid
    [(index + 1, out)]
  rw [List.foldl_cons, List.foldl_nil, henter] at hreceive
  refine ⟨_, hmid.trans hreceive, ⟨out, ?_, by omega⟩, ?_, ?_, ?_, ?_, ?_⟩
  · rw [Progress.get?_enter, if_pos rfl]
  · rw [Progress.waits_enter, if_pos rfl]
  · intro position hposition
    rw [Progress.waits_enter] at hposition
    split at hposition
    · exact .inl ‹_›
    · exact .inr (hwaits position hposition)
  · intro env henv
    rw [Progress.get?_enter, if_neg hne] at henv
    have hsame := hlast env henv
    omega
  · intro later hlater hle
    rw [Progress.get?_enter, if_neg (by omega)]
    exact hahead later (by omega) hle
  · rw [Progress.count_enter, if_neg hne]
    omega

end Stage

theorem exists_stage_one (ctx : Context) (hheight : 0 < height) :
    ∃ progress, Stage ctx height 1 progress := by
  -- One visit, of the block that opens the regions. Nothing else waits or has an
  -- environment before it, so all of the stage can be read off that visit.
  obtain ⟨out, hrun, hout⟩ := ctx.run_stairs_zero height ctx.entryEnv
  rw [suppression_entryEnv] at hout
  have hzero : (stairs height).order.getD ((stairs height).order.idxOf 0) 0 = 0 :=
    Flow.getD_idxOf (Body.wellFormed_stairs height).closed_order.entry_mem
  have hpending : (ctx.start (stairs height)).progress.pending.entries
      = [((stairs height).order.idxOf 0, ())] := rfl
  have hvisit :
      Leads (ctx.system (stairs height)) (stairs height).order
        (ctx.start (stairs height)) _ :=
    Flow.leads_visit hpending (by rw [hzero]; exact ctx.get?_start (stairs height))
  rw [hzero, hrun, List.foldl_cons, List.foldl_nil] at hvisit
  have hget : ∀ block, block ≠ 0 →
      ((ctx.start (stairs height)).progress.unwait
        ((stairs height).order.idxOf 0)).visited.entries.get? block = none := by
    intro block hblock
    show ((∅ : FinMap Nat Env).insert 0 ctx.entryEnv).get? block = none
    rw [FinMap.get?_insert, if_neg hblock]
    rfl
  have hwaits : ∀ position,
      ((ctx.start (stairs height)).progress.unwait
        ((stairs height).order.idxOf 0)).visited.pending.get? position = none := by
    intro position
    show (((∅ : FinMap Nat Unit).insert ((stairs height).order.idxOf 0) ()).erase
      ((stairs height).order.idxOf 0)).get? position = none
    rw [FinMap.get?_erase]
    split
    · rfl
    · rename_i hne
      rw [FinMap.get?_insert, if_neg hne]
      rfl
  unfold Progress.receive at hvisit
  rw [hget 1 Nat.one_ne_zero] at hvisit
  refine ⟨_, hvisit, ⟨out, ?_, by omega⟩, ?_, ?_, ?_, ?_, Nat.le_add_left _ _⟩
  · rw [Progress.get?_enter, if_pos rfl]
  · rw [Progress.waits_enter, if_pos rfl]
  · intro position hposition
    rw [Progress.waits_enter, hwaits] at hposition
    split at hposition
    · exact .inl ‹_›
    · cases hposition
  · intro env henv
    rw [Progress.get?_enter, if_neg (by omega), hget _ (Nat.succ_ne_zero _)] at henv
    cases henv
  · intro later hlater hle
    rw [Progress.get?_enter, if_neg (by omega)]
    exact hget later (by omega)

theorem exists_stage (ctx : Context) {index : Nat} (hpos : 0 < index)
    (hle : index ≤ height) :
    ∃ progress, Stage ctx height index progress := by
  induction index with
  | zero => exact absurd hpos (Nat.lt_irrefl 0)
  | succ index ih =>
    cases index with
    | zero => exact exists_stage_one ctx hle
    | succ index =>
      obtain ⟨progress, hstage⟩ := ih (Nat.zero_lt_succ _) (Nat.le_of_lt hle)
      exact hstage.step (Nat.zero_lt_succ _) hle

/-- **Whatever the limit, there is a well-formed body that is given up on**: the stairs
with one step more than the limit. -/
theorem exists_wellFormed_fails (ctx : Context) (limit : Nat) :
    ∃ body : Body, body.WellFormed ∧
      ∃ error, ctx.analyzeWithin body limit = .error error := by
  obtain ⟨progress, hstage⟩ := exists_stage ctx (Nat.zero_lt_succ limit) (Nat.le_refl _)
  obtain ⟨mid, out, hmid, -, -, -, -, hchanges⟩ :=
    hstage.runStep (Nat.zero_lt_succ limit) (Nat.le_refl _)
  -- With as many steps as the limit, and one more, the last block changes once too
  -- often.
  refine ⟨stairs (limit + 1), Body.wellFormed_stairs _, ?_⟩
  exact (analyzeWithin_fails_iff (Body.wellFormed_stairs _)).2 ⟨_, limit + 1 + 1, hmid,
    hchanges⟩

/-- **When an analysis fails**: the entry does not exist, some block jumps to one that
does not exist, or at some moment of the iteration an entry environment has changed more
than `changeLimit` times. The last of the three befalls well-formed bodies, whatever the
function. -/
theorem analyze_fails_iff (ctx : Context) :
    (∀ body : Body, (∃ error, ctx.analyze body = .error error) ↔
      body.blocks.length ≤ body.entry ∨
      (∃ block ∈ body.blocks, ∃ target ∈ block.term.successors,
        body.blocks.length ≤ target) ∨
      ∃ moment block, Leads (ctx.system body) body.order (ctx.start body) moment ∧
        changeLimit < moment.progress.count block) ∧
    ∃ body : Body, body.WellFormed ∧ ∃ error, ctx.analyze body = .error error := by
  refine ⟨fun body => ?_, exists_wellFormed_fails ctx changeLimit⟩
  by_cases hbody : body.WellFormed
  · rw [show ctx.analyze body = ctx.analyzeWithin body changeLimit from rfl,
      analyzeWithin_fails_iff hbody]
    constructor
    · exact fun h => .inr (.inr h)
    · rintro (hentry | ⟨block, hblock, target, htarget, hle⟩ | h)
      · exact absurd hbody.entry_lt (Nat.not_lt.2 hentry)
      · exact absurd (hbody.target_lt block hblock target htarget) (Nat.not_lt.2 hle)
      · exact h
  · constructor
    · intro _
      by_cases hentry : body.blocks.length ≤ body.entry
      · exact .inl hentry
      · refine .inr (.inl ?_)
        by_contra hnone
        refine hbody ⟨Nat.lt_of_not_le hentry, fun block hblock target htarget => ?_⟩
        exact Nat.lt_of_not_le fun hle => hnone ⟨block, hblock, target, htarget, hle⟩
    · intro _
      cases hresult : ctx.analyze body with
      | error error => exact ⟨error, rfl⟩
      | ok outcome => exact absurd (analyzeWithin_eq_ok_iff.1 hresult).1 hbody

end Context

end Custody
