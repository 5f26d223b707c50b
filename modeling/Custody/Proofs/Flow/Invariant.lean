import Custody.Proofs.Flow.Run
import Mathlib.Data.List.GetD

/-!
# What every run of the iteration keeps

The states need not be ordered in such a way that `run` is monotone, and for the
environments of the analysis it is not. All that is asked of them is in `Lawful`: a
joined state absorbs both of its parts, and a state that rises by joins goes on
absorbing what it absorbed.

`Sound` is what holds at every moment. Its last part is the invariant of a worklist
(`Settled`): what a block sends on, from the entry state it now has, is on its way or
has been absorbed, unless the block waits to be run again. At the end nothing is on its
way and nothing waits, which is `Sound.postFixed`.

## Why not a lattice

The usual proof takes a lattice and monotone functions, and gets the least fixed point.
Environments give neither. A join keeps the first of two types for a capability, so that
it is not commutative. And what a local is bound to decides which capability a statement
means, while a join forgets bindings that two paths disagree on: a block that knows less
speaks of other capabilities, and what it sends on is not above or below what it sent
before. So the only order is the one in which entry states change, `rises`, and what it
has to do with joins is in `rises_join` and `rises_absorbs`. That is enough for the end
to be a post-fixed point, and it says nothing about the end being the least one.

## Why `done` is a parameter of `Settled`

The same argument is made twice: here for flows that were absorbed, and in
`Proofs/Flow/Arrivals` for flows that are in the record of what was received. What is
done with a flow is another thing there; how a worklist keeps track of it is the same.
-/

set_option autoImplicit false

namespace Custody.Flow

variable {σ : Type}

/-- What is asked of a system whose states are to be iterated: those that occur are
`good`, `rises` is how an entry state changes, and what a block sends on goes to blocks
that have a place in the order. There is no law about `run` but that it keeps to good
states and to the order. -/
structure Lawful (system : System σ) (order : List Nat) (good : σ → Prop)
    (rises : σ → σ → Prop) :
    Prop where
  run_good : ∀ {block state flow}, good state → flow ∈ system.run block state → good flow.2
  run_mem : ∀ {block state flow}, block ∈ order → flow ∈ system.run block state →
    flow.1 ∈ order
  join_good : ∀ {a b}, good a → good b → good (system.join a b)
  join_self : ∀ {a}, good a → system.join a a = a
  join_absorbs : ∀ {a b}, good a → good b →
    system.join (system.join a b) b = system.join a b
  rises_refl : ∀ a, rises a a
  rises_trans : ∀ {a b c}, rises a b → rises b c → rises a c
  rises_join : ∀ {a b}, good a → good b → rises a (system.join a b)
  rises_absorbs : ∀ {a s s'}, good a → good s → good s' →
    system.join s a = s → rises s s' → system.join s' a = s'

/-- The entry state of a block absorbs what flows into it. For all flows at the end of a
run this says that the entry states are a solution. -/
def Absorbed (system : System σ) (progress : Progress σ) (flow : Nat × σ) : Prop :=
  ∃ state, progress.entries.get? flow.1 = some state ∧ system.join state flow.2 = state

/-- What a step does. A state that flows into a block is the first one there, is
absorbed, or changes the entry state; or a block that waits is taken and run. Each case
comes with all that is known in it, so that a proof about steps is one `cases` and four
short goals. -/
inductive Move (system : System σ) (order : List Nat) : Moment σ → Moment σ → Prop where
  | first {progress : Progress σ} {block : Nat} {out : σ} {rest : List (Nat × σ)}
      (hnone : progress.entries.get? block = none) :
      Move system order ⟨progress, (block, out) :: rest⟩
        ⟨progress.enter order block out, rest⟩
  | absorbed {progress : Progress σ} {block : Nat} {out old : σ} {rest : List (Nat × σ)}
      (hold : progress.entries.get? block = some old) (hjoin : system.join old out = old) :
      Move system order ⟨progress, (block, out) :: rest⟩ ⟨progress, rest⟩
  | changed {progress : Progress σ} {block : Nat} {out old : σ} {rest : List (Nat × σ)}
      (hold : progress.entries.get? block = some old)
        (hchanges : system.join old out ≠ old) :
      Move system order ⟨progress, (block, out) :: rest⟩
        ⟨progress.enter order block (system.join old out), rest⟩
  | taken {progress : Progress σ} {block : Nat} {state : σ}
      (hwaits : progress.pending.get? (order.idxOf block) = some ())
      (hstate : progress.entries.get? block = some state) :
      Move system order ⟨progress, []⟩
        ⟨(progress.unwait (order.idxOf block)).visited, system.run block state⟩

theorem getD_idxOf {order : List Nat} {block : Nat} (h : block ∈ order) :
    order.getD (order.idxOf block) 0 = block := by
  have hlt := List.idxOf_lt_length_iff.2 h
  rw [List.getD_eq_getElem _ _ hlt]
  exact List.getElem_idxOf hlt

theorem Moment.waits_start {order : List Nat} {entry block : Nat} {state state' : σ}
    (hentered : (start order entry state).progress.entries.get? block = some state') :
    (start order entry state).progress.pending.get? (order.idxOf block) = some () := by
  have hentered : ((∅ : FinMap Nat σ).insert entry state).get? block = some state' :=
    hentered
  show ((∅ : FinMap Nat Unit).insert (order.idxOf entry) ()).get? (order.idxOf block) =
      some ()
  by_cases hblock : block = entry
  · simp [hblock]
  · simp [hblock] at hentered

/-! ## The invariant of the worklist -/

/-- What a block sends on, from the entry state it now has, is on its way or `done`
with, unless the block waits. The state it has *now* is what makes this an invariant:
what it sent on from an earlier one may have been absorbed by states that have risen
since. -/
def Settled (system : System σ) (order : List Nat) (done : Nat × σ → Prop)
    (moment : Moment σ) : Prop :=
  ∀ block state, moment.progress.entries.get? block = some state →
    moment.progress.pending.get? (order.idxOf block) = some () ∨
      ∀ flow ∈ system.run block state, flow ∈ moment.flows ∨ done flow

namespace Settled

variable {system : System σ} {order : List Nat} {done done' : Nat × σ → Prop}
  {progress : Progress σ} {block : Nat}

/-- The state received just now is taken off the way. The block it is for has a new
entry state, and waits. That settles the block itself; for all others it has to be known
that what was done with stays so, which is `hkeep`. -/
theorem enter {out new : σ} {rest : List (Nat × σ)}
    (h : Settled system order done ⟨progress, (block, out) :: rest⟩)
    (hkeep : ∀ source state, progress.entries.get? source = some state →
      ∀ flow ∈ system.run source state, done flow → done' flow)
    (hnew : done' (block, out)) :
    Settled system order done' ⟨progress.enter order block new, rest⟩ := by
  intro other state hstate
  simp only [Progress.get?_enter] at hstate
  simp only [Progress.waits_enter]
  split at hstate
  · rename_i hother
    simp [hother]
  · rcases h other state hstate with hwaits | hflows
    · exact .inl (by split <;> [rfl; exact hwaits])
    · refine .inr fun flow hflow => ?_
      rcases hflows flow hflow with hmem | hdone
      · rcases List.mem_cons.1 hmem with rfl | hmem
        · exact .inr hnew
        · exact .inl hmem
      · exact .inr (hkeep other state hstate flow hflow hdone)

theorem absorb {flow : Nat × σ} {rest : List (Nat × σ)}
    (h : Settled system order done ⟨progress, flow :: rest⟩)
    (hkeep : ∀ flow, done flow → done' flow) (hnew : done' flow) :
    Settled system order done' ⟨progress, rest⟩ := by
  intro other state hstate
  refine (h other state hstate).imp_right fun hflows sent hsent => ?_
  rcases hflows sent hsent with hmem | hdone
  · rcases List.mem_cons.1 hmem with rfl | hmem
    · exact .inr hnew
    · exact .inl hmem
  · exact .inr (hkeep sent hdone)

theorem take {state : σ} (h : Settled system order done ⟨progress, []⟩)
    (hmem : ∀ {block state}, progress.entries.get? block = some state → block ∈ order)
    (hstate : progress.entries.get? block = some state) :
    Settled system order done
      ⟨(progress.unwait (order.idxOf block)).visited, system.run block state⟩ := by
  intro other state' hentered
  have hother : progress.entries.get? other = some state' := hentered
  by_cases heq : other = block
  · subst heq
    rw [hstate] at hother
    cases hother
    exact .inr fun flow hflow => .inl hflow
  · -- Two blocks of the order never wait at one position.
    have hne : order.idxOf other ≠ order.idxOf block := by
      intro hidx
      apply heq
      rw [← getD_idxOf (hmem hother), hidx, getD_idxOf (hmem hstate)]
    rcases h other state' hother with hwaits | hflows
    · refine .inl ?_
      show (progress.pending.erase (order.idxOf block)).get? (order.idxOf other) = some ()
      simp [hne, hwaits]
    · refine .inr fun flow hflow => .inr ?_
      simpa using hflows flow hflow

theorem initial (system : System σ) (order : List Nat) (done : Nat × σ → Prop)
    (entry : Nat) (state : σ) :
    Settled system order done (Moment.start order entry state) :=
  fun _ _ hentered => .inl (Moment.waits_start hentered)

theorem of_end {last : Progress σ} (h : Settled system order done ⟨last, []⟩)
    (hend : last.pending.entries = []) {state : σ}
    (hstate : last.entries.get? block = some state) :
    ∀ flow ∈ system.run block state, done flow := by
  intro flow hflow
  rcases h block state hstate with hwaits | hflows
  · have hmem := FinMap.get?_eq_some_iff.1 hwaits
    rw [hend] at hmem
    cases hmem
  · simpa using hflows flow hflow

end Settled

/-! ## What holds at every moment -/

variable [DecidableEq σ]

/-- A state was sent to a block at some moment: another block was run from the entry
state it had then. The moment is any one of the run, since an earlier one may have sent
what is on its way now. -/
def Sent (system : System σ) (order : List Nat) (start : Moment σ) (flow : Nat × σ) :
    Prop :=
  ∃ moment source state, Leads system order start moment ∧
    moment.progress.entries.get? source = some state ∧ flow ∈ system.run source state

/-- What holds at every moment of a run. The parts are proved together because they need
each other: that flows are good needs that entry states are, and that a block with an
entry state has a place in the order needs that flows only go to such blocks. -/
structure Sound (system : System σ) (order : List Nat) (good : σ → Prop) (start : Moment σ)
    (entry : Nat) (moment : Moment σ) : Prop where
  reached : Leads system order start moment
  entries_good : ∀ {block state}, moment.progress.entries.get? block = some state →
    good state
  entries_mem : ∀ {block state}, moment.progress.entries.get? block = some state →
    block ∈ order
  /-- Only the entry has a state that nothing sent. -/
  entries_sent : ∀ {block state}, moment.progress.entries.get? block = some state →
    block = entry ∨ ∃ out, Sent system order start (block, out)
  flows_good : ∀ flow ∈ moment.flows, good flow.2
  flows_mem : ∀ flow ∈ moment.flows, flow.1 ∈ order
  flows_sent : ∀ flow ∈ moment.flows, Sent system order start flow
  waits : ∀ {position}, moment.progress.pending.get? position = some () →
    ∃ block state, position = order.idxOf block ∧
      moment.progress.entries.get? block = some state
  /-- What a block sends on is dealt with, unless the block waits. -/
  settled : ∀ {block state}, moment.progress.entries.get? block = some state →
    moment.progress.pending.get? (order.idxOf block) = some () ∨
      ∀ flow ∈ system.run block state, flow ∈ moment.flows ∨
        Absorbed system moment.progress flow

variable {system : System σ} {order : List Nat} {good : σ → Prop} {rises : σ → σ → Prop}
  {start : Moment σ} {entry : Nat}

namespace Sound

theorem isSettled {moment : Moment σ} (h : Sound system order good start entry moment) :
    Settled system order (Absorbed system moment.progress) moment :=
  fun _ _ hstate => h.settled hstate

theorem awaited {moment : Moment σ} (h : Sound system order good start entry moment) :
    Awaited order moment.progress := by
  intro position hposition
  obtain ⟨block, state, rfl, hstate⟩ := h.waits hposition
  exact ⟨state, by rw [getD_idxOf (h.entries_mem hstate)]; exact hstate⟩

/-- **A step is one of four moves.** No block waits in vain: those that wait have an
entry state. -/
theorem move {a b : Moment σ} (h : Sound system order good start entry a)
    (hnext : a.next system order = some b) : Move system order a b := by
  obtain ⟨progress, flows⟩ := a
  rcases Moment.next_cases hnext with
    ⟨block, out, rest, hflows, rfl⟩ | ⟨position, hflows, hhead, hcases⟩
  · cases hflows
    rcases progress.receive_cases system.join order block out with
      ⟨hnone, heq⟩ | ⟨old, hold, ⟨hjoin, heq⟩ | ⟨hchanges, heq⟩⟩
    · simp only [heq]
      exact .first hnone
    · simp only [heq]
      exact .absorbed hold hjoin
    · simp only [heq]
      exact .changed hold hchanges
  · cases hflows
    have hwaits : progress.pending.get? position = some () :=
      FinMap.get?_eq_some_iff.2 (List.mem_of_mem_head? hhead)
    obtain ⟨block, state, rfl, hstate⟩ := h.waits hwaits
    rw [getD_idxOf (h.entries_mem hstate), hstate] at hcases
    rcases hcases with ⟨hnone, -⟩ | ⟨state', hstate', rfl⟩
    · cases hnone
    · cases hstate'
      exact .taken hwaits hstate

/-- A block is given a new entry state, above its old one, that absorbs what flows into
it. The two moves that change an entry state, the first one and a later one, are both of
this form. What other blocks sent to this one is still absorbed, by `rises_absorbs`. -/
theorem enter (laws : Lawful system order good rises) {progress : Progress σ} {block : Nat}
    {out new : σ} {rest : List (Nat × σ)}
    (h : Sound system order good start entry ⟨progress, (block, out) :: rest⟩)
    (hreached : Leads system order start ⟨progress.enter order block new, rest⟩)
    (hnew : good new) (habsorbs : system.join new out = new)
    (hrises : ∀ old, progress.entries.get? block = some old → rises old new) :
    Sound system order good start entry ⟨progress.enter order block new, rest⟩ := by
  have hget := fun other => progress.get?_enter order block other new
  have hpending := fun position => progress.waits_enter order block position new
  -- What was absorbed still is: at `block` because the entry state rose, elsewhere
  -- because it is the same.
  have habsorbed : ∀ flow, good flow.2 → Absorbed system progress flow →
      Absorbed system (progress.enter order block new) flow := by
    rintro ⟨target, state⟩ hgood ⟨old, hold, hjoin⟩
    by_cases heq : target = block
    · subst heq
      exact ⟨new, by rw [hget, if_pos rfl],
        laws.rises_absorbs hgood (h.entries_good hold) hnew hjoin (hrises old hold)⟩
    · exact ⟨old, by rw [hget, if_neg heq]; exact hold, hjoin⟩
  refine ⟨hreached, ?_, ?_, ?_, fun flow hflow =>
    h.flows_good flow (List.mem_cons_of_mem _ hflow),
    fun flow hflow => h.flows_mem flow (List.mem_cons_of_mem _ hflow),
    fun flow hflow => h.flows_sent flow (List.mem_cons_of_mem _ hflow), ?_, ?_⟩
  · intro other state hstate
    rw [hget] at hstate
    split at hstate
    · cases hstate
      exact hnew
    · exact h.entries_good hstate
  · intro other state hstate
    rw [hget] at hstate
    split at hstate
    · rename_i heq
      rw [heq]
      exact h.flows_mem _ List.mem_cons_self
    · exact h.entries_mem hstate
  · intro other state hstate
    rw [hget] at hstate
    split at hstate
    · rename_i heq
      rw [heq]
      exact .inr ⟨out, h.flows_sent _ List.mem_cons_self⟩
    · exact h.entries_sent hstate
  · intro position hposition
    rw [hpending] at hposition
    split at hposition
    · rename_i heq
      exact ⟨block, new, heq, by rw [hget, if_pos rfl]⟩
    · obtain ⟨other, state, hother, hstate⟩ := h.waits hposition
      by_cases heq : other = block
      · exact ⟨other, new, hother, by rw [hget, if_pos heq]⟩
      · exact ⟨other, state, hother, by rw [hget, if_neg heq]; exact hstate⟩
  · intro other state hstate
    refine h.isSettled.enter
      (fun source state hsource flow hflow hdone => ?_) ?_ other state hstate
    · exact habsorbed flow (laws.run_good (h.entries_good hsource) hflow) hdone
    · exact ⟨new, by rw [hget, if_pos rfl], habsorbs⟩

theorem absorb {progress : Progress σ} {block : Nat} {out old : σ} {rest : List (Nat × σ)}
    (h : Sound system order good start entry ⟨progress, (block, out) :: rest⟩)
    (hreached : Leads system order start ⟨progress, rest⟩)
    (hold : progress.entries.get? block = some old) (hjoin : system.join old out = old) :
    Sound system order good start entry ⟨progress, rest⟩ where
  reached := hreached
  entries_good := h.entries_good
  entries_mem := h.entries_mem
  entries_sent := h.entries_sent
  flows_good flow hflow := h.flows_good flow (List.mem_cons_of_mem _ hflow)
  flows_mem flow hflow := h.flows_mem flow (List.mem_cons_of_mem _ hflow)
  flows_sent flow hflow := h.flows_sent flow (List.mem_cons_of_mem _ hflow)
  waits := h.waits
  settled hstate := h.isSettled.absorb (fun _ hdone => hdone) ⟨old, hold, hjoin⟩ _ _ hstate

theorem take (laws : Lawful system order good rises) {progress : Progress σ}
    {block : Nat} {state : σ} (h : Sound system order good start entry ⟨progress, []⟩)
    (hstate : progress.entries.get? block = some state)
    (hreached : Leads system order start
      ⟨(progress.unwait (order.idxOf block)).visited, system.run block state⟩) :
    Sound system order good start entry
      ⟨(progress.unwait (order.idxOf block)).visited, system.run block state⟩ where
  reached := hreached
  entries_good := h.entries_good
  entries_mem := h.entries_mem
  entries_sent := h.entries_sent
  flows_good _ hflow := laws.run_good (h.entries_good hstate) hflow
  flows_mem _ hflow := laws.run_mem (h.entries_mem hstate) hflow
  flows_sent _ hflow := ⟨_, block, state, h.reached, hstate, hflow⟩
  waits := by
    intro position hposition
    have hposition :
        (progress.pending.erase (order.idxOf block)).get? position = some () :=
      hposition
    rw [FinMap.get?_erase] at hposition
    split at hposition
    · cases hposition
    · exact h.waits hposition
  settled hother := h.isSettled.take h.entries_mem hstate _ _ hother

/-- **Every step keeps it.** One case for each move, and in each the part of the
invariant that the move could break. -/
theorem next (laws : Lawful system order good rises) {a b : Moment σ}
    (h : Sound system order good start entry a) (hnext : a.next system order = some b) :
    Sound system order good start entry b := by
  have hreached : Leads system order start b := h.reached.trans (.head hnext (.refl b))
  cases h.move hnext with
  | first hnone =>
    have hout := h.flows_good _ List.mem_cons_self
    refine h.enter laws hreached hout (laws.join_self hout) fun old hold => ?_
    rw [hnone] at hold
    cases hold
  | absorbed hold hjoin => exact h.absorb hreached hold hjoin
  | changed hold hchanges =>
    have hout := h.flows_good _ List.mem_cons_self
    have hgood := h.entries_good hold
    refine h.enter laws hreached (laws.join_good hgood hout) (laws.join_absorbs hgood hout)
      fun old' hold' => ?_
    rw [hold] at hold'
    cases hold'
    exact laws.rises_join hgood hout
  | taken hwaits hstate => exact h.take laws hstate hreached

theorem initial {state : σ} (hgood : good state) (hentry : entry ∈ order) :
    Sound system order good (Moment.start order entry state) entry
      (Moment.start order entry state) := by
  have hget : ∀ {block state'},
      (Moment.start order entry state).progress.entries.get? block = some state' →
      block = entry ∧ state' = state := by
    intro block state' h
    have h : ((∅ : FinMap Nat σ).insert entry state).get? block = some state' := h
    rw [FinMap.get?_insert, FinMap.get?_empty] at h
    split at h
    · rename_i heq
      exact ⟨heq, (Option.some.inj h).symm⟩
    · cases h
  have hpending :
      ∀ position, (Moment.start order entry state).progress.pending.get? position
        = if position = order.idxOf entry then some () else none := by
    intro position
    show ((∅ : FinMap Nat Unit).insert (order.idxOf entry) ()).get? position = _
    rw [FinMap.get?_insert, FinMap.get?_empty]
  have hflows : ∀ flow, flow ∉ (Moment.start order entry state).flows :=
    fun _ => List.not_mem_nil
  -- Nothing is on its way, so what is said of flows holds without a proof.
  refine ⟨.refl _, ?_, ?_, ?_, fun flow h => absurd h (hflows flow),
    fun flow h => absurd h (hflows flow), fun flow h => absurd h (hflows flow), ?_, ?_⟩
  · intro block state' h
    rw [(hget h).2]
    exact hgood
  · intro block state' h
    rw [(hget h).1]
    exact hentry
  · intro block state' h
    exact .inl (hget h).1
  · intro position h
    rw [hpending] at h
    split at h
    · rename_i heq
      refine ⟨entry, state, heq, ?_⟩
      show ((∅ : FinMap Nat σ).insert entry state).get? entry = some state
      rw [FinMap.get?_insert, if_pos rfl]
    · cases h
  · intro block state' h
    exact Settled.initial system order _ entry state block state' h

theorem leads (laws : Lawful system order good rises) {a b : Moment σ}
    (h : Sound system order good start entry a) (hab : Leads system order a b) :
    Sound system order good start entry b :=
  hab.keeps (fun hsound hnext => hsound.next laws hnext) h

/-- **At the end all that is sent on has been absorbed.** This is the soundness of the
iteration: every block, run from its entry state, tells its successors nothing that they
have not taken into account. -/
theorem postFixed {last : Progress σ} (h : Sound system order good start entry ⟨last, []⟩)
    (hend : last.pending.entries = []) {block : Nat} {state : σ}
    (hstate : last.entries.get? block = some state) :
    ∀ flow ∈ system.run block state, Absorbed system last flow :=
  h.isSettled.of_end hend hstate

/-!
## Entry states rise

From moment to moment a block has the same entry state or one that has risen. So what a
block was told early is never lost, and the entry block, which has its state from the
start, keeps one above it.
-/

theorem rises_next (laws : Lawful system order good rises) {a b : Moment σ}
    (h : Sound system order good start entry a) (hnext : a.next system order = some b)
    {block : Nat} {state : σ} (hstate : a.progress.entries.get? block = some state) :
    ∃ later, b.progress.entries.get? block = some later ∧ rises state later := by
  cases h.move hnext with
  | @first progress target out rest hnone =>
    refine ⟨state, ?_, laws.rises_refl state⟩
    rw [Progress.get?_enter, if_neg ?_]
    · exact hstate
    · rintro rfl
      rw [hnone] at hstate
      cases hstate
  | absorbed => exact ⟨state, hstate, laws.rises_refl state⟩
  | @changed progress target out old rest hold =>
    have hout := h.flows_good _ List.mem_cons_self
    by_cases hblock : block = target
    · subst hblock
      rw [hstate] at hold
      cases hold
      refine ⟨system.join state out, ?_, laws.rises_join (h.entries_good hstate) hout⟩
      rw [Progress.get?_enter, if_pos rfl]
    · refine ⟨state, ?_, laws.rises_refl state⟩
      rw [Progress.get?_enter, if_neg hblock]
      exact hstate
  | taken => exact ⟨state, hstate, laws.rises_refl state⟩

/-- **Along a run every entry state only rises.** In particular a block that has one
keeps one. -/
theorem rises_leads (laws : Lawful system order good rises) {a b : Moment σ}
    (h : Sound system order good start entry a) (hab : Leads system order a b)
    {block : Nat} {state : σ} (hstate : a.progress.entries.get? block = some state) :
    ∃ later, b.progress.entries.get? block = some later ∧ rises state later := by
  induction hab with
  | refl => exact ⟨state, hstate, laws.rises_refl state⟩
  | @tail b c hab hbc ih =>
    obtain ⟨mid, hmid, hrises⟩ := ih
    obtain ⟨later, hlater, hrises'⟩ := (h.leads laws hab).rises_next laws hbc hmid
    exact ⟨later, hlater, laws.rises_trans hrises hrises'⟩

end Sound

end Custody.Flow
