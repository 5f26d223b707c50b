import Custody.Proofs.Flow.Invariant
import Mathlib.Algebra.Order.BigOperators.Group.Finset
import Mathlib.Data.Finset.Union
import Mathlib.Data.Prod.Lex

/-!
# The iteration ends

States may come to speak of ever new names while the iteration runs, so that no rank is
fixed in advance that every change of an entry state lowers. What helps is that the
names depend on a part of the state alone, its `key`, and that the key of an entry state
can only change finitely often.

So a run is cut into phases. A phase ends when a block gets its first entry state or the
key of one changes, and only finitely many do: `phase` drops. Within a phase all names
come from one finite set, and over that set every change of an entry state lowers its
rank: `left` drops.

## Why a rank over a fixed set is not enough

A block can put a capability on record that no state has mentioned before: it names it
through what a local is bound to. A sum of ranks over the names so far does not see
that, and over all names it is not finite. For environments the key is what decides
about names, the bindings and the number of open regions; joins only take bindings away
and only lower the number (`Proofs/Analysis/Steering`). What is proved here holds for
any key that behaves like this, with the rank as a function of the set.

## What is left for the limit

The iteration ends by itself; the limit on changes is not what makes it end, but an
assumption about how soon. `solve_eq_ok_iff` says it in this form: the loop succeeds
exactly if the end of the bare iteration is within the limit, because its number of
steps is always enough for that (`Paid`).
-/

set_option autoImplicit false

namespace Custody.Flow

variable {σ τ κ : Type}

/-- What makes a system converge: the names that a state `mentions` are finitely many,
those that a block adds depend on the `key` of its entry state, and a join that changes
a state makes its key lighter or, if it keeps the key, lowers its rank over all names
that are mentioned. Only joins have to lower anything; what a block does to a state is
free. -/
structure Finitary (system : System σ) (good : σ → Prop) (key : σ → τ)
    (weight : τ → Nat) (mentions : σ → κ → Prop) (named : Nat → τ → Finset κ)
    (rank : Finset κ → σ → Nat) : Prop where
  finite : ∀ state, ∃ names : Finset κ, ∀ name, mentions state name → name ∈ names
  run_named : ∀ {block state flow name}, flow ∈ system.run block state →
    mentions flow.2 name →
    mentions state name ∨ name ∈ named block (key state)
  join_mentions : ∀ {a b name}, mentions (system.join a b) name →
    mentions a name ∨ mentions b name
  join_key : ∀ {a b}, good a → good b →
    key (system.join a b) = key a ∨ weight (key (system.join a b)) < weight (key a)
  join_rank : ∀ {a b} {names : Finset κ}, good a → good b →
    (∀ name, mentions a name → name ∈ names) →
    (∀ name, mentions b name → name ∈ names) → system.join a b ≠ a →
    rank names (system.join a b) < rank names a

namespace Progress

/-- How many blocks have no entry state yet. It never grows, since a block that has an
entry state keeps one. -/
def missing (progress : Progress σ) (order : List Nat) : Nat :=
  (order.toFinset.filter fun block => progress.entries.get? block = none).card

/-- A value of the entry states, in total. Blocks without an entry state do not count,
so a first entry state can raise it; that is why a phase looks at those blocks first. -/
def total (progress : Progress σ) (order : List Nat) (value : σ → Nat) : Nat :=
  ∑ block ∈ order.toFinset, ((progress.entries.get? block).map value).getD 0

theorem exists_bounded (progress : Progress σ) : ∃ limit, Bounded limit progress := by
  refine ⟨(progress.changes.entries.map Prod.snd).sum, fun block => ?_⟩
  unfold count
  cases h : progress.changes.get? block with
  | none => exact Nat.zero_le _
  | some changes =>
    have hmem := FinMap.get?_eq_some_iff.1 h
    exact List.single_le_sum (fun _ _ => Nat.zero_le _) changes
      (List.mem_map.2 ⟨_, hmem, rfl⟩)

section Enter

variable {progress : Progress σ} {order : List Nat} {block : Nat}

theorem missing_enter_lt (hblock : block ∈ order)
    (hnone : progress.entries.get? block = none) (state : σ) :
    (progress.enter order block state).missing order < progress.missing order := by
  refine Finset.card_lt_card (Finset.ssubset_iff_subset_ne.2 ⟨?_, fun heq => ?_⟩)
  · intro other hother
    rw [Finset.mem_filter, get?_enter] at hother
    rw [Finset.mem_filter]
    refine ⟨hother.1, ?_⟩
    have hget := hother.2
    split at hget
    · cases hget
    · exact hget
  · have hmem : block ∈ order.toFinset.filter fun block =>
      progress.entries.get? block = none :=
      Finset.mem_filter.2 ⟨List.mem_toFinset.2 hblock, hnone⟩
    rw [← heq, Finset.mem_filter, get?_enter, if_pos rfl] at hmem
    cases hmem.2

variable {old : σ}

theorem missing_enter (order : List Nat) (hold : progress.entries.get? block = some old)
    (state : σ) :
    (progress.enter order block state).missing order = progress.missing order := by
  unfold missing
  congr 1
  refine Finset.filter_congr fun other _ => ?_
  rw [get?_enter]
  split
  · rename_i heq
    rw [heq, hold]
    simp
  · rfl

theorem total_enter (hblock : block ∈ order) (hold : progress.entries.get? block = some old)
    (state : σ) (value : σ → Nat) :
    (progress.enter order block state).total order value + value old
      = progress.total order value + value state := by
  have hmem := List.mem_toFinset.2 hblock
  have hrest : ∑ other ∈ order.toFinset.erase block,
        (((progress.enter order block state).entries.get? other).map value).getD 0
      = ∑ other ∈ order.toFinset.erase block,
      ((progress.entries.get? other).map value).getD 0 := by
    refine Finset.sum_congr rfl fun other hother => ?_
    rw [get?_enter, if_neg (Finset.ne_of_mem_erase hother)]
  unfold total
  rw [← Finset.add_sum_erase _ _ hmem, ← Finset.add_sum_erase _ _ hmem, hrest,
    get?_enter, if_pos rfl, hold]
  simp only [Option.map_some, Option.getD_some]
  omega

end Enter

end Progress

namespace Moment

/-- How far off the next phase is: the blocks without an entry state, and the weight of
all keys. It is compared in this order, since a new entry state brings a key of its
own. -/
def phase (order : List Nat) (key : σ → τ) (weight : τ → Nat) (moment : Moment σ) :
    Nat ×ₗ Nat :=
  toLex (moment.progress.missing order, moment.progress.total order fun state =>
    weight (key state))

/-- What is left of a phase: the rank of all entry states, the blocks that wait, and
what is on its way. A change of an entry state lowers the first, and may make a block
wait; taking a block lowers the second, and puts flows on their way; receiving one
lowers the third. -/
def left (order : List Nat) (rank : σ → Nat) (moment : Moment σ) : Nat ×ₗ Nat ×ₗ Nat :=
  toLex (moment.progress.total order rank,
    toLex (moment.progress.pending.size, moment.flows.length))

end Moment

/-- All names that occur while the keys stay as they are. They are collected once, at
the start of a phase: what is mentioned by then, and what the blocks will add with the
keys they have. -/
structure Confined (key : σ → τ) (mentions : σ → κ → Prop) (named : Nat → τ → Finset κ)
    (names : Finset κ) (moment : Moment σ) : Prop where
  entries : ∀ {block state}, moment.progress.entries.get? block = some state →
    ∀ name, mentions state name → name ∈ names
  named : ∀ {block state}, moment.progress.entries.get? block = some state →
    named block (key state) ⊆ names
  flows : ∀ flow ∈ moment.flows, ∀ name, mentions flow.2 name → name ∈ names

variable [DecidableEq σ] {system : System σ} {order : List Nat} {good : σ → Prop}
  {rises : σ → σ → Prop} {key : σ → τ} {weight : τ → Nat} {mentions : σ → κ → Prop}
  {named : Nat → τ → Finset κ} {rank : Finset κ → σ → Nat} {start : Moment σ} {entry : Nat}

theorem exists_confined [DecidableEq κ]
    (finitary : Finitary system good key weight mentions named rank) {moment : Moment σ}
    (h : Sound system order good start entry moment) :
    ∃ names, Confined key mentions named names moment := by
  choose names hnames using finitary.finite
  refine ⟨(order.toFinset.biUnion fun block => (moment.progress.entries.get? block).elim ∅
      fun state => names state ∪ named block (key state)) ∪
    moment.flows.toFinset.biUnion fun flow => names flow.2, ?_, ?_, ?_⟩
  · intro block state hstate name hname
    refine Finset.mem_union_left _ (Finset.mem_biUnion.2
      ⟨block, List.mem_toFinset.2 (h.entries_mem hstate), ?_⟩)
    rw [hstate]
    exact Finset.mem_union_left _ (hnames state name hname)
  · intro block state hstate name hname
    refine Finset.mem_union_left _ (Finset.mem_biUnion.2
      ⟨block, List.mem_toFinset.2 (h.entries_mem hstate), ?_⟩)
    rw [hstate]
    exact Finset.mem_union_right _ hname
  · intro flow hflow name hname
    exact Finset.mem_union_right _ (Finset.mem_biUnion.2
      ⟨flow, List.mem_toFinset.2 hflow, hnames flow.2 name hname⟩)

/-- What a step of the iteration brings: the next phase, or, with the names as they
were, less that is left of this one. The names are part of it, because a rank over other
names would be another number. -/
def Advances (order : List Nat) (key : σ → τ) (weight : τ → Nat)
    (mentions : σ → κ → Prop) (named : Nat → τ → Finset κ) (rank : Finset κ → σ → Nat)
    (names : Finset κ) (a b : Moment σ) :
    Prop :=
  b.phase order key weight < a.phase order key weight ∨
    (b.phase order key weight = a.phase order key weight ∧
      Confined key mentions named names b ∧
      b.left order (rank names) < a.left order (rank names))

section Step

variable {names : Finset κ} {progress : Progress σ} {block : Nat} {out : σ}
  {rest : List (Nat × σ)}

omit [DecidableEq σ] in
theorem Confined.tail {flow : Nat × σ}
    (h : Confined key mentions named names ⟨progress, flow :: rest⟩) :
    Confined key mentions named names ⟨progress, rest⟩ :=
  ⟨h.entries, h.named, fun flow hflow => h.flows flow (List.mem_cons_of_mem _ hflow)⟩

/-- A block receives its first entry state: a new phase. -/
theorem advances_first
    (h : Sound system order good start entry ⟨progress, (block, out) :: rest⟩)
    (hnone : progress.entries.get? block = none) :
    Advances order key weight mentions named rank names ⟨progress, (block, out) :: rest⟩
      ⟨progress.enter order block out, rest⟩ :=
  .inl (Prod.Lex.toLex_lt_toLex.2
    (.inl (Progress.missing_enter_lt (h.flows_mem _ List.mem_cons_self) hnone out)))

omit [DecidableEq σ] in
theorem advances_absorbed
    (hnames : Confined key mentions named names ⟨progress, (block, out) :: rest⟩) :
    Advances order key weight mentions named rank names ⟨progress, (block, out) :: rest⟩
      ⟨progress, rest⟩ :=
  .inr ⟨rfl, hnames.tail, Prod.Lex.toLex_lt_toLex.2
    (.inr ⟨rfl, Prod.Lex.toLex_lt_toLex.2 (.inr ⟨rfl, Nat.lt_succ_self _⟩)⟩)⟩

/-- An entry state changes: its key gets lighter, or its names stay and its rank
drops. -/
theorem advances_changed (finitary : Finitary system good key weight mentions named rank)
    (h : Sound system order good start entry ⟨progress, (block, out) :: rest⟩)
    (hnames : Confined key mentions named names ⟨progress, (block, out) :: rest⟩) {old : σ}
    (hold : progress.entries.get? block = some old) (hchanges : system.join old out ≠ old) :
    Advances order key weight mentions named rank names ⟨progress, (block, out) :: rest⟩
      ⟨progress.enter order block (system.join old out), rest⟩ := by
  have hblock : block ∈ order := h.flows_mem _ List.mem_cons_self
  have hgood : good old := h.entries_good hold
  have hout : good out := h.flows_good _ List.mem_cons_self
  have hmissing := Progress.missing_enter order hold (system.join old out)
  have hweights := Progress.total_enter hblock hold (system.join old out) fun state =>
    weight (key state)
  rcases finitary.join_key hgood hout with hkey | hlighter
  · -- With the same key the block adds the same names, so those of this phase go on
    -- being enough.
    refine .inr ⟨?_, ⟨?_, ?_, hnames.tail.flows⟩, ?_⟩
    · simp only [hkey] at hweights
      exact congrArg toLex (Prod.ext hmissing (Nat.add_right_cancel hweights))
    · intro other state hstate name hname
      rw [Progress.get?_enter] at hstate
      split at hstate
      · cases hstate
        rcases finitary.join_mentions hname with hname | hname
        · exact hnames.entries hold name hname
        · exact hnames.flows _ List.mem_cons_self name hname
      · exact hnames.entries hstate name hname
    · intro other state hstate
      rw [Progress.get?_enter] at hstate
      split at hstate
      · rename_i heq
        cases hstate
        rw [heq, hkey]
        exact hnames.named hold
      · exact hnames.named hstate
    · have hrank := finitary.join_rank hgood hout (hnames.entries hold)
        (hnames.flows _ List.mem_cons_self) hchanges
      have htotal := Progress.total_enter hblock hold (system.join old out) (rank names)
      have hless :
          (progress.enter order block (system.join old out)).total order (rank names)
            < progress.total order (rank names) := by omega
      exact Prod.Lex.toLex_lt_toLex.2 (.inl hless)
  · have hless : (progress.enter order block (system.join old out)).total order
          (fun state => weight (key state))
        < progress.total order fun state => weight (key state) := by omega
    exact .inl (Prod.Lex.toLex_lt_toLex.2 (.inr ⟨hmissing, hless⟩))

omit [DecidableEq σ] in
theorem size_unwait_lt {position : Nat}
    (hwaits : progress.pending.get? position = some ()) :
    (progress.unwait position).pending.size < progress.pending.size := by
  refine (FinMap.erase_within progress.pending position).size_lt fun heq => ?_
  rw [← heq, FinMap.get?_erase, if_pos rfl] at hwaits
  cases hwaits

omit [DecidableEq σ] in
/-- A block is run: fewer wait, and what it sends on has names that are known, because
its key was known when the names were collected. -/
theorem advances_take (finitary : Finitary system good key weight mentions named rank)
    (hnames : Confined key mentions named names ⟨progress, []⟩) {position : Nat} {state : σ}
    (hwaits : progress.pending.get? position = some ())
    (hstate : progress.entries.get? block = some state) :
    Advances order key weight mentions named rank names ⟨progress, []⟩
      ⟨(progress.unwait position).visited, system.run block state⟩ := by
  refine .inr ⟨rfl, ⟨hnames.entries, hnames.named, ?_⟩, Prod.Lex.toLex_lt_toLex.2
    (.inr ⟨rfl, Prod.Lex.toLex_lt_toLex.2 (.inl (size_unwait_lt hwaits))⟩)⟩
  intro flow hflow name hname
  rcases finitary.run_named hflow hname with hname | hname
  · exact hnames.entries hstate name hname
  · exact hnames.named hstate hname

/-- **Every step advances.** One lemma for each move; the first entry state of a block
and a lighter key begin a new phase, all else stays within one. -/
theorem advances_next (finitary : Finitary system good key weight mentions named rank)
    {a b : Moment σ} (h : Sound system order good start entry a)
    (hnames : Confined key mentions named names a) (hnext : a.next system order = some b) :
    Advances order key weight mentions named rank names a b := by
  cases h.move hnext with
  | first hnone => exact advances_first h hnone
  | absorbed => exact advances_absorbed hnames
  | changed hold hchanges => exact advances_changed finitary h hnames hold hchanges
  | taken hwaits hstate => exact advances_take finitary hnames hwaits hstate

end Step

/-- **The iteration ends**, from wherever it is. The induction is on the phase, and
inside it on what is left of the phase, each by the order of the numbers that `Advances`
lowers. -/
theorem exists_end [DecidableEq κ] (laws : Lawful system order good rises)
    (finitary : Finitary system good key weight mentions named rank) {moment : Moment σ}
    (h : Sound system order good start entry moment) :
    ∃ last, Leads system order moment ⟨last, []⟩ ∧ last.pending.entries = [] := by
  -- The outer induction is over phases, the inner one over what is left of a phase,
  -- with its names fixed.
  induction hphase : moment.phase order key weight using WellFoundedLT.induction
    generalizing moment with
  | ind phase ihPhase =>
    obtain ⟨names, hnames⟩ := exists_confined finitary h
    induction hleft : moment.left order (rank names) using WellFoundedLT.induction
      generalizing moment with
    | ind left ihLeft =>
      cases hnext : moment.next system order with
      | none =>
        obtain ⟨progress, flows⟩ := moment
        obtain ⟨hflows, hpending⟩ := Moment.next_eq_none_iff.1 hnext
        cases hflows
        exact ⟨progress, .refl _, hpending⟩
      | some after =>
        have hafter := h.next laws hnext
        rcases advances_next finitary h hnames hnext with hless | ⟨hsame, hnames', hless⟩
        · obtain ⟨last, hlast, hend⟩ := ihPhase _ (hphase ▸ hless) hafter rfl
          exact ⟨last, .head hnext hlast, hend⟩
        · obtain ⟨last, hlast, hend⟩ :=
            ihLeft _ (hleft ▸ hless) hafter (hsame.trans hphase) hnames' rfl
          exact ⟨last, .head hnext hlast, hend⟩

/-! ## The loop has enough steps

Every block that waits, and every visit but the first, was paid for by the change of an
entry state. -/

/-- What was paid for so far. Each change of an entry state pays for one visit, and the
entry, which waits without a change, is the one that is free. -/
def Paid (order : List Nat) (progress : Progress σ) : Prop :=
  progress.visits + progress.pending.size ≤
    (∑ block ∈ order.toFinset, progress.count block) + 1

omit [DecidableEq σ] in
theorem Paid.enter {progress : Progress σ} {block : Nat} (h : Paid order progress)
    (hblock : block ∈ order) (state : σ) :
    Paid order (progress.enter order block state) := by
  have hmem := List.mem_toFinset.2 hblock
  have hsize :
      (progress.enter order block state).pending.size ≤ progress.pending.size + 1 :=
    FinMap.size_insert_le _ _ _
  have hrest : ∑ other ∈ order.toFinset.erase block,
      (progress.enter order block state).count other
      = ∑ other ∈ order.toFinset.erase block, progress.count other := by
    refine Finset.sum_congr rfl fun other hother => ?_
    rw [Progress.count_enter, if_neg (Finset.ne_of_mem_erase hother)]
  have hsum : ∑ other ∈ order.toFinset, (progress.enter order block state).count other
      = (∑ other ∈ order.toFinset, progress.count other) + 1 := by
    rw [← Finset.add_sum_erase _ _ hmem, ← Finset.add_sum_erase _ _ hmem, hrest,
      Progress.count_enter, if_pos rfl]
    omega
  unfold Paid at h ⊢
  rw [hsum]
  show progress.visits + _ ≤ _
  omega

omit [DecidableEq σ] in
theorem Paid.take {progress : Progress σ} {position : Nat} (h : Paid order progress)
    (hwaits : progress.pending.get? position = some ()) :
    Paid order (progress.unwait position).visited := by
  have hfewer := size_unwait_lt hwaits
  have hcount :
      ∀ block, (progress.unwait position).visited.count block = progress.count block :=
    fun _ => rfl
  unfold Paid at h ⊢
  simp only [hcount]
  show progress.visits + 1 + (progress.unwait position).pending.size ≤ _
  omega

theorem paid_of_leads (laws : Lawful system order good rises) {a b : Moment σ}
    (h : Sound system order good start entry a) (hpaid : Paid order a.progress)
    (hab : Leads system order a b) : Paid order b.progress := by
  induction hab with
  | refl => exact hpaid
  | @tail b c hab hbc ih =>
    have hsound := h.leads laws hab
    cases hsound.move hbc with
    | first => exact ih.enter (hsound.flows_mem _ List.mem_cons_self) _
    | absorbed => exact ih
    | changed => exact ih.enter (hsound.flows_mem _ List.mem_cons_self) _
    | taken hwaits => exact ih.take hwaits

omit [DecidableEq σ] in
theorem Paid.visits_le {progress : Progress σ} {limit : Nat} (h : Paid order progress)
    (hbounded : Progress.Bounded limit progress) :
    progress.visits ≤ order.length * limit + 1 := by
  have hsum : ∑ block ∈ order.toFinset,
      progress.count block ≤ order.toFinset.card * limit :=
    Finset.sum_le_card_nsmul _ _ _ fun block _ => hbounded block
  have hcard : order.toFinset.card * limit ≤ order.length * limit :=
    Nat.mul_le_mul_right _ order.toFinset_card_le
  unfold Paid at h
  omega

/-- **What `solve` computes**: the end of the iteration, if no entry state changes too
often on the way. An equivalence, so that it also says when there is no result. -/
theorem solve_eq_ok_iff (laws : Lawful system order good rises) {state : σ}
    (hgood : good state) (hentry : entry ∈ order) {limit : Nat} {entries : FinMap Nat σ}
    {visits : Nat} :
    solve system order limit entry state = .ok (entries, visits) ↔
      ∃ last, Leads system order (Moment.start order entry state) ⟨last, []⟩ ∧
        last.pending.entries = [] ∧ Progress.Bounded limit last ∧
        last.entries = entries ∧ last.visits = visits := by
  have hsound : Sound system order good (Moment.start order entry state) entry
      (Moment.start order entry state) := .initial hgood hentry
  constructor
  · exact leads_of_solve
  · unfold solve
    rintro ⟨last, hlast, hend, hbounded, rfl, rfl⟩
    -- The entry waits from the start, and no change paid for that: hence the one in
    -- `Paid`.
    have hpaid : Paid order (Progress.start order entry state) := by
      have hsize : ((∅ : FinMap Nat Unit).insert (order.idxOf entry) ()).size ≤ 0 + 1 :=
        FinMap.size_insert_le _ _ _
      show 0 + ((∅ : FinMap Nat Unit).insert (order.idxOf entry) ()).size ≤ _
      omega
    have hvisits := (paid_of_leads laws hsound hpaid hlast).visits_le hbounded
    rw [iterate_of_leads hlast hend hbounded
      (fun _ hmoment => (hsound.leads laws hmoment).awaited)
      (Nat.le_trans hvisits (Nat.le_add_left _ _))]
    rfl

end Custody.Flow
