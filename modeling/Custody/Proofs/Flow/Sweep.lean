import Custody.Proofs.Flow.Arrivals
import Mathlib.Data.List.Nodup

/-!
# Iterations without cycles

Where all that blocks send on goes forward in the visiting order, the iteration is a
single sweep along it. The first block that waits comes after all that were run, and
what it sends on goes further ahead still, so no block that was run ever waits again:
its entry state is final. `Sweeping` is this invariant.

At the end the blocks that were run are those with an entry state, each once and in
order, and all that was received is what they send on from the entry states they have
now (`Forward.runs_receives`).

That this is an equation is the point. With cycles the record has more in it than blocks
send on from the entry states they have at the end, and entry states are joins of things
that no block sends on any more. Here what a block sent on was sent from the entry state
it still has, and the equation is kept by every step.

Positions and blocks are two things. The order may hold blocks that never get an entry
state, and the sweep goes past their positions without a step of its own. So what is
kept count of is how many positions lie behind (`swept`), and the blocks that were run
are read off from that.
-/

set_option autoImplicit false

namespace Custody.Flow

variable {σ : Type}

/-- What a block sends on from the entry state it has, if it has one. -/
def System.sends (system : System σ) (entries : FinMap Nat σ) (block : Nat) :
    List (Nat × σ) :=
  (entries.get? block).elim [] (system.run block)

/-- Those of some blocks that have an entry state. -/
def entered (entries : FinMap Nat σ) (blocks : List Nat) : List Nat :=
  blocks.filter fun block => (entries.get? block).isSome

theorem entered_append (entries : FinMap Nat σ) (blocks more : List Nat) :
    entered entries (blocks ++ more) = entered entries blocks ++ entered entries more :=
  List.filter_append ..

theorem flatMap_sends_entered (system : System σ) (entries : FinMap Nat σ)
    (blocks : List Nat) :
    (entered entries blocks).flatMap (system.sends entries) =
      blocks.flatMap (system.sends entries) := by
  unfold entered
  induction blocks with
  | nil => rfl
  | cons block rest ih =>
    cases hblock : entries.get? block with
    | none => simpa [System.sends, hblock] using ih
    | some state => simpa [hblock] using ih

/-!
## Positions

Facts about the first positions of an order without repetitions, as far as they are
about blocks with an entry state.
-/

section Positions

variable {order : List Nat} {block n : Nat}

theorem idxOf_lt_of_mem_take (h : block ∈ order.take n) : order.idxOf block < n :=
  (List.mem_take_iff_idxOf_lt (List.mem_of_mem_take h)).1 h

theorem le_idxOf_of_mem_drop (hnodup : order.Nodup) (h : block ∈ order.drop n) :
    n ≤ order.idxOf block := by
  by_contra hlt
  have hbefore :=
    (List.mem_take_iff_idxOf_lt (List.mem_of_mem_drop h)).2 (Nat.lt_of_not_le hlt)
  exact List.disjoint_take_drop hnodup (Nat.le_refl n) hbefore h

theorem take_idxOf_succ (h : block ∈ order) :
    order.take (order.idxOf block + 1) = order.take (order.idxOf block) ++ [block] := by
  have hlt := List.idxOf_lt_length_iff.2 h
  rw [List.take_succ_eq_append_getElem hlt, List.getElem_idxOf hlt]

theorem entered_take {entries : FinMap Nat σ} (hnodup : order.Nodup) {m : Nat}
    (hle : m ≤ n)
    (hnone : ∀ {block state}, entries.get? block = some state → m ≤ order.idxOf block →
      n ≤ order.idxOf block) :
    entered entries (order.take n) = entered entries (order.take m) := by
  have hsplit := List.take_append_drop m (order.take n)
  rw [List.take_take, Nat.min_eq_left hle] at hsplit
  have hbetween : entered entries ((order.take n).drop m) = [] := by
    refine List.filter_eq_nil_iff.2 fun block hblock hentered => ?_
    obtain ⟨state, hstate⟩ := Option.isSome_iff_exists.1 hentered
    have hbefore := idxOf_lt_of_mem_take (List.mem_of_mem_drop hblock)
    rw [List.drop_take] at hblock
    have hafter := le_idxOf_of_mem_drop hnodup (List.mem_of_mem_take hblock)
    exact absurd hbefore (Nat.not_lt.2 (hnone hstate hafter))
  rw [← hsplit, entered_append, hbetween, List.append_nil]

end Positions

/-! ## The sweep -/

/-- No block has two places in the order, and what a block sends on goes to blocks
further ahead. That is asked of blocks and states, not of edges, so that it can be used
wherever states only flow along edges. -/
structure Forward (system : System σ) (order : List Nat) : Prop where
  nodup : order.Nodup
  ahead : ∀ {block state flow}, block ∈ order → flow ∈ system.run block state →
    order.idxOf block < order.idxOf flow.1

/-- The sweep has left `swept` positions behind. The blocks that were run are those
there that have an entry state, and what they send on from it has been received or is on
its way. All that is on its way or waits is ahead, and whatever has an entry state ahead
waits. -/
structure Sweeping (system : System σ) (order : List Nat) (swept : Nat)
    (blocks : List Nat) (log : List (Nat × σ)) (moment : Moment σ) : Prop where
  blocks_eq : blocks = entered moment.progress.entries (order.take swept)
  log_eq : log ++ moment.flows = blocks.flatMap (system.sends moment.progress.entries)
  visits_eq : moment.progress.visits = blocks.length
  flows_ahead : ∀ flow ∈ moment.flows, swept ≤ order.idxOf flow.1
  waits_ahead : ∀ {position}, moment.progress.pending.get? position = some () →
    swept ≤ position
  ahead_waits : ∀ {block state}, moment.progress.entries.get? block = some state →
    swept ≤ order.idxOf block →
    moment.progress.pending.get? (order.idxOf block) = some ()

namespace Sweeping

variable {system : System σ} {order : List Nat} {swept : Nat} {blocks : List Nat}
  {log : List (Nat × σ)} {progress : Progress σ} {rest : List (Nat × σ)}

theorem initial (system : System σ) (order : List Nat) (entry : Nat) (state : σ) :
    Sweeping system order 0 [] [] (.start order entry state) where
  blocks_eq := rfl
  log_eq := rfl
  visits_eq := rfl
  flows_ahead flow hflow := by cases hflow
  waits_ahead _ := Nat.zero_le _
  ahead_waits hentered _ := Moment.waits_start hentered

/-- A block ahead is given a new entry state. Nothing changes for those that were
run. -/
theorem enter {target : Nat} {out new : σ}
    (h : Sweeping system order swept blocks log ⟨progress, (target, out) :: rest⟩) :
    Sweeping system order swept blocks (log ++ [(target, out)])
      ⟨progress.enter order target new, rest⟩ := by
  have htarget : swept ≤ order.idxOf target := h.flows_ahead _ List.mem_cons_self
  -- What flows goes ahead, so the entry states behind stay as they are.
  have hbehind : ∀ block ∈ order.take swept,
      (progress.enter order target new).entries.get? block =
        progress.entries.get? block := by
    intro block hblock
    have hlt := idxOf_lt_of_mem_take hblock
    rw [Progress.get?_enter, if_neg]
    rintro rfl
    exact absurd hlt (Nat.not_lt.2 htarget)
  have hrun : ∀ block ∈ blocks, block ∈ order.take swept := by
    intro block hblock
    rw [h.blocks_eq] at hblock
    exact List.mem_of_mem_filter hblock
  refine ⟨?_, ?_, h.visits_eq, fun flow hflow =>
    h.flows_ahead flow (List.mem_cons_of_mem _ hflow), ?_, ?_⟩
  · rw [h.blocks_eq]
    exact List.filter_congr fun block hblock => by rw [hbehind block hblock]
  · rw [List.append_assoc, List.singleton_append, h.log_eq]
    refine List.flatMap_congr fun block hblock => ?_
    unfold System.sends
    rw [hbehind block (hrun block hblock)]
  · intro position hposition
    rw [Progress.waits_enter] at hposition
    split at hposition
    · rename_i heq
      exact heq ▸ htarget
    · exact h.waits_ahead hposition
  · intro block state hstate hahead
    rw [Progress.get?_enter] at hstate
    rw [Progress.waits_enter]
    split
    · rfl
    · rename_i hne
      rw [if_neg fun heq => hne (congrArg order.idxOf heq)] at hstate
      exact h.ahead_waits hstate hahead

theorem absorb {flow : Nat × σ}
    (h : Sweeping system order swept blocks log ⟨progress, flow :: rest⟩) :
    Sweeping system order swept blocks (log ++ [flow]) ⟨progress, rest⟩ where
  blocks_eq := h.blocks_eq
  log_eq := by
    rw [List.append_assoc]
    exact h.log_eq
  visits_eq := h.visits_eq
  flows_ahead other hother := h.flows_ahead other (List.mem_cons_of_mem _ hother)
  waits_ahead := h.waits_ahead
  ahead_waits := h.ahead_waits

/-- The first block that waits is run, and left behind with all positions before it.
Blocks that have an entry state wait or were run, so those positions have none that was
missed. -/
theorem take (hforward : Forward system order)
    (h : Sweeping system order swept blocks log ⟨progress, []⟩) {block : Nat}
    {state : σ} (hmem : block ∈ order)
    (hfirst : progress.pending.entries.head? = some (order.idxOf block, ()))
    (hstate : progress.entries.get? block = some state) :
    Sweeping system order (order.idxOf block + 1) (blocks ++ [block]) log
      ⟨(progress.unwait (order.idxOf block)).visited, system.run block state⟩ := by
  have hwaits : progress.pending.get? (order.idxOf block) = some () :=
    FinMap.get?_eq_some_iff.2 (List.mem_of_mem_head? hfirst)
  have hswept : swept ≤ order.idxOf block := h.waits_ahead hwaits
  have hleast : ∀ {position}, progress.pending.get? position = some () →
      order.idxOf block ≤ position :=
    fun hposition => Nat.isLE_compare.1 (FinMap.le_of_head? hfirst hposition)
  have hunwait :
      ∀ position, (progress.unwait (order.idxOf block)).visited.pending.get? position
        = if position = order.idxOf block then none else progress.pending.get? position :=
    fun position => FinMap.get?_erase _ _ _
  refine ⟨?_, ?_, ?_, fun flow hflow => hforward.ahead hmem hflow, ?_, ?_⟩
  · -- Nothing that was passed over has an entry state: it would wait, and come first.
    have hpassed := entered_take hforward.nodup hswept fun hstate hahead =>
      hleast (h.ahead_waits hstate hahead)
    have hblock : entered progress.entries [block] = [block] := by simp [entered, hstate]
    show blocks ++ [block] = entered progress.entries (order.take (order.idxOf block + 1))
    rw [take_idxOf_succ hmem, entered_append, hblock, hpassed, ← h.blocks_eq]
  · have hlog : log = blocks.flatMap (system.sends progress.entries) := by
      simpa using h.log_eq
    show log ++ system.run block state = (blocks ++ [block]).flatMap
        (system.sends progress.entries)
    rw [List.flatMap_append, ← hlog]
    simp [System.sends, hstate]
  · show progress.visits + 1 = (blocks ++ [block]).length
    rw [List.length_append, ← h.visits_eq]
    rfl
  · intro position hposition
    rw [hunwait] at hposition
    split at hposition
    · cases hposition
    · rename_i hne
      exact Nat.lt_of_le_of_ne (hleast hposition) (Ne.symm hne)
  · intro other state' hother hahead
    rw [hunwait, if_neg (Nat.ne_of_gt hahead)]
    exact h.ahead_waits hother (Nat.le_trans hswept (Nat.le_of_lt hahead))

end Sweeping

/-!
## Runs

The blocks that are run, as a record beside the iteration, and both records in one
induction: the invariant speaks of both.
-/

/-- The block that the next step runs, if it runs one. As with the record of what is
received, this is said beside the iteration and not in it. -/
def Moment.running? (order : List Nat) (moment : Moment σ) : Option Nat :=
  match moment.flows with
  | [] => moment.progress.pending.entries.head?.bind fun (position, _) =>
      (moment.progress.entries.get? (order.getD position 0)).map fun _ =>
        order.getD position 0
  | _ :: _ => none

variable [DecidableEq σ]

/-- The iteration gets from `a` to a moment, and `blocks` are those that are run on the
way, in order. -/
inductive Runs (system : System σ) (order : List Nat) (a : Moment σ) :
    List Nat → Moment σ → Prop where
  | refl : Runs system order a [] a
  | step {blocks : List Nat} {b c : Moment σ} (hruns : Runs system order a blocks b)
      (hnext : b.next system order = some c) :
      Runs system order a (blocks ++ (b.running? order).toList) c

variable {system : System σ} {order : List Nat} {good : σ → Prop} {rises : σ → σ → Prop}
  {start : Moment σ} {entry : Nat}

/-- **Every step goes on with the sweep.** A step that receives adds to the record, and
one that takes a block moves past it. -/
theorem Sweeping.next (hforward : Forward system order) {a b : Moment σ}
    (hsound : Sound system order good start entry a) {swept : Nat} {blocks : List Nat}
    {log : List (Nat × σ)} (h : Sweeping system order swept blocks log a)
    (hnext : a.next system order = some b) :
    ∃ swept', Sweeping system order swept' (blocks ++ (a.running? order).toList)
      (log ++ a.flows.head?.toList) b := by
  obtain ⟨progress, flows⟩ := a
  rcases Moment.next_cases hnext with ⟨target, out, rest, hflows, rfl⟩ |
    ⟨position, hflows, hfirst, hcases⟩
  · -- Receiving: the sweep stays where it is, and the record is one longer.
    cases hflows
    refine ⟨swept, ?_⟩
    show Sweeping system order swept (blocks ++ []) (log ++ [(target, out)]) _
    rw [List.append_nil]
    rcases progress.receive_cases system.join order target out with
      ⟨-, heq⟩ | ⟨old, -, ⟨-, heq⟩ | ⟨-, heq⟩⟩
    · simp only [heq]
      exact h.enter
    · simp only [heq]
      exact h.absorb
    · simp only [heq]
      exact h.enter
  · -- Taking a block: it has an entry state, since nothing waits without one.
    cases hflows
    obtain ⟨block, state, rfl, hstate⟩ :=
      hsound.waits (FinMap.get?_eq_some_iff.2 (List.mem_of_mem_head? hfirst))
    have hmem := hsound.entries_mem hstate
    have hrunning : Moment.running? order ⟨progress, []⟩ = some block := by
      simp only [Moment.running?, hfirst, Option.bind_some, getD_idxOf hmem, hstate,
        Option.map_some]
    rw [getD_idxOf hmem, hstate] at hcases
    rcases hcases with ⟨hnone, -⟩ | ⟨state', hstate', rfl⟩
    · cases hnone
    · cases hstate'
      rw [hrunning]
      refine ⟨order.idxOf block + 1, ?_⟩
      show Sweeping system order _ (blocks ++ [block]) (log ++ []) _
      rw [List.append_nil]
      exact h.take hforward hmem hfirst hstate

theorem Leads.exists_sweeping (laws : Lawful system order good rises)
    (hforward : Forward system order) {state : σ} (hgood : good state)
    (hentry : entry ∈ order) {moment : Moment σ}
    (h : Leads system order (.start order entry state) moment) :
    ∃ swept blocks log, Runs system order (.start order entry state) blocks moment ∧
      Receives system order (.start order entry state) log moment ∧
      Sweeping system order swept blocks log moment := by
  induction h with
  | refl => exact ⟨0, [], [], .refl, .refl, .initial system order entry state⟩
  | tail hb hnext ih =>
    obtain ⟨swept, blocks, log, hruns, hlog, hsweeping⟩ := ih
    have hsound := (Sound.initial hgood hentry).leads laws hb
    obtain ⟨swept', hnew⟩ := hsweeping.next hforward hsound hnext
    exact ⟨swept', _, _, hruns.step hnext, hlog.step hnext, hnew⟩

/-- **The iteration is a single sweep.** The blocks that are run are those that have an
entry state at the end, each once and in order, and what is received is what they send
on from it. -/
theorem Forward.runs_receives (hforward : Forward system order)
    (laws : Lawful system order good rises) {state : σ} (hgood : good state)
    (hentry : entry ∈ order) {last : Progress σ}
    (hlast : Leads system order (.start order entry state) ⟨last, []⟩)
    (hend : last.pending.entries = []) :
    Runs system order (.start order entry state) (entered last.entries order) ⟨last, []⟩ ∧
      Receives system order (.start order entry state)
        (order.flatMap (system.sends last.entries)) ⟨last, []⟩ ∧
      last.visits = (entered last.entries order).length := by
  obtain ⟨swept, blocks, log, hruns, hlog, hsweeping⟩ :=
    hlast.exists_sweeping laws hforward hgood hentry
  have hblocks : blocks = entered last.entries order := by
    -- Nothing waits, so nothing ahead has an entry state.
    have hahead : ∀ {block state}, last.entries.get? block = some state →
        swept ≤ order.idxOf block →
        swept + order.length ≤ order.idxOf block := by
      intro block state hstate hahead
      have hwaits := FinMap.get?_eq_some_iff.1 (hsweeping.ahead_waits hstate hahead)
      rw [hend] at hwaits
      cases hwaits
    have hall := entered_take hforward.nodup (Nat.le_add_right swept order.length) hahead
    rw [List.take_of_length_le (Nat.le_add_left _ _)] at hall
    rw [hsweeping.blocks_eq, hall]
  have hreceived : log = order.flatMap (system.sends last.entries) := by
    rw [← flatMap_sends_entered, ← hblocks, ← hsweeping.log_eq, List.append_nil]
  rw [← hblocks, ← hreceived]
  exact ⟨hruns, hlog, hsweeping.visits_eq⟩

end Custody.Flow
