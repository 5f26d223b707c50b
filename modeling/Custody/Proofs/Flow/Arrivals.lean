import Custody.Proofs.Flow.Invariant

/-!
# What a block has received

An entry state is put together from all that flows into its block, in the order in which
it arrives. A block that is run again sends on something new, and what it sent before is
not taken back: it has been joined, and joins are not undone. `Receives a log b` keeps
the record: `log` is all that was received on the way from `a` to `b`.

* `Receives.get?_entries` — at any moment the entry state of a block is the join of what
  has arrived there;
* `Receives.mem_of_end` — at the end the record has all that the blocks send on from the
  entry states they have now. It may well have more.

The first is an equation, and asks nothing of the states or of the join. It is what
makes it possible to say in which cases the result of an iteration is *not* what the
paths in it would give (`Proofs/Analysis/Transient`), and that without cycles it always
is (`Proofs/Analysis/Acyclic`). An inequality would do for neither.

The record is a relation beside the run and not a field of `Moment`: what was received
is nothing that the iteration knows, and `Moment.next` should not have to carry it
along.
-/

set_option autoImplicit false

namespace Custody.Flow

variable {σ : Type}

/-- The join of states, from left to right, if there are any. There is no least state to
begin with, and a block that nothing arrives at has no entry state at all. -/
def joinAll (join : σ → σ → σ) : List σ → Option σ
  | [] => none
  | state :: rest => some (rest.foldl join state)

theorem joinAll_append_singleton (join : σ → σ → σ) (states : List σ) (last : σ) :
    joinAll join (states ++ [last]) =
      some ((joinAll join states).elim last (join · last)) := by
  cases states with
  | nil => rfl
  | cons first rest => simp [joinAll]

/-- A join that a question goes through can be asked for part by part. For a question
like "what is the state of this capability", which a join answers pointwise, this turns
an equation between environments into one between four-valued states. -/
theorem joinAll_map {τ : Type} {join : σ → σ → σ} {join' : τ → τ → τ} {f : σ → τ}
    (hf : ∀ a b, f (join a b) = join' (f a) (f b)) (states : List σ) :
    joinAll join' (states.map f) = (joinAll join states).map f := by
  cases states with
  | nil => rfl
  | cons first rest =>
    simp only [joinAll, List.map_cons, Option.map_some, List.foldl_map]
    exact congrArg some (List.foldl_hom f fun a b => (hf a b).symm)

/-- Of all that flows, what flows into a block. -/
def arrivals (block : Nat) (flows : List (Nat × σ)) : List σ :=
  (flows.filter (·.1 = block)).map (·.2)

@[simp] theorem mem_arrivals {block : Nat} {flows : List (Nat × σ)} {state : σ} :
    state ∈ arrivals block flows ↔ (block, state) ∈ flows := by
  simp [arrivals]

theorem arrivals_append (block : Nat) (flows more : List (Nat × σ)) :
    arrivals block (flows ++ more) = arrivals block flows ++ arrivals block more := by
  simp [arrivals]

variable [DecidableEq σ]

theorem Progress.get?_receive (progress : Progress σ) (join : σ → σ → σ) (order : List Nat)
    (target other : Nat) (out : σ) :
    (progress.receive join order target out).entries.get? other
      = if other = target then some ((progress.entries.get? target).elim out (join · out))
        else progress.entries.get? other := by
  rcases progress.receive_cases join order target out with
    ⟨hnone, heq⟩ | ⟨old, hold, ⟨hjoin, heq⟩ | ⟨-, heq⟩⟩
  · rw [heq, get?_enter, hnone]
    rfl
  · -- Nothing is new in `out`, so the old state is the join.
    rw [heq, hold]
    split
    · rename_i hother
      simp [hother, hold, hjoin]
    · rfl
  · rw [heq, get?_enter, hold]
    rfl

/-- The iteration gets from `a` to a moment, and `log` is all that blocks receive on the
way, in order. A step receives the first of the flows, if there is one. -/
inductive Receives (system : System σ) (order : List Nat) (a : Moment σ) :
    List (Nat × σ) → Moment σ → Prop where
  | refl : Receives system order a [] a
  | step {log : List (Nat × σ)} {b c : Moment σ} (hlog : Receives system order a log b)
      (hnext : b.next system order = some c) :
      Receives system order a (log ++ b.flows.head?.toList) c

variable {system : System σ} {order : List Nat}

theorem Leads.exists_receives {a b : Moment σ} (h : Leads system order a b) :
    ∃ log, Receives system order a log b := by
  induction h with
  | refl => exact ⟨[], .refl⟩
  | tail _ hnext ih =>
    obtain ⟨log, hlog⟩ := ih
    exact ⟨_, hlog.step hnext⟩

namespace Receives

variable {a b : Moment σ} {log : List (Nat × σ)}

theorem leads (h : Receives system order a log b) : Leads system order a b := by
  induction h with
  | refl => exact .refl a
  | step _ hnext ih => exact ih.trans (.head hnext (.refl _))

/-- **An entry state is the join of all that has arrived**, after what was there at the
start. A state that was absorbed is in the join like any other; it only changes
nothing. -/
theorem get?_entries (h : Receives system order a log b) (block : Nat) :
    b.progress.entries.get? block
      = joinAll system.join ((a.progress.entries.get? block).toList
        ++ arrivals block log) := by
  induction h with
  | refl => cases h : a.progress.entries.get? block <;> rfl
  | @step log b c _ hnext ih =>
    rcases Moment.next_cases hnext with
      ⟨target, out, rest, hflows, rfl⟩ | ⟨position, hflows, -, hcases⟩
    · rw [Progress.get?_receive, hflows, arrivals_append]
      by_cases hblock : block = target
      · subst hblock
        simp only [↓reduceIte, ih, List.head?_cons, Option.toList_some]
        rw [← List.append_assoc,
          show arrivals block [(block, out)] = [out] by simp [arrivals],
          joinAll_append_singleton]
      · have hother : arrivals block [(target, out)] = [] := by
          simp [arrivals, Ne.symm hblock]
        simpa [hblock, hother] using ih
    · -- A block is taken: nothing is received, and no entry state changes.
      have hsame : c.progress.entries = b.progress.entries := by
        rcases hcases with ⟨-, rfl⟩ | ⟨state, -, rfl⟩ <;> rfl
      simpa [hflows, hsame] using ih

end Receives

/-!
## What the blocks send on from the entry states they have

The worklist again, with "is in the record" for what is done with a flow. The record
only grows, so nothing that was settled is unsettled.
-/

namespace Receives

variable {good : σ → Prop} {rises : σ → σ → Prop} {entry : Nat} {state : σ}
  {log : List (Nat × σ)}

theorem settled (laws : Lawful system order good rises) (hgood : good state)
    (hentry : entry ∈ order) {moment : Moment σ}
    (h : Receives system order (.start order entry state) log moment) :
    Settled system order (· ∈ log) moment := by
  induction h with
  | refl => exact Settled.initial system order _ entry state
  | @step log b c hlog hnext ih =>
    have hsound : Sound system order good (.start order entry state) entry b :=
      (Sound.initial hgood hentry).leads laws hlog.leads
    have hkeep : ∀ flow, flow ∈ log → flow ∈ log ++ b.flows.head?.toList :=
      fun flow hmem => List.mem_append_left _ hmem
    cases hsound.move hnext with
    | first => exact ih.enter (fun _ _ _ flow _ => hkeep flow) (by simp)
    | absorbed => exact ih.absorb hkeep (by simp)
    | changed => exact ih.enter (fun _ _ _ flow _ => hkeep flow) (by simp)
    | taken _ hstate => simpa using ih.take hsound.entries_mem hstate

/-- **At the end all that blocks send on has been received.** The record may have more,
from entry states that have changed since. -/
theorem mem_of_end (laws : Lawful system order good rises) (hgood : good state)
    (hentry : entry ∈ order) {last : Progress σ}
    (h : Receives system order (.start order entry state) log ⟨last, []⟩)
    (hend : last.pending.entries = []) {block : Nat} {final : σ}
    (hfinal : last.entries.get? block = some final) :
    ∀ flow ∈ system.run block final, flow ∈ log :=
  (h.settled laws hgood hentry).of_end hend hfinal

end Receives

end Custody.Flow
