import Custody.Proofs.Env.Order
import Custody.Proofs.Path.Interpreter

/-!
# Accesses and what is held

An access to a member goes along a path, and each guarded member on the path has its
say. `checkPlace_eq_nil_iff` puts the check in one line: an access is clean exactly if
every guard it needs (`guardsOf`) is held in a mode that is good enough. What an access
needs does not depend on the environment, so whoever holds more has no more reports, and
the other laws compare lists of guards. To read needs the same guards as any access, all
of them in shared mode (`guardsOf_read`). The guards of an object on the way are the
last ones in the list (`guardsOf_read_of_onWay`).

A member that is part of another is accessed as the other is, but a pointer on the way
is only read. So a read of the way is all that a clean access vouches for: a write
through a pointer says nothing about a write to the pointer.

## Two ways of holding more

`HoldsAtLeast` compares what demands are met, and is enough for "clean stays clean". Of
the reports it says nothing: a report quotes the state that was found, and where a
demand is met by neither environment the two may quote different states. `promote` turns
shared holds into exclusive ones and touches nothing else, and for it the reports that
are left are among those before, word for word and in order (`checkPlace_promote`).
-/

set_option autoImplicit false

namespace Custody

/-- `OnWay part place`: an access to `place` comes by `part`, which is the place itself,
or the object that a field on the path is part of, or the pointer that is followed. -/
inductive Ref.OnWay (part : Ref) : Ref → Prop where
  | here : OnWay part part
  | base {base : Ref} (name : String) (h : OnWay part base) : OnWay part (.field base name)
  | pointer {pointer : Ref} (h : OnWay part pointer) : OnWay part (.deref pointer)

/-! ## Holding more -/

theorem HeldState.satisfies_shared {state : HeldState} {mode : Mode}
    (h : state.satisfies mode = true) :
    state.satisfies .shared = true := by
  cases state with
  | notHeld => cases h
  | heldShared => rfl
  | heldExclusive => rfl
  | unknown => cases h

namespace Env

/-- Every demand that is met by what `weak` holds is met by what `strong` holds. It is
not an order of states: `unknown` and `notHeld` meet no demand, and are worth the
same. -/
def HoldsAtLeast (strong weak : Env) : Prop :=
  ∀ ref mode, (weak.state ref).satisfies mode = true →
    (strong.state ref).satisfies mode = true

/-- The environment in which the chosen capabilities, where they are held as shared, are
held as exclusive. -/
def promote (env : Env) (chosen : Ref → Bool) : Env :=
  { env with
    held := env.held.mapValues fun ref fact =>
      if chosen ref && fact.state = .heldShared
        then { fact with state := .heldExclusive } else fact }

theorem state_promote (env : Env) (chosen : Ref → Bool) (ref : Ref) :
    (env.promote chosen).state ref =
      if chosen ref = true ∧ env.state ref = .heldShared then .heldExclusive
        else env.state ref := by
  unfold state promote
  rw [FinMap.get?_mapValues]
  cases env.held.get? ref with
  | none => simp
  | some fact =>
    simp only [Option.map_some, Option.getD_some, Bool.and_eq_true, decide_eq_true_eq]
    split
    · rfl
    · rfl

theorem holdsAtLeast_promote (env : Env) (chosen : Ref → Bool) :
    (env.promote chosen).HoldsAtLeast env := by
  intro ref mode h
  rw [state_promote]
  split
  · rfl
  · exact h

/-- A guard, with the mode it is needed in, is held well enough. The text of the guard
is carried along for messages and asks for nothing. -/
def Meets (env : Env) (guard : Ref × Mode × String) : Prop :=
  (env.state guard.1).satisfies guard.2.1 = true

end Env

namespace Context

variable {ctx : Context} {env : Env} {access : Access}

/-!
## What an access needs

The check goes along the path and reports as it goes. Without the reports, what is left
of it is a list of guards that can be written down before anything is known about holds.
-/

theorem checkGuard_eq_nil_iff {accessed : Ref} {guard : Guard} {holder : Option Ref} :
    checkGuard env access accessed guard holder = [] ↔
      ∀ ref, guardRef guard holder = .ok ref →
        (env.state ref).satisfies access.guardMode = true := by
  unfold checkGuard
  cases href : guardRef guard holder with
  | error error => simp
  | ok ref => simp

theorem checkMember_eq_nil_iff {accessed member : Ref} {pointee : Bool} :
    ctx.checkMember env access accessed member pointee = [] ↔
      ∀ guard ∈ (ctx.guardOf access member pointee).toList, env.Meets guard := by
  unfold checkMember guardOf
  cases hmember : ctx.member? member with
  | none => simp
  | some found =>
    obtain ⟨declared, holder⟩ := found
    cases hguard : ctx.table.guard? declared pointee with
    | none => simp [hguard]
    | some guard =>
      simp only [hguard, checkGuard_eq_nil_iff]
      cases href : guardRef guard holder with
      | error error => simp [hguard, href, Except.toOption]
      | ok ref => simp [hguard, href, Except.toOption, Env.Meets]

/-- **An access is clean exactly if all the guards it needs are held.** The induction is
on the path, and at a pointer the rest of the path is only read. -/
theorem checkPlace_eq_nil_iff {place : Ref} :
    ctx.checkPlace env access place = [] ↔
      ∀ guard ∈ ctx.guardsOf access place, env.Meets guard := by
  induction place generalizing access with
  | field base name ih =>
    simp only [checkPlace, guardsOf, List.append_eq_nil_iff, List.forall_mem_append,
      checkMember_eq_nil_iff, ih]
  | deref pointer ih =>
    simp only [checkPlace, guardsOf, List.append_eq_nil_iff, List.forall_mem_append,
      checkMember_eq_nil_iff, ih]
  | global name => simp only [checkPlace, guardsOf, checkMember_eq_nil_iff]
  | var name => simp [checkPlace, guardsOf]
  | self => simp [checkPlace, guardsOf]
  | param index => simp [checkPlace, guardsOf]

def asRead (guard : Ref × Mode × String) : Ref × Mode × String :=
  (guard.1, .shared, guard.2.2)

theorem guardOf_read (access : Access) (member : Ref) (pointee : Bool) :
    (ctx.guardOf .read member pointee).toList =
      (ctx.guardOf access member pointee).toList.map asRead := by
  unfold guardOf
  cases ctx.member? member with
  | none => rfl
  | some found =>
    cases hguard : ctx.table.guard? found.1 pointee with
    | none => simp [hguard]
    | some guard => cases href : (guardRef guard found.2).toOption <;>
        simp [hguard, href, asRead, Access.guardMode]

theorem guardsOf_read (access : Access) (place : Ref) :
    ctx.guardsOf .read place = (ctx.guardsOf access place).map asRead := by
  induction place generalizing access with
  | field base name ih =>
    rw [guardsOf, guardsOf, guardOf_read access, ih access, List.map_append]
  | deref pointer ih =>
    -- the pointer is read by either access
    rw [guardsOf, guardsOf, guardOf_read access, List.map_append, ← ih .read]
  | global name => rw [guardsOf, guardsOf, guardOf_read access]
  | var name => rfl
  | self => rfl
  | param index => rfl

theorem guardsOf_read_of_onWay {part place : Ref} (h : part.OnWay place) :
    ctx.guardsOf .read part <:+ ctx.guardsOf .read place := by
  induction h with
  | here => exact List.suffix_refl _
  | base name _ ih => exact ih.trans (List.suffix_append _ _)
  | pointer _ ih => exact ih.trans (List.suffix_append _ _)

/-!
## The laws

Each is a fact about lists of guards, by way of `checkPlace_eq_nil_iff`.
-/

theorem checkPlace_read_of_onWay {part place : Ref} (h : part.OnWay place)
    (hclean : ctx.checkPlace env access place = []) :
    ctx.checkPlace env .read part = [] := by
  rw [checkPlace_eq_nil_iff] at hclean ⊢
  intro guard hguard
  have hread : guard ∈ ctx.guardsOf .read place := (guardsOf_read_of_onWay h).subset hguard
  rw [guardsOf_read access] at hread
  obtain ⟨needed, hneeded, rfl⟩ := List.mem_map.1 hread
  exact HeldState.satisfies_shared (hclean needed hneeded)

theorem checkPlace_of_holdsAtLeast {strong : Env} {place : Ref}
    (h : strong.HoldsAtLeast env) (hclean : ctx.checkPlace env access place = []) :
    ctx.checkPlace strong access place = [] := by
  rw [checkPlace_eq_nil_iff] at hclean ⊢
  intro guard hguard
  exact h _ _ (hclean guard hguard)

/-- A report that is left after capabilities are promoted was there before, word for
word. -/
theorem checkMember_promote (chosen : Ref → Bool) (accessed member : Ref) (pointee : Bool) :
    (ctx.checkMember (env.promote chosen) access accessed member pointee).Sublist
      (ctx.checkMember env access accessed member pointee) := by
  unfold checkMember
  split
  · exact List.Sublist.refl _
  · split
    · exact List.Sublist.refl _
    · unfold checkGuard
      split
      · exact List.Sublist.refl _
      · next ref _ =>
        rw [Env.state_promote]
        split
        · have hall : HeldState.heldExclusive.satisfies access.guardMode = true := rfl
          rw [if_pos hall]
          exact List.nil_sublist _
        · exact List.Sublist.refl _

theorem checkPlace_promote (chosen : Ref → Bool) (access : Access) (place : Ref) :
    (ctx.checkPlace (env.promote chosen) access place).Sublist
      (ctx.checkPlace env access place) := by
  induction place generalizing access with
  | field base name ih => exact (checkMember_promote chosen _ _ _).append (ih access)
  | deref pointer ih => exact (checkMember_promote chosen _ _ _).append (ih .read)
  | global name => exact checkMember_promote chosen _ _ _
  | var name => exact List.Sublist.refl _
  | self => exact List.Sublist.refl _
  | param index => exact List.Sublist.refl _

/-- **Checks of accesses are monotone.** An access is clean exactly if every guard along
its path is held as it needs it. So what may be written may be read; of what may be
accessed, all that the path comes by may be read; and holding more makes nothing
unclean. Where shared holds become exclusive, reports only go away. -/
theorem checkPlace_monotone (ctx : Context) (env : Env) (place : Ref) :
    (∀ access, ctx.checkPlace env access place = [] ↔
      ∀ guard ∈ ctx.guardsOf access place, env.Meets guard) ∧
    (ctx.checkPlace env .write place = [] → ctx.checkPlace env .read place = []) ∧
    (∀ access part, part.OnWay place → ctx.checkPlace env access place = [] →
      ctx.checkPlace env .read part = []) ∧
    (∀ strong : Env, strong.HoldsAtLeast env →
      ∀ access, ctx.checkPlace env access place = [] →
        ctx.checkPlace strong access place = []) ∧
    ∀ chosen, (env.promote chosen).HoldsAtLeast env ∧
      ∀ access, (ctx.checkPlace (env.promote chosen) access place).Sublist
        (ctx.checkPlace env access place) := by
  refine ⟨fun access => checkPlace_eq_nil_iff, ?_, ?_, ?_, ?_⟩
  · intro hclean
    exact checkPlace_read_of_onWay .here hclean
  · intro access part hpart hclean
    exact checkPlace_read_of_onWay hpart hclean
  · intro strong hstrong access hclean
    exact checkPlace_of_holdsAtLeast hstrong hclean
  · intro chosen
    exact ⟨env.holdsAtLeast_promote chosen, fun access =>
      checkPlace_promote chosen access place⟩

/-- A list node that guards its own link and the data it points to. -/
def nodeContext : Context :=
  let lock : Ref := .field .self "lock"
  let fields :=
    FinMap.ofList [("lock", CType.object "spinlock_t"), ("next", ⟨"node", 1⟩),
      ("data", ⟨"int", 1⟩)]
  let decls : Declarations :=
    { Declarations.empty with structs := FinMap.ofList [("node", fields)] }
  let guards : Guards := [(.field "node" "next", ⟨lock, ⟨0⟩, false, "__guarded_by(&lock)"⟩),
    (.field "node" "data", ⟨lock, ⟨0⟩, true, "__pt_guarded_by(&lock)"⟩)]
  { table := ⟨decls, guards, .empty, []⟩
    unit := "list.c"
    decl := default
    vars := FinMap.ofList [("n", ⟨"node", 1⟩)]
    own := default }

/-- Data of the next node is written under the lock of that node, while the link is read
under a shared hold of the lock of its own node. The link may not be written, until that
hold is exclusive too. -/
theorem checkPlace_monotone_node :
    let link : Ref := .field (.deref (.var "n")) "next"
    let data : Ref := .deref (.field (.deref link) "data")
    let env := (Env.empty.set ⟨.field (.deref link) "lock", none⟩ .heldExclusive).set
      ⟨.field (.deref (.var "n")) "lock", none⟩ .heldShared
    let promoted := env.promote fun _ => true
    nodeContext.checkPlace env .write data = [] ∧
    nodeContext.checkPlace env .read data = [] ∧
      link.OnWay data ∧ nodeContext.checkPlace env .read link = [] ∧
      nodeContext.checkPlace env .write link ≠ [] ∧
      promoted.HoldsAtLeast env ∧ nodeContext.checkPlace promoted .write data = [] ∧
      nodeContext.checkPlace promoted .write link = [] := by
  intro link data env promoted
  have hclean : nodeContext.checkPlace env .write data = [] := by decide +kernel
  have hway : link.OnWay data := .pointer (.base "data" (.pointer .here))
  obtain ⟨-, hread, hpart, hstrong, hpromote⟩ := checkPlace_monotone nodeContext env data
  obtain ⟨hmore, -⟩ := hpromote fun _ => true
  exact ⟨hclean, hread hclean, hway, hpart .write link hway hclean, by decide +kernel,
    hmore, hstrong promoted hmore .write hclean, by decide +kernel⟩

end Context

end Custody
