import Custody.Capability.Instance
import Mathlib.Logic.Function.Basic

/-!
# What the alias test rules out

A memory gives every reference a place: an object, and the fields that lead into it.
Named objects are whole objects and all different. Where a pointer leads, what a
parameter is and which object holds a guarded member is up to the memory.

The alias test is right in every memory: references that it tells apart have different
places (`Ref.locate_ne`). It is not exact, since it does not tell the target of a
pointer from the fields of that target. But where one of the two paths goes by fields
alone it is: what the test does not tell apart from such a path, some memory puts at the
same place (`Ref.exists_locate_eq`).

A place is an object with a path of fields, and not an address. By addresses a structure
and its first field would be one place, though to lock the one is not to lock the other.
Here two places are the same only if the fields are the same, and that is what the test
has to be right about.

For the second half one kind of memory is enough, in which all that is not named is at a
single place (`Memory.leadingTo`). A path by fields alone does not depend on where that
is, so it can be chosen as the place that makes the other path come out there.
-/

set_option autoImplicit false

namespace Custody

/-- An object, and the fields that lead to a part of it, the outermost first. -/
structure Memory.Place (Obj : Type) where
  object : Obj
  fields : List String

/-- What references are to. Named objects are different objects; nothing is said of
where pointers and parameters lead, and it may be anywhere, parts of named objects
included. -/
structure Memory (Obj : Type) where
  global : String → Obj
  var : String → Obj
  global_injective : Function.Injective global
  var_injective : Function.Injective var
  global_ne_var : ∀ name other, global name ≠ var other
  self : Memory.Place Obj
  param : Nat → Memory.Place Obj
  /-- Where the pointer at a place leads. -/
  pointee : Memory.Place Obj → Memory.Place Obj

/-- A memory in which all that is not named is at one place. -/
def Memory.leadingTo (target : Memory.Place (Bool × String)) : Memory (Bool × String) where
  global name := (true, name)
  var name := (false, name)
  global_injective _ _ h := (Prod.mk.inj h).2
  var_injective _ _ h := (Prod.mk.inj h).2
  global_ne_var _ _ h := Bool.noConfusion (Prod.mk.inj h).1
  self := target
  param _ := target
  pointee _ := target

namespace Ref

open Memory (Place)

variable {Obj : Type} {a b : Ref}

def locate (memory : Memory Obj) : Ref → Place Obj
  | global name => ⟨memory.global name, []⟩
  | var name => ⟨memory.var name, []⟩
  | self => memory.self
  | param index => memory.param index
  | deref pointer => memory.pointee (locate memory pointer)
  | field base name => ⟨(locate memory base).object, (locate memory base).fields ++ [name]⟩

/-- Whether a path starts from a named object and goes on by fields alone. Where such a
path leads is the same in every memory, up to what the objects are. -/
def isDirect : Ref → Bool
  | global _ | var _ => true
  | self | param _ | deref _ => false
  | field base _ => base.isDirect

theorem locate_ne (memory : Memory Obj) (h : a.mayAlias b = false) :
    a.locate memory ≠ b.locate memory := by
  intro hsame
  -- The recursion of `mayAlias`. Two named objects differ in the object, a named object
  -- and a field in the length of the path, and two fields in the last name or the base.
  induction a generalizing b with
  | global name =>
    cases b with
    | global other =>
      have hname := memory.global_injective (congrArg Place.object hsame)
      simp [mayAlias, hname] at h
    | var other => exact memory.global_ne_var name other (congrArg Place.object hsame)
    | field base other => simpa [locate] using congrArg Place.fields hsame
    | _ => simp [mayAlias] at h
  | var name =>
    cases b with
    | global other =>
      exact memory.global_ne_var other name (congrArg Place.object hsame).symm
    | var other =>
      have hname := memory.var_injective (congrArg Place.object hsame)
      simp [mayAlias, hname] at h
    | field base other => simpa [locate] using congrArg Place.fields hsame
    | _ => simp [mayAlias] at h
  | field base name ih =>
    cases b with
    | global other | var other => simpa [locate] using congrArg Place.fields hsame
    | field base' other =>
      obtain ⟨hobject, hfields⟩ := Place.mk.inj hsame
      obtain ⟨hbase, hname⟩ := List.append_inj' hfields rfl
      have hbases : base.mayAlias base' = false := by
        simpa [mayAlias, List.cons.inj hname] using h
      exact ih hbases (congrArg₂ Place.mk hobject hbase)
    | _ => simp [mayAlias] at h
  | self | param _ | deref _ _ => cases b <;> simp [mayAlias] at h

theorem mayAlias_comm (a b : Ref) : a.mayAlias b = b.mayAlias a := by
  induction a generalizing b with
  | field base name ih => cases b <;> simp [mayAlias, ih, Bool.beq_comm]
  | _ => cases b <;> simp [mayAlias, Bool.beq_comm]

theorem locate_leadingTo (h : a.isDirect = true) (target other : Place (Bool × String)) :
    a.locate (.leadingTo target) = a.locate (.leadingTo other) := by
  induction a with
  | global name | var name => rfl
  | self | param _ | deref _ _ => cases h
  | field base name ih => rw [locate, ih h, locate]

theorem exists_locate_eq (hdirect : b.isDirect = true) (h : a.mayAlias b = true) :
    ∃ target, a.locate (.leadingTo target) = b.locate (.leadingTo target) := by
  induction a generalizing b with
  | self | param _ | deref _ _ =>
    -- whatever is not named can be where `b` is
    exact ⟨b.locate (.leadingTo ⟨default, []⟩), locate_leadingTo hdirect _ _⟩
  | global name =>
    cases b with
    | global other =>
      obtain rfl : name = other := by simpa [mayAlias] using h
      exact ⟨⟨default, []⟩, rfl⟩
    | self | param _ | deref _ => cases hdirect
    | _ => simp [mayAlias] at h
  | var name =>
    cases b with
    | var other =>
      obtain rfl : name = other := by simpa [mayAlias] using h
      exact ⟨⟨default, []⟩, rfl⟩
    | self | param _ | deref _ => cases hdirect
    | _ => simp [mayAlias] at h
  | field base name ih =>
    cases b with
    | field base' other =>
      obtain ⟨rfl, hbases⟩ : name = other ∧ base.mayAlias base' = true := by
        simpa [mayAlias] using h
      obtain ⟨target, htarget⟩ := ih (b := base') hdirect hbases
      exact ⟨target, by rw [locate, locate, htarget]⟩
    | self | param _ | deref _ => cases hdirect
    | _ => simp [mayAlias] at h

end Ref

namespace Instance

variable {a b : Instance}

theorem mayAlias_eq_false_iff :
    a.mayAlias b = false ↔
      a.ref ≠ b.ref ∧
        ((∃ x y, a.type? = some x ∧ b.type? = some y ∧ x ≠ y) ∨
          a.ref.mayAlias b.ref = false) := by
  unfold mayAlias
  cases a.type? with
  | none => simp
  | some x =>
    cases b.type? with
    | none => simp
    | some y => simp [imp_iff_not_or]

theorem mayAlias_comm (a b : Instance) : a.mayAlias b = b.mayAlias a := by
  unfold mayAlias
  rw [Bool.beq_comm, Ref.mayAlias_comm]
  cases a.type? <;> cases b.type? <;> simp [Bool.beq_comm]

/-- **The alias test tells only different objects apart.** References that it tells
apart are at different places in every memory. So instances that it tells apart are of
two known types that differ, or at different places in every memory. Which of two
references or instances comes first does not matter. And if one of two references goes
by fields alone, the test tells them apart whenever they are at different places in
every memory. -/
theorem mayAlias_sound :
    (∀ a b : Ref, a.mayAlias b = false →
      ∀ (Obj : Type) (memory : Memory Obj), a.locate memory ≠ b.locate memory) ∧
    (∀ a b : Instance, a.mayAlias b = false →
      (∃ x y, a.type? = some x ∧ b.type? = some y ∧ x ≠ y) ∨
        ∀ (Obj : Type) (memory : Memory Obj), a.ref.locate memory ≠ b.ref.locate memory) ∧
    (∀ a b : Ref, a.mayAlias b = b.mayAlias a) ∧
    (∀ a b : Instance, a.mayAlias b = b.mayAlias a) ∧
    ∀ a b : Ref, b.isDirect = true →
      (∀ (Obj : Type) (memory : Memory Obj), a.locate memory ≠ b.locate memory) →
        a.mayAlias b = false := by
  refine ⟨fun a b h Obj memory => Ref.locate_ne memory h, ?_, Ref.mayAlias_comm,
    mayAlias_comm, ?_⟩
  · intro a b h
    obtain ⟨-, htypes | hrefs⟩ := mayAlias_eq_false_iff.1 h
    · exact .inl htypes
    · exact .inr fun Obj memory => Ref.locate_ne memory hrefs
  · intro a b hdirect happart
    rw [← Bool.not_eq_true]
    intro h
    obtain ⟨target, htarget⟩ := Ref.exists_locate_eq hdirect h
    exact happart _ _ htarget

/-- Part of what a pointer leads to is no whole named object, although the target itself
may be one. -/
theorem mayAlias_sound_part :
    let target : Ref := .deref (.var "p")
    let device : Ref := .global "device"
    (Ref.field (.field target "inner") "lock").mayAlias (.field device "lock") = false ∧
      (∀ (Obj : Type) (memory : Memory Obj),
        (Ref.field (.field target "inner") "lock").locate memory ≠
          (Ref.field device "lock").locate memory) ∧
      target.mayAlias device = true ∧
      target.locate (.leadingTo ⟨(true, "device"), []⟩) =
        device.locate (.leadingTo ⟨(true, "device"), []⟩) :=
  ⟨by decide, mayAlias_sound.1 _ _ (by decide), by decide, rfl⟩

end Instance

end Custody
