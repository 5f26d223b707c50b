import Custody.Proofs.Except
import Custody.Table.Scope

/-!
# Binding a template

A clause is read once, in the scope of the callee, and its template is bound anew at
each call. The text of the clause could as well be read again at each call, with the
arguments in place of the parameters. `objectNamed_bound` says that what can be read
there is what the template is bound to.

The two take dereferences and addresses apart in different ways: reading goes by the
forms of an expression, binding by the steps of a path. And a parameter, always a place
for the callee, may turn into an address. `Operand.Binds` is what holds between the
operands all the same.

There are templates to which nothing corresponds at the call. In `&l` the address of the
parameter itself is taken; if the argument is an address already, there is no address of
that, but the template is only `l` and can be bound. Where no clause does this
(`Expr.SparesParams`), reading and binding agree altogether.

## Why a relation between operands

`Ref.bindRoot` binds a path and gives an operand, since a parameter that is bound to
`&x` turns from a place into an address. Of an operand that is an address itself, the
path has to become a place: the address of what became an address does not exist.
`Binds` has these two cases, and a dereference on both sides keeps it. Fields and
addresses ask for a place, so that only the first case is left for them.

The names that a clause can use are assumed to mean a parameter, a global object or a
token (`IsTemplateRoot`). That is so in the scope of every function
(`Scope.isTemplateRoot_of_root`). A name that meant a path through a parameter would be
missed by `withArgument`, which only looks at parameters themselves.
-/

set_option autoImplicit false

namespace Custody

/-- What a name can mean to a clause: a parameter, a global object or a token. Only the
parameter is replaced at a call. -/
inductive Operand.IsTemplateRoot : Operand → Prop where
  | param (index : Nat) : IsTemplateRoot (.place (.param index))
  | object (name : String) : IsTemplateRoot (.place (.global name))
  | token (name : String) : IsTemplateRoot (.address (.global name))

theorem Scope.isTemplateRoot_of_root {decls : Declarations} {decl : FunctionDecl}
    {name : String} {operand : Operand}
    (h : (Scope.function decl).root decls name = some operand) :
    operand.IsTemplateRoot := by
  rcases Option.or_eq_some_iff.1 h with hown | ⟨-, hglobal⟩
  · obtain ⟨index, -, rfl⟩ := Option.map_eq_some_iff.1 hown
    exact .param index
  · unfold Declarations.globalRoot at hglobal
    split at hglobal
    · cases hglobal
      exact .token name
    · split at hglobal
      · cases hglobal
        exact .object name
      · cases hglobal

/-- The operand with the argument in place of the parameter, if there is one. -/
def Operand.withArgument (binder : Ref → Option Operand) : Operand → Operand
  | place (.param index) => (binder (.param index)).getD (.place (.param index))
  | operand => operand

def boundRoots (roots : String → Option Operand) (binder : Ref → Option Operand)
    (name : String) : Option Operand :=
  (roots name).map (·.withArgument binder)

/-- What an operand of the callee is at the call. A place may become an address; an
address stays one, and so the path to its object has to become a place. -/
inductive Operand.Binds (binder : Ref → Option Operand) : Operand → Operand → Prop where
  | place {ref : Ref} {bound : Operand} (h : ref.bindRoot binder = .ok bound) :
      Binds binder (.place ref) bound
  | address {ref target : Ref} (h : ref.bindRoot binder = .ok (.place target)) :
      Binds binder (.address ref) (.address target)

section Binding

variable {roots : String → Option Operand} {binder : Ref → Option Operand}

/-!
## Paths

A binder that has values for parameters only leaves all other paths where they start.
-/

namespace Ref

variable {ref : Ref} {name : String} {bound : Operand}

theorem bindRoot_deref_eq_ok_iff :
    (deref ref).bindRoot binder = .ok bound ↔
      ∃ pointer, ref.bindRoot binder = .ok pointer ∧ pointer.deref = bound := by
  rw [bindRoot, bind_eq_ok_iff]
  simp only [pure_eq_ok_iff]

theorem bindRoot_field_eq_ok_iff :
    (field ref name).bindRoot binder = .ok bound ↔
      ∃ base, ref.bindRoot binder = .ok (.place base) ∧
        .place (field base name) = bound := by
  rw [bindRoot, bind_eq_ok_iff]
  constructor
  · intro ⟨operand, hbase, hfield⟩
    cases operand with
    | place base => exact ⟨base, hbase, pure_eq_ok_iff.1 hfield⟩
    | address base => cases hfield
  · intro ⟨base, hbase, hfield⟩
    exact ⟨.place base, hbase, pure_eq_ok_iff.2 hfield⟩

variable (hbinder : ∀ ref, (binder ref).isSome = true → ∃ index, ref = .param index)

include hbinder

theorem getD_binder (hparam : ∀ index, ref ≠ .param index) :
    (binder ref).getD (.place ref) = .place ref := by
  cases hbound : binder ref with
  | none => rfl
  | some operand =>
    obtain ⟨index, heq⟩ := hbinder ref (by rw [hbound]; rfl)
    exact absurd heq (hparam index)

theorem bindRoot_global (name : String) :
    (global name).bindRoot binder = .ok (.place (global name)) := by
  rw [bindRoot, getD_binder hbinder (by simp)]
  · rfl
  all_goals simp

/-- Only a parameter itself can turn into an address. A path that goes on from it by a
field or a dereference is a place again, or cannot be bound. -/
theorem exists_place_of_bindRoot (hparam : ∀ index, ref ≠ .param index)
    (h : ref.bindRoot binder = .ok bound) :
    ∃ target, bound = .place target := by
  cases ref with
  | param index => exact absurd rfl (hparam index)
  | deref pointer =>
    obtain ⟨operand, -, rfl⟩ := bindRoot_deref_eq_ok_iff.1 h
    cases operand with
    | place ref => exact ⟨_, rfl⟩
    | address ref => exact ⟨_, rfl⟩
  | field base name =>
    obtain ⟨base, -, rfl⟩ := bindRoot_field_eq_ok_iff.1 h
    exact ⟨_, rfl⟩
  | global name | var name | self =>
    rw [bindRoot, getD_binder hbinder hparam, pure_eq_ok_iff] at h
    · exact ⟨_, h.symm⟩
    all_goals simp

end Ref

/-! ## Operands -/

namespace Operand

variable {operand bound : Operand}

theorem binds_place_iff {ref : Ref} :
    (place ref).Binds binder bound ↔ ref.bindRoot binder = .ok bound := by
  constructor
  · intro h
    cases h with
    | place h => exact h
  · intro h
    exact .place h

theorem binds_address_iff {ref : Ref} :
    (address ref).Binds binder bound ↔
      ∃ target, ref.bindRoot binder = .ok (.place target) ∧
      .address target = bound := by
  constructor
  · intro h
    cases h with
    | address h => exact ⟨_, h, rfl⟩
  · rintro ⟨target, h, rfl⟩
    exact .address h

theorem IsTemplateRoot.binds_iff
    (hbinder : ∀ ref, (binder ref).isSome = true → ∃ index, ref = .param index)
    (h : operand.IsTemplateRoot) :
    operand.Binds binder bound ↔ operand.withArgument binder = bound := by
  cases h with
  | param index => exact binds_place_iff.trans pure_eq_ok_iff
  | object name =>
    rw [binds_place_iff, Ref.bindRoot_global hbinder, Except.ok.injEq]
    rfl
  | token name =>
    rw [binds_address_iff, Ref.bindRoot_global hbinder]
    simp [withArgument]

theorem Binds.deref (h : operand.Binds binder bound) :
    operand.deref.Binds binder bound.deref := by
  cases h with
  | place h => exact .place (Ref.bindRoot_deref_eq_ok_iff.2 ⟨bound, h, rfl⟩)
  | address h => exact .place h

theorem Binds.instantiate_object (h : operand.Binds binder bound) :
    operand.object.instantiate binder = .ok bound.object := by
  cases h with
  | place h => exact map_eq_ok_iff.2 ⟨bound, h, rfl⟩
  | address h => exact map_eq_ok_iff.2 ⟨_, h, rfl⟩

theorem pointee_eq_object_deref (operand : Operand) :
    operand.pointee = operand.deref.object := by
  cases operand <;> rfl

theorem Binds.instantiate_pointee (h : operand.Binds binder bound) :
    operand.pointee.instantiate binder = .ok bound.pointee := by
  rw [pointee_eq_object_deref, pointee_eq_object_deref]
  exact h.deref.instantiate_object

end Operand

/-!
## Expressions

One lemma for each form of expressions says when it can be read, so that the two
inductions below are about operands and not about errors.
-/

namespace Expr

variable {expr inner : Expr} {name : String} {operand bound : Operand} {ref : Ref}

theorem lower_ident_eq_ok_iff :
    (ident name).lower roots false = .ok operand ↔ roots name = some operand := by
  rw [lower]
  cases roots name <;> simp

theorem lower_addrOf_eq_ok_iff :
    (addrOf inner).lower roots false = .ok operand ↔
      ∃ ref, inner.lower roots false = .ok (.place ref) ∧ .address ref = operand := by
  rw [lower, bind_eq_ok_iff]
  constructor
  · intro ⟨found, hinner, haddress⟩
    cases found with
    | place ref => exact ⟨ref, hinner, pure_eq_ok_iff.1 haddress⟩
    | address ref => cases haddress
  · intro ⟨ref, hinner, haddress⟩
    exact ⟨.place ref, hinner, pure_eq_ok_iff.2 haddress⟩

theorem lower_deref_eq_ok_iff :
    (deref inner).lower roots false = .ok operand ↔
      ∃ pointer, inner.lower roots false = .ok pointer ∧ pointer.deref = operand := by
  rw [lower, bind_eq_ok_iff]
  simp only [pure_eq_ok_iff]

theorem lower_field_eq_ok_iff :
    (field inner name).lower roots false = .ok operand ↔
      ∃ ref, inner.lower roots false = .ok (.place ref) ∧
        .place (.field ref name) = operand := by
  rw [lower, bind_eq_ok_iff]
  constructor
  · intro ⟨found, hinner, hfield⟩
    cases found with
    | place ref => exact ⟨ref, hinner, pure_eq_ok_iff.1 hfield⟩
    | address ref => cases hfield
  · intro ⟨ref, hinner, hfield⟩
    exact ⟨.place ref, hinner, pure_eq_ok_iff.2 hfield⟩

theorem objectNamed_eq_ok_iff {indirect : Bool} :
    expr.objectNamed roots indirect = .ok ref ↔
      ∃ operand, expr.lower roots false = .ok operand ∧
        (if indirect then operand.pointee else operand.object) = ref := by
  rw [objectNamed, bind_eq_ok_iff]
  simp only [pure_eq_ok_iff]

/-- No address is taken of a parameter itself, anywhere in the expression. The address
of what a parameter points to is another matter: `&*p` and `&p->lock` are fine. -/
def SparesParams (roots : String → Option Operand) : Expr → Prop
  | ident _ | int _ => True
  | addrOf inner =>
    inner.SparesParams roots ∧ ∀ index,
      inner.lower roots false ≠ .ok (.place (.param index))
  | deref inner => inner.SparesParams roots
  | field base _ => base.SparesParams roots
  | index base _ => base.SparesParams roots

section

variable (hroots : ∀ name operand, roots name = some operand → operand.IsTemplateRoot)
  (hbinder : ∀ ref, (binder ref).isSome = true → ∃ index, ref = .param index)

include hroots

theorem SparesParams.address_ne_param (hspares : expr.SparesParams roots)
    (h : expr.lower roots false = .ok (.address ref)) (index : Nat) :
    ref ≠ .param index := by
  cases expr with
  | ident name =>
    have hroot := hroots name _ (lower_ident_eq_ok_iff.1 h)
    cases hroot
    simp
  | addrOf inner =>
    obtain ⟨ref, hinner, haddress⟩ := lower_addrOf_eq_ok_iff.1 h
    cases haddress
    rintro rfl
    exact hspares.2 index hinner
  | deref inner =>
    obtain ⟨pointer, -, hderef⟩ := lower_deref_eq_ok_iff.1 h
    cases pointer <;> cases hderef
  | field base name =>
    obtain ⟨ref, -, hfield⟩ := lower_field_eq_ok_iff.1 h
    cases hfield
  | int value | index base position => cases h

include hbinder

/-- What an expression denotes at the call, it denotes in the callee's scope and then
bound. -/
theorem exists_binds_of_lower (h : expr.lower (boundRoots roots binder) false = .ok bound) :
    ∃ operand, expr.lower roots false = .ok operand ∧ operand.Binds binder bound := by
  induction expr generalizing bound with
  | ident name =>
    obtain ⟨operand, hroot, hbound⟩ := Option.map_eq_some_iff.1 (lower_ident_eq_ok_iff.1 h)
    exact ⟨operand, lower_ident_eq_ok_iff.2 hroot,
      ((hroots name operand hroot).binds_iff hbinder).2 hbound⟩
  | addrOf inner ih =>
    obtain ⟨target, hinner, rfl⟩ := lower_addrOf_eq_ok_iff.1 h
    obtain ⟨operand, hoperand, hbinds⟩ := ih hinner
    -- A place comes from a place: an address would have stayed one.
    cases hbinds with
    | place hbinds =>
      exact ⟨_, lower_addrOf_eq_ok_iff.2 ⟨_, hoperand, rfl⟩, .address hbinds⟩
  | deref inner ih =>
    obtain ⟨pointer, hinner, rfl⟩ := lower_deref_eq_ok_iff.1 h
    obtain ⟨operand, hoperand, hbinds⟩ := ih hinner
    exact ⟨operand.deref, lower_deref_eq_ok_iff.2 ⟨operand, hoperand, rfl⟩, hbinds.deref⟩
  | field base name ih =>
    obtain ⟨target, hinner, rfl⟩ := lower_field_eq_ok_iff.1 h
    obtain ⟨operand, hoperand, hbinds⟩ := ih hinner
    cases hbinds with
    | place hbinds =>
      exact ⟨_, lower_field_eq_ok_iff.2 ⟨_, hoperand, rfl⟩,
        .place (Ref.bindRoot_field_eq_ok_iff.2 ⟨target, hbinds, rfl⟩)⟩
  | int value | index base position => cases h

theorem lower_of_binds (hspares : expr.SparesParams roots)
    (h : expr.lower roots false = .ok operand) (hbinds : operand.Binds binder bound) :
    expr.lower (boundRoots roots binder) false = .ok bound := by
  induction expr generalizing operand bound with
  | ident name =>
    have hroot := lower_ident_eq_ok_iff.1 h
    have hbound := ((hroots name operand hroot).binds_iff hbinder).1 hbinds
    exact lower_ident_eq_ok_iff.2 (Option.map_eq_some_iff.2 ⟨operand, hroot, hbound⟩)
  | addrOf inner ih =>
    obtain ⟨ref, hinner, rfl⟩ := lower_addrOf_eq_ok_iff.1 h
    obtain ⟨target, htarget, rfl⟩ := Operand.binds_address_iff.1 hbinds
    exact lower_addrOf_eq_ok_iff.2 ⟨target, ih hspares.1 hinner (.place htarget), rfl⟩
  | deref inner ih =>
    obtain ⟨pointer, hinner, rfl⟩ := lower_deref_eq_ok_iff.1 h
    cases pointer with
    | place ref =>
      obtain ⟨target, htarget, rfl⟩ :=
        Ref.bindRoot_deref_eq_ok_iff.1 (Operand.binds_place_iff.1 hbinds)
      exact lower_deref_eq_ok_iff.2 ⟨target, ih hspares hinner (.place htarget), rfl⟩
    | address ref =>
      have hbound := Operand.binds_place_iff.1 hbinds
      have hinnerSpares : inner.SparesParams roots := hspares
      -- The one case that needs `SparesParams`: the address of a parameter would have
      -- no place to point to at the call.
      have hparam := hinnerSpares.address_ne_param hroots hinner
      obtain ⟨target, rfl⟩ := Ref.exists_place_of_bindRoot hbinder hparam hbound
      exact lower_deref_eq_ok_iff.2 ⟨.address target,
        ih hspares hinner (.address hbound), rfl⟩
  | field base name ih =>
    obtain ⟨ref, hinner, rfl⟩ := lower_field_eq_ok_iff.1 h
    obtain ⟨target, htarget, rfl⟩ :=
      Ref.bindRoot_field_eq_ok_iff.1 (Operand.binds_place_iff.1 hbinds)
    exact lower_field_eq_ok_iff.2 ⟨target, ih hspares hinner (.place htarget), rfl⟩
  | int value | index base position => cases h

theorem SparesParams.exists_binds {indirect : Bool} (hspares : expr.SparesParams roots)
    (h : expr.lower roots false = .ok operand)
    (hinstantiate :
      (if indirect then operand.pointee else operand.object).instantiate binder
        = .ok ref) :
    ∃ bound, operand.Binds binder bound ∧
      (if indirect then bound.pointee else bound.object) = ref := by
  obtain ⟨bound, hbound, rfl⟩ := map_eq_ok_iff.1 hinstantiate
  cases operand with
  | place path =>
    cases indirect with
    | true =>
      obtain ⟨pointer, hpointer, rfl⟩ := Ref.bindRoot_deref_eq_ok_iff.1 hbound
      exact ⟨pointer, .place hpointer, pointer.pointee_eq_object_deref⟩
    | false => exact ⟨bound, .place hbound, rfl⟩
  | address path =>
    have hpath : path.bindRoot binder = .ok bound := by
      cases indirect <;> exact hbound
    obtain ⟨target, rfl⟩ :=
      Ref.exists_place_of_bindRoot hbinder (hspares.address_ne_param hroots h) hpath
    refine ⟨.address target, .address hpath, ?_⟩
    cases indirect <;> rfl

end

/-- **A template is bound to what its clause would name at the call.** An expression
that names an object with arguments in place of the parameters has a template in the
scope of the parameters, and the template is bound to this object. If no address is
taken of a parameter itself, then also whatever the template is bound to is named at the
call. -/
theorem objectNamed_bound
    (hroots : ∀ name operand, roots name = some operand → operand.IsTemplateRoot)
    (hbinder : ∀ ref, (binder ref).isSome = true → ∃ index, ref = .param index)
    (expr : Expr) (indirect : Bool) :
    (∀ ref, expr.objectNamed (boundRoots roots binder) indirect = .ok ref →
      ∃ template, expr.objectNamed roots indirect = .ok template ∧
        template.instantiate binder = .ok ref) ∧
    (expr.SparesParams roots →
      ∀ template ref, expr.objectNamed roots indirect = .ok template →
      template.instantiate binder = .ok ref →
        expr.objectNamed (boundRoots roots binder) indirect = .ok ref) := by
  constructor
  · intro ref h
    obtain ⟨bound, hbound, rfl⟩ := objectNamed_eq_ok_iff.1 h
    obtain ⟨operand, hoperand, hbinds⟩ := exists_binds_of_lower hroots hbinder hbound
    refine ⟨_, objectNamed_eq_ok_iff.2 ⟨operand, hoperand, rfl⟩, ?_⟩
    cases indirect with
    | true => exact hbinds.instantiate_pointee
    | false => exact hbinds.instantiate_object
  · intro hspares template ref h hinstantiate
    obtain ⟨operand, hoperand, rfl⟩ := objectNamed_eq_ok_iff.1 h
    obtain ⟨bound, hbinds, rfl⟩ := hspares.exists_binds hroots hbinder hoperand hinstantiate
    exact objectNamed_eq_ok_iff.2
      ⟨bound, lower_of_binds hroots hbinder hspares hoperand hbinds, rfl⟩

/-- The clause `&obj->lock` of a function that is called with `&s->inner`: the template
starts from a pointer, and is bound to part of what the pointer would lead to. For the
clause `&obj` there is a template too, and nothing at the call. -/
theorem objectNamed_bound_member :
    let decl : FunctionDecl :=
      { (default : FunctionDecl) with name := "use", params := [⟨"obj", "struct object *"⟩] }
    let roots := (Scope.function decl).root .empty
    let inner : Ref := .field (.deref (.var "s")) "inner"
    let binder : Ref → Option Operand :=
      fun ref => if ref = .param 0 then some (.address inner) else none
    let lock : Expr := .addrOf (.field (.deref (.ident "obj")) "lock")
    let whole : Expr := .addrOf (.ident "obj")
    lock.objectNamed (boundRoots roots binder) true = .ok (.field inner "lock") ∧
      (∃ template, lock.objectNamed roots true = .ok template ∧
        template.instantiate binder = .ok (.field inner "lock")) ∧
      whole.objectNamed roots true = .ok (.param 0) ∧
      (Ref.param 0).instantiate binder = .ok inner ∧
      whole.objectNamed (boundRoots roots binder) true = .error (.badAddress "&obj") := by
  intro decl roots inner binder lock whole
  have hroots : ∀ name operand, roots name = some operand → operand.IsTemplateRoot := by
    intro name operand hroot
    exact Scope.isTemplateRoot_of_root hroot
  have hbinder : ∀ ref, (binder ref).isSome = true → ∃ index, ref = .param index := by
    intro ref hsome
    by_cases href : ref = .param 0
    · exact ⟨0, href⟩
    · simp [binder, href] at hsome
  have hnamed :
      lock.objectNamed (boundRoots roots binder) true = .ok (.field inner "lock") := by
    decide
  have hbound := objectNamed_bound hroots hbinder lock true
  exact ⟨hnamed, hbound.1 _ hnamed, by decide, by decide, by decide⟩

end Expr

end Binding

end Custody
