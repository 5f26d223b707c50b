import Custody.Proofs.Except
import Custody.Proofs.Renumber.Env
import Custody.Table.Basic

/-!
# Declarations under another numbering of capability types

When two collections of declarations differ in the numbers of capability types only,
names mean the same in both, and what attributes say is the same up to the numbers: the
same templates, the same problems, the same errors.

## Why `Declarations.Renumbered` is about answers

Collections come to differ in numbers by declaring the types in another order, and then
the registries list the types in another order too. No function that replaces numbers
makes one registry out of the other. What it takes for two collections to be
exchangeable is that they answer alike, so that is the definition: a name is looked up
with the translated number, and structures and globals, which know types by name, are
the same. There is one way back from a number to a name, the type of a token, and
`named` asks for that one alone.

`Table.Renumbered` is of the same kind. A function asks a table for its contracts and
for guards, by name or member, and these are the renumbered ones. In which order the
table keeps them, and what errors it has collected, is not asked for.

## Why `ρ` is an embedding of all numbers

A registry knows finitely many numbers, and `ρ` only matters on those. But environments
and clauses are not indexed by a registry, so nothing says of a number in one of them
that it is in range. An embedding of all numbers can be applied to anything, and its
being injective is what comparisons need, without a condition at each of them.

## What is left out

`Contract.ofDecl_renumber` is for declarations without problems. A contradiction quotes
the two clauses that contradict each other, with their types, and would have to be
renumbered as well; but programs with problems in their declarations are not compared
anywhere.
-/

set_option autoImplicit false

namespace Custody

variable (ρ : CapId ↪ CapId)

/-!
## Names and types

Types of members are found by name and have no number. Only the last step, from a type
to the capability type it is, gives one.
-/

namespace Declarations

/-- The declarations `b` are `a` with other numbers. That `b` knows no other names is
part of it, since `lookup` and `tokens` are equations for all names. -/
structure Renumbered (a b : Declarations) : Prop where
  lookup : ∀ name, b.registry.lookup name = (a.registry.lookup name).map ρ
  tokens : ∀ name, b.tokens.get? name = (a.tokens.get? name).map ρ
  named : ∀ name id, a.tokens.get? name = some id →
    b.registry.name (ρ id) = a.registry.name id
  structs : b.structs = a.structs
  globals : b.globals = a.globals

namespace Renumbered

variable {ρ} {a b : Declarations} (h : a.Renumbered ρ b)

include h

theorem globalRoot (name : String) : b.globalRoot name = a.globalRoot name := by
  have htoken : b.tokens.contains name = a.tokens.contains name := by
    simp [FinMap.contains, h.tokens]
  simp only [Declarations.globalRoot, htoken, h.globals]

theorem fieldType? (struct field : String) :
    b.fieldType? struct field = a.fieldType? struct field := by
  simp [Declarations.fieldType?, h.structs]

theorem globalType? (name : String) : b.globalType? name = a.globalType? name := by
  simp only [Declarations.globalType?, h.tokens, h.globals]
  cases htoken : a.tokens.get? name with
  | none => rfl
  | some id => simp [h.named name id htoken]

theorem typeOf (rootType : Ref → Option CType) (ref : Ref) :
    b.typeOf rootType ref = a.typeOf rootType ref := by
  induction ref with
  | global name => simp [Declarations.typeOf, h.globalType?]
  | deref pointer ih => simp [Declarations.typeOf, ih]
  | field base name ih => simp [Declarations.typeOf, ih, h.structs]
  | var | self | param => rfl

theorem typeOfOperand (rootType : Ref → Option CType) (operand : Operand) :
    b.typeOfOperand rootType operand = a.typeOfOperand rootType operand := by
  cases operand <;> simp [Declarations.typeOfOperand, h.typeOf]

theorem capabilityOf (type : CType) :
    b.capabilityOf type = (a.capabilityOf type).map ρ := by
  simp only [Declarations.capabilityOf, h.lookup]
  split <;> rfl

theorem root (scope : Scope) : scope.root b = scope.root a := by
  funext name
  have hown : scope.ownRoot b name = scope.ownRoot a name := by
    cases scope <;> simp [Scope.ownRoot, h.fieldType?]
  simp [Scope.root, hown, h.globalRoot]

/-! ## Arguments of attributes -/

theorem resolve (scope : Scope) (expr : Expr) :
    b.resolve scope expr = (a.resolve scope expr).map (Prod.map id ρ) := by
  simp only [Declarations.resolve, h.root, h.typeOfOperand, h.lookup, map_bind]
  congr
  funext operand
  congr
  funext type
  by_cases hpointers : type.pointers > 1
  · simp [hpointers, throw, throwThe, MonadExceptOf.throw, bind, Except.bind, Except.map]
  · cases a.registry.lookup type.base <;>
      simp [hpointers, throw, throwThe, MonadExceptOf.throw, Except.map, pure, Except.pure]

theorem resolveAll (scope : Scope) (written : String) (args : List Expr) :
    b.resolveAll scope written args =
      (a.resolveAll scope written args).map (Prod.map (List.map (Prod.map id ρ)) id) := by
  induction args with
  | nil => rfl
  | cons arg rest ih =>
    simp only [Declarations.resolveAll, h.resolve, ih]
    cases a.resolve scope arg with
    | ok found => cases a.resolveAll scope written rest <;> rfl
    | error error =>
      simp only [Except.map]
      split
      · rfl
      · cases a.resolveAll scope written rest <;> rfl

end Renumbered

end Declarations

/-!
## Contracts

`renumber` replaces the type of every clause. A contract is read attribute by attribute,
and each lemma follows one function on that way, from one clause to the whole
declaration.
-/

def Clause.renumber (clause : Clause) : Clause := { clause with type := ρ clause.type }

@[simp] theorem Clause.type_renumber (clause : Clause) :
    (clause.renumber ρ).type = ρ clause.type := rfl

def AttemptClause.renumber (attempt : AttemptClause) : AttemptClause :=
  { attempt with clause := attempt.clause.renumber ρ }

namespace Contract

/-- The contract with other numbers for the capability types. -/
def renumber (contract : Contract) : Contract where
  requires := contract.requires.map (·.renumber ρ)
  excludes := contract.excludes.map (·.renumber ρ)
  acquires := contract.acquires.map (·.renumber ρ)
  releases := contract.releases.map (·.renumber ρ)
  tryAcquires := contract.tryAcquires.map (·.renumber ρ)
  asserts := contract.asserts.map (·.renumber ρ)
  returns := contract.returns.map (·.renumber ρ)
  noAnalysis := contract.noAnalysis

@[simp] theorem renumber_empty : ({} : Contract).renumber ρ = {} := rfl

theorem extend_renumber (contract : Contract) (written : String)
    (found : List (Ref × CapId)) (ann : Annotation) :
    (contract.renumber ρ).extend written (found.map (Prod.map id ρ)) ann =
      (contract.extend written found ann).renumber ρ := by
  have hclauses : ∀ mode, extend.clauses written (found.map (Prod.map id ρ)) mode =
      (extend.clauses written found mode).map (·.renumber ρ) := by
    intro mode
    simp [extend.clauses, Function.comp_def, Clause.renumber]
  cases ann <;> simp [extend, renumber, hclauses, Function.comp_def, AttemptClause.renumber]

theorem bind?_renumber (clause : Clause) (binder : Ref → Option Operand) :
    (clause.renumber ρ).bind? binder = (clause.bind? binder).map (·.renumber ρ) := by
  simp only [Clause.bind?, Clause.renumber]
  cases clause.template.instantiate binder with
  | error error => rfl
  | ok ref => cases h : ref.isTemplate <;> simp [h, BoundClause.renumber, Instance.renumber]

theorem bind_renumber (contract : Contract) (callee : String)
    (binder : Ref → Option Operand) :
    (contract.renumber ρ).bind callee binder =
      (contract.bind callee binder).renumber ρ := by
  have hattempt : ∀ attempt : AttemptClause,
      (attempt.renumber ρ).bind? binder = (attempt.bind? binder).map (·.renumber ρ) := by
    intro attempt
    simp only [AttemptClause.bind?, AttemptClause.renumber, bind?_renumber]
    cases attempt.clause.bind? binder <;> rfl
  have hreturns : (contract.returns.map (·.renumber ρ)).bind (·.bind? binder) =
      (contract.returns.bind (·.bind? binder)).map (·.renumber ρ) := by
    cases contract.returns <;> simp [bind?_renumber]
  simp [bind, renumber, BoundContract.renumber, List.filterMap_map, List.map_filterMap,
    List.filter_map, Function.comp_def, bind?_renumber, hattempt, hreturns]

theorem modeConflicts_renumber (clauses : List Clause) :
    modeConflicts (clauses.map (·.renumber ρ)) =
      (modeConflicts clauses).map (Prod.map (·.renumber ρ) (·.renumber ρ)) := by
  induction clauses with
  | nil => rfl
  | cons clause rest ih =>
    simp only [List.map_cons, modeConflicts, ih, List.filter_map, List.map_append,
      List.map_map]
    rfl

/-- Whether clauses contradict each other has nothing to do with numbers: what is
compared is the templates and the modes. -/
theorem contradictions_renumber_eq_nil (contract : Contract)
    (h : contract.contradictions = []) :
    (contract.renumber ρ).contradictions = [] := by
  simp only [contradictions, List.append_eq_nil_iff, List.flatMap_eq_nil_iff,
    List.map_eq_nil_iff, conflictsWith, renumber, modeConflicts_renumber] at h ⊢
  obtain ⟨⟨hrequired, hmodes⟩, hacquired⟩ := h
  refine ⟨⟨?_, hmodes⟩, hacquired⟩
  intro clause hclause
  obtain ⟨required, hmem, rfl⟩ := List.mem_map.1 hclause
  have hclauses : ∀ clauses : List Clause,
      (clauses.filter (·.template = required.template)) = [] →
      (clauses.map (·.renumber ρ)).filter
        (·.template = (required.renumber ρ).template) = [] := by
    intro clauses hnone
    rw [List.filter_map, List.map_eq_nil_iff]
    exact hnone
  exact ⟨hclauses _ (hrequired required hmem).1, hclauses _ (hrequired required hmem).2⟩

variable {ρ} {a b : Declarations}

theorem addAttribute_renumber (h : a.Renumbered ρ b) (scope : Scope)
    (contract : Contract) (written : String) :
    (contract.renumber ρ).addAttribute b scope written =
      (contract.addAttribute a scope written).map (Prod.map (renumber ρ) id) := by
  unfold addAttribute
  split
  · rfl
  · rfl
  · rename_i ann _
    split
    · rw [h.resolveAll]
      cases a.resolveAll scope written ann.args with
      | error error => rfl
      | ok result =>
        simp only [Except.map, ok_bind, Prod.map_fst, extend_renumber]
        rfl
    · rfl

theorem addAttributes_renumber (h : a.Renumbered ρ b) (unit item : String)
    (scope : Scope) (contract : Contract) (attributes : List String) :
    addAttributes b unit item scope (contract.renumber ρ) attributes =
      (addAttributes a unit item scope contract attributes).map
        (Prod.map (renumber ρ) id) := by
  induction attributes generalizing contract with
  | nil => rfl
  | cons written rest ih =>
    simp only [addAttributes, addAttribute_renumber h]
    cases contract.addAttribute a scope written with
    | error error => rfl
    | ok result =>
      simp only [Except.map, Except.mapError, ok_bind, Prod.map_fst, ih]
      cases addAttributes a unit item scope result.1 rest <;> rfl

/-- A declaration without problems has none under other numbers. Of one with problems
less can be said: a contradiction quotes clauses, and these have numbers. -/
theorem ofDecl_renumber (h : a.Renumbered ρ b) {unit : String} {decl : FunctionDecl}
    {contract : Contract} (hdecl : ofDecl a unit decl = .ok (contract, [])) :
    ofDecl b unit decl = .ok (contract.renumber ρ, []) := by
  simp only [ofDecl, bind_eq_ok_iff, pure_eq_ok_iff] at hdecl ⊢
  obtain ⟨⟨read, problems⟩, hread, heq⟩ := hdecl
  obtain ⟨rfl, hproblems⟩ := Prod.mk.inj heq
  obtain ⟨rfl, hcontradictions⟩ := List.append_eq_nil_iff.1 hproblems
  refine ⟨(read.renumber ρ, []), ?_, ?_⟩
  · rw [← renumber_empty ρ, addAttributes_renumber h, hread]
    rfl
  · simp [contradictions_renumber_eq_nil ρ read (List.map_eq_nil_iff.1 hcontradictions)]

end Contract

/-!
## Guards

A guard has one type. The member that it guards is given by names.
-/

def Guard.renumber (guard : Guard) : Guard := { guard with type := ρ guard.type }

namespace Guards

def renumber (guards : Guards) : Guards := guards.map (Prod.map id (Guard.renumber ρ))

theorem find?_renumber (guards : Guards) (member : Member) (pointee : Bool) :
    (guards.renumber ρ).find? member pointee = (guards.find? member pointee).map
      (Guard.renumber ρ) := by
  simp only [find?, renumber, List.filter_map, List.getLast?_map, Option.map_map]
  rfl

variable {ρ} {a b : Declarations}

theorem ofAttribute_renumber (h : a.Renumbered ρ b) (scope : Scope) (member : Member)
    (written : String) :
    ofAttribute b scope member written =
      (ofAttribute a scope member written).map
        (Prod.map (Option.map (Guard.renumber ρ)) id) := by
  have htype : member.type? b = member.type? a := by
    cases member <;> simp [Member.type?, h.fieldType?, h.globals]
  unfold ofAttribute
  split
  · rfl
  · rfl
  · split
    · rfl
    · rename_i arg pointee _
      rw [h.resolveAll, htype, map_bind]
      cases a.resolveAll scope written [arg] with
      | error error => rfl
      | ok result =>
        obtain ⟨found, problems⟩ := result
        simp only [Except.map, ok_bind, Prod.map]
        match found with
        | [] => rfl
        | _ :: _ :: _ => rfl
        | [(template, type)] =>
          cases member.type? a with
          | none => rfl
          | some declared => cases h : pointee && decide (declared.pointers = 0) <;>
              simp [h] <;> rfl

theorem ofMember_renumber (h : a.Renumbered ρ b) (unit item : String) (scope : Scope)
    (member : Member) (attributes : List String) :
    ofMember b unit item scope member attributes =
      (ofMember a unit item scope member attributes).map (Prod.map (renumber ρ) id) := by
  induction attributes with
  | nil => rfl
  | cons written rest ih =>
    simp only [ofMember, ofAttribute_renumber h, ih]
    cases ofAttribute a scope member written with
    | error error => rfl
    | ok result =>
      cases ofMember a unit item scope member rest with
      | error error => rfl
      | ok more =>
        obtain ⟨guard?, problems⟩ := result
        cases guard? <;> rfl

end Guards

/-- The table `b` is `a` with other numbers, as far as functions can see it. -/
structure Table.Renumbered (a b : Table) : Prop where
  decls : a.decls.Renumbered ρ b.decls
  contractFor : ∀ unit function,
    b.contractFor unit function = (a.contractFor unit function).renumber ρ
  guard? : ∀ member pointee,
    b.guard? member pointee = (a.guard? member pointee).map (Guard.renumber ρ)

end Custody
