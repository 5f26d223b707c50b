import Custody.Proofs.Except
import Custody.Proofs.Table.Merging

/-!
# Contracts and the names of parameters

Templates start from a parameter by its position, so what an attribute says depends on
the positions and types of the parameters and not on their names. Let two declarations
have parameters of the same types, and let the arguments of their attributes be the same
up to the names of the parameters: then each argument has the same template and
capability type in both, or names none for the same reason.

The renaming goes by position (`FunctionDecl.nameIn`), and all names change at once: two
parameters may swap theirs. It may capture: a name that means a global in one
declaration can be a parameter of the other. That is left out (`Expr.Uncaptured`), and
nothing else is.

## What is the same, and what only corresponds

Templates and types are equal on both sides, since they have no names of parameters in
them. Errors quote expressions, so they correspond (`Renamed`), and what is equal is
their kind and whether they stop everything. Contracts keep the texts of their
attributes for reports, and are equal without them (`Contract.unspelled`). `GoAlike`
relates computations of which one result is of the first sort and the other of the
second.

Attributes are related by what they are parsed to and not by a renaming of texts
(`FunctionDecl.Restates`). So `__must_hold(&q->lock)` and `__requires_cap(&(*l).lock)`
are restatements of each other, with another spelling of the attribute and of the path.
-/

set_option autoImplicit false

namespace Custody

variable {ρ : String → String}

/-! ## Renaming -/

namespace Expr

/-- The identifiers of an expression, without the names of fields. -/
def idents : Expr → List String
  | ident name => [name]
  | int _ => []
  | addrOf inner | deref inner => inner.idents
  | field base _ => base.idents
  | index base position => base.idents ++ position.idents

def rename (ρ : String → String) : Expr → Expr
  | ident name => ident (ρ name)
  | int value => int value
  | addrOf inner => addrOf (inner.rename ρ)
  | deref inner => deref (inner.rename ρ)
  | field base name => field (base.rename ρ) name
  | index base position => index (base.rename ρ) (position.rename ρ)

end Expr

namespace Annotation

def rename (ρ : String → String) : Annotation → Annotation
  | requires mode args => requires mode (args.map (·.rename ρ))
  | excludes args => excludes (args.map (·.rename ρ))
  | acquires mode args => acquires mode (args.map (·.rename ρ))
  | releases mode args => releases mode (args.map (·.rename ρ))
  | tryAcquires mode success args => tryAcquires mode success (args.map (·.rename ρ))
  | asserts mode args => asserts mode (args.map (·.rename ρ))
  | returns arg => returns (arg.rename ρ)
  | noAnalysis => noAnalysis
  | guardedBy arg => guardedBy (arg.rename ρ)
  | pointeeGuardedBy arg => pointeeGuardedBy (arg.rename ρ)

theorem args_rename (ann : Annotation) :
    (ann.rename ρ).args = ann.args.map (·.rename ρ) := by
  cases ann <;> rfl

theorem isOnFunction_rename (ann : Annotation) :
    (ann.rename ρ).isOnFunction = ann.isOnFunction := by
  cases ann <;> rfl

end Annotation

/-!
## Errors under a renaming

One relation for each type of error, with one case for each of its constructors. Errors
about types have no names in them, and are the same.
-/

/-- The same error about an expression with other identifiers. -/
inductive PathError.Renamed (ρ : String → String) : PathError → PathError → Prop where
  | unknownName (name : String) : Renamed ρ (.unknownName name) (.unknownName (ρ name))
  | unsupported (expr : Expr) :
      Renamed ρ (.unsupported expr.render) (.unsupported (expr.rename ρ).render)
  | badAddress (expr : Expr) :
      Renamed ρ (.badAddress expr.render) (.badAddress (expr.rename ρ).render)

namespace ClauseError

@[inherit_doc PathError.Renamed]
inductive Renamed (ρ : String → String) : ClauseError → ClauseError → Prop where
  | badPath {error error' : PathError} (h : error.Renamed ρ error') :
      Renamed ρ (.badPath error) (.badPath error')
  | untyped (error : TypeError) : Renamed ρ (.untyped error) (.untyped error)
  | indirect (expr : Expr) (type : CType) :
      Renamed ρ (.indirect expr type) (.indirect (expr.rename ρ) type)
  | notCapability (expr : Expr) (type : CType) :
      Renamed ρ (.notCapability expr type) (.notCapability (expr.rename ρ) type)

/-- The kind of problem an error is reported as. One that stops everything is not
reported. -/
def kind? (error : ClauseError) : Option ProblemKind :=
  if error.isFatal then none else some (Problem.unresolved "" error).kind

namespace Renamed

variable {error error' : ClauseError}

theorem isFatal_eq (h : error.Renamed ρ error') : error.isFatal = error'.isFatal := by
  cases h with
  | badPath h => cases h <;> rfl
  | untyped | indirect | notCapability => rfl

theorem kind_eq (h : error.Renamed ρ error') (written written' : String) :
    (Problem.unresolved written error).kind =
      (Problem.unresolved written' error').kind := by
  cases h <;> rfl

theorem kind?_eq (h : error.Renamed ρ error') : error.kind? = error'.kind? := by
  rw [kind?, kind?, h.isFatal_eq, h.kind_eq]

end Renamed

end ClauseError

/-! ## Expressions -/

namespace Expr

/-- An expression denotes the same after a renaming under which each of its names means
the same. -/
theorem lower_rename {roots roots' : String → Option Operand} (allowIndex : Bool)
    (expr : Expr) (h : ∀ name ∈ expr.idents, roots' (ρ name) = roots name) :
    GoAlike (PathError.Renamed ρ) Eq (expr.lower roots allowIndex)
      ((expr.rename ρ).lower roots' allowIndex) := by
  induction expr with
  | ident name =>
    simp only [lower, rename, h name (by simp [idents])]
    cases roots name with
    | none => exact .error (.unknownName name)
    | some operand => exact .ok rfl
  | int value => exact .error (.unsupported (int value))
  | addrOf inner ih =>
    refine (ih h).bind_same fun operand => ?_
    cases operand with
    | place ref => exact .ok rfl
    | address ref => exact .error (.badAddress (addrOf inner))
  | deref inner ih =>
    exact (ih h).bind_same fun operand => .ok rfl
  | field base name ih =>
    refine (ih h).bind_same fun operand => ?_
    cases operand with
    | place ref => exact .ok rfl
    | address ref => exact .error (.badAddress (field base name))
  | index base position ih =>
    cases allowIndex with
    | false => exact .error (.unsupported (index base position))
    | true =>
      have hbase := ih fun name hname => h name (List.mem_append_left _ hname)
      exact hbase.bind_same fun operand => .ok rfl

end Expr

/-! ## Parameters by position -/

namespace FunctionDecl

variable {decl other : FunctionDecl}

/-- The parameters of two declarations have the same types, and no declaration gives two
of them one name. With a name given twice only the first parameter can be spoken of, and
a renaming by position would not be one by name. -/
structure SameParams (decl other : FunctionDecl) : Prop where
  types : decl.params.map (CType.parse ·.type) = other.params.map (CType.parse ·.type)
  names : (decl.params.map (·.name)).Nodup
  names' : (other.params.map (·.name)).Nodup

/-- The name that one declaration gives to the parameter that another calls `name`.
Other names stay. -/
def nameIn (decl other : FunctionDecl) (name : String) : String :=
  ((decl.paramIndex? name).bind (other.params[·]?)).elim name (·.name)

theorem paramIndex?_name (hnames : (decl.params.map (·.name)).Nodup) {index : Nat}
    {param : VarDecl} (h : decl.params[index]? = some param) :
    decl.paramIndex? param.name = some index := by
  obtain ⟨hlt, rfl⟩ := List.getElem?_eq_some_iff.1 h
  refine List.findIdx?_eq_some_iff_getElem.2
    ⟨hlt, by simp, fun earlier hearlier hsame => ?_⟩
  have hname : decl.params[earlier].name = decl.params[index].name := by simpa using hsame
  -- An earlier parameter of this name would hide the one that is meant.
  have hposition : earlier = index := by
    have hearlier' : earlier < (decl.params.map (·.name)).length := by
      rw [List.length_map]
      omega
    have hindex : index < (decl.params.map (·.name)).length := by rwa [List.length_map]
    have hsame' :
        (decl.params.map (·.name))[earlier] = (decl.params.map (·.name))[index] := by
      simpa only [List.getElem_map] using hname
    exact hnames.getElem_inj_iff.1 hsame'
  omega

namespace SameParams

variable (h : decl.SameParams other)

include h

theorem rootType : (Scope.function other).rootType = (Scope.function decl).rootType := by
  funext ref
  cases ref with
  | param index =>
    simpa only [Scope.rootType, List.getElem?_map] using congrArg
      (·[index]?) h.types.symm
  | global | var | self | deref | field => rfl

/-- A parameter keeps its position, and what is no parameter of either declaration its
meaning. -/
theorem root_nameIn (decls : Declarations) {name : String}
    (hname : decl.paramIndex? name = none → other.paramIndex? name = none) :
    (Scope.function other).root decls (decl.nameIn other name) =
      (Scope.function decl).root decls name := by
  cases hindex : decl.paramIndex? name with
  | none => simp [Scope.root, Scope.ownRoot, nameIn, hindex, hname hindex]
  | some index =>
    have hlength : decl.params.length = other.params.length := by
      simpa using congrArg List.length h.types
    obtain ⟨hlt, -⟩ := List.findIdx?_eq_some_iff_getElem.1 hindex
    obtain ⟨param, hparam⟩ : ∃ param, other.params[index]? = some param :=
      ⟨_, List.getElem?_eq_getElem (hlength ▸ hlt)⟩
    have hback : other.paramIndex? param.name = some index :=
      paramIndex?_name h.names' hparam
    simp [Scope.root, Scope.ownRoot, nameIn, hindex, hparam, hback]

end SameParams

end FunctionDecl

/-- No name of an expression that is no parameter of `decl` is one of `other`. A global
that had the name of a parameter would be taken for it. -/
def Expr.Uncaptured (decl other : FunctionDecl) (expr : Expr) : Prop :=
  ∀ name ∈ expr.idents, decl.paramIndex? name = none → other.paramIndex? name = none

instance (decl other : FunctionDecl) (expr : Expr) :
    Decidable (expr.Uncaptured decl other) :=
  inferInstanceAs (Decidable (∀ name ∈ expr.idents, _))

/-! ## Arguments -/

def SameKinds (problems problems' : List Problem) : Prop :=
  problems.map (·.kind) = problems'.map (·.kind)

namespace FunctionDecl.SameParams

variable {decl other : FunctionDecl} (h : decl.SameParams other) (decls : Declarations)

include h

theorem resolve_rename {expr : Expr} (huncaptured : expr.Uncaptured decl other) :
    GoAlike (ClauseError.Renamed (decl.nameIn other)) Eq
      (decls.resolve (.function decl) expr)
      (decls.resolve (.function other) (expr.rename (decl.nameIn other))) := by
  have hlower := Expr.lower_rename false expr fun name hname =>
    h.root_nameIn decls (huncaptured name hname)
  refine (hlower.mapError fun _ _ => .badPath).bind_same fun operand => ?_
  rw [h.rootType]
  cases decls.typeOfOperand (Scope.function decl).rootType operand with
  | error error => exact .error (.untyped error)
  | ok type =>
    by_cases hpointers : type.pointers > 1
    · simp only [Except.mapError, ok_bind, hpointers, if_true]
      exact .error (.indirect expr type)
    · simp only [Except.mapError, ok_bind, hpointers, if_false]
      cases decls.registry.lookup type.base with
      | none => exact .error (.notCapability expr type)
      | some id => exact .ok rfl

theorem resolveAll_rename (written written' : String) {args : List Expr}
    (huncaptured : ∀ arg ∈ args, arg.Uncaptured decl other) :
    GoAlike (ClauseError.Renamed (decl.nameIn other))
      (fun found found' => found.1 = found'.1 ∧ SameKinds found.2 found'.2)
      (decls.resolveAll (.function decl) written args)
      (decls.resolveAll (.function other) written'
        (args.map (·.rename (decl.nameIn other)))) := by
  induction args with
  | nil => exact .ok ⟨rfl, rfl⟩
  | cons arg rest ih =>
    have hrest := ih fun arg harg => huncaptured arg (List.mem_cons_of_mem _ harg)
    have harg := h.resolve_rename decls (huncaptured arg List.mem_cons_self)
    simp only [List.map_cons, Declarations.resolveAll]
    generalize decls.resolve (.function decl) arg = result at harg ⊢
    generalize decls.resolve (.function other) (arg.rename (decl.nameIn other)) =
      result' at harg ⊢
    cases harg with
    | ok heq =>
      subst heq
      refine hrest.bind fun found found' hfound => .ok ⟨?_, hfound.2⟩
      rw [hfound.1]
    | @error error error' herror =>
      simp only [herror.isFatal_eq]
      cases error'.isFatal with
      | true => exact .error herror
      | false =>
        refine hrest.bind fun found found' hfound => .ok ⟨hfound.1, ?_⟩
        exact congrArg₂ List.cons (herror.kind_eq written written') hfound.2

end FunctionDecl.SameParams

/-!
## Contracts without their spelling

Contradictions are found on templates and modes, so that there are equally many of them
with the texts and without.
-/

def Clause.unspelled (clause : Clause) : Clause := { clause with text := "" }

def AttemptClause.unspelled (attempt : AttemptClause) : AttemptClause :=
  { attempt with clause := attempt.clause.unspelled }

namespace Contract

def unspelled (contract : Contract) : Contract where
  requires := contract.requires.map (·.unspelled)
  excludes := contract.excludes.map (·.unspelled)
  acquires := contract.acquires.map (·.unspelled)
  releases := contract.releases.map (·.unspelled)
  tryAcquires := contract.tryAcquires.map (·.unspelled)
  asserts := contract.asserts.map (·.unspelled)
  returns := contract.returns.map (·.unspelled)
  noAnalysis := contract.noAnalysis

theorem obligations_unspelled (contract : Contract) :
    contract.unspelled.obligations = contract.obligations := by
  have hclause : ∀ (role : Role) (clause : Clause),
      clause.unspelled.obligation role = clause.obligation role := by
    intro role clause
    rfl
  cases hreturns : contract.returns <;>
    simp [obligations, unspelled, hreturns, hclause, AttemptClause.unspelled,
    Function.comp_def]

theorem length_filter_unspelled (clauses : List Clause) {p : Clause → Bool}
    (hp : ∀ clause, p clause.unspelled = p clause) :
    ((clauses.map (·.unspelled)).filter p).length = (clauses.filter p).length := by
  have hcomp : (p ∘ fun clause => clause.unspelled) = p := funext hp
  rw [List.filter_map, List.length_map, hcomp]

theorem length_modeConflicts_unspelled (clauses : List Clause) :
    (modeConflicts (clauses.map (·.unspelled))).length =
      (modeConflicts clauses).length := by
  induction clauses with
  | nil => rfl
  | cons clause rest ih =>
    simp only [List.map_cons, modeConflicts, List.length_append, List.length_map, ih]
    exact congrArg (· + _) (length_filter_unspelled rest fun _ => rfl)

theorem length_contradictions_unspelled (contract : Contract) :
    contract.unspelled.contradictions.length = contract.contradictions.length := by
  have hconflicts : ∀ required : Clause,
      (contract.unspelled.conflictsWith required.unspelled).length =
        (contract.conflictsWith required).length := by
    intro required
    simp only [conflictsWith, List.length_append, List.length_map]
    exact congrArg₂ (· + ·) (length_filter_unspelled contract.acquires fun _ => rfl)
      (length_filter_unspelled contract.excludes fun _ => rfl)
  have hrequires : contract.unspelled.requires = contract.requires.map (·.unspelled) := rfl
  have hacquires : contract.unspelled.acquires = contract.acquires.map (·.unspelled) := rfl
  simp only [contradictions, hrequires, hacquires, List.length_append, List.length_map,
    List.length_flatMap,
    List.map_map, Function.comp_def, hconflicts, length_modeConflicts_unspelled]

theorem extend_rename (contract : Contract) (written : String)
    (found : List (Ref × CapId)) (ann : Annotation) :
    contract.extend written found (ann.rename ρ) = contract.extend written found ann := by
  cases ann <;> rfl

theorem unspelled_extend (contract : Contract) (written : String)
    (found : List (Ref × CapId)) (ann : Annotation) :
    (contract.extend written found ann).unspelled =
      contract.unspelled.extend "" found ann := by
  have hclauses :
      ∀ mode, (extend.clauses written found mode).map (·.unspelled) =
        extend.clauses "" found mode := by
    intro mode
    have hblank : Text.trim "" = "" := by decide
    simp [extend.clauses, Function.comp_def, Clause.unspelled, hblank]
  cases ann <;> simp [extend, unspelled, ← hclauses, Function.comp_def,
    AttemptClause.unspelled]

/-- The contracts say the same, and what is wrong with the attributes is of the same
kinds. -/
def SaysAs (built built' : Contract × List Problem) : Prop :=
  built.1.unspelled = built'.1.unspelled ∧ SameKinds built.2 built'.2

end Contract

/-! ## Attributes -/

/-- The same argument stops both declarations. -/
inductive Malformed.Renamed (ρ : String → String) : Malformed → Malformed → Prop where
  | unresolved {unit unit' item item' written written' : String}
      {error error' : ClauseError} (h : error.Renamed ρ error') :
      Renamed ρ (.unresolved unit item written error)
        (.unresolved unit' item' written' error')

/-- An attribute of `other` that says what one of `decl` says: the same annotation about
the same parameters. Spelling, and attributes that are not read, may differ. -/
inductive FunctionDecl.Restates (decl other : FunctionDecl) : String → String → Prop where
  | foreign {written written' : String} (h : Annotation.parse written = .ok none)
      (h' : Annotation.parse written' = .ok none) : Restates decl other written written'
  | faulty {written written' : String} {error error' : Attribute.Error}
      (h : Annotation.parse written = .error error)
      (h' : Annotation.parse written' = .error error') :
        Restates decl other written written'
  | stated {written written' : String} {ann : Annotation}
      (h : Annotation.parse written = .ok (some ann))
      (h' : Annotation.parse written' = .ok (some (ann.rename (decl.nameIn other))))
      (uncaptured : ∀ arg ∈ ann.args, arg.Uncaptured decl other) :
        Restates decl other written written'

namespace FunctionDecl.SameParams

open Contract

variable {decl other : FunctionDecl} (h : decl.SameParams other) (decls : Declarations)

include h

theorem addAttribute_restates {written written' : String}
    (hrestates : decl.Restates other written written') {contract contract' : Contract}
    (hcontract : contract.unspelled = contract'.unspelled) :
    GoAlike (ClauseError.Renamed (decl.nameIn other)) SaysAs
      (addAttribute decls (.function decl) contract written)
      (addAttribute decls (.function other) contract' written') := by
  cases hrestates with
  | foreign hparse hparse' =>
    simp only [addAttribute, hparse, hparse']
    exact .ok ⟨hcontract, rfl⟩
  | faulty hparse hparse' =>
    simp only [addAttribute, hparse, hparse']
    exact .ok ⟨hcontract, rfl⟩
  | @stated ann hparse hparse' huncaptured =>
    simp only [addAttribute, hparse, hparse', Annotation.isOnFunction_rename,
      Annotation.args_rename]
    cases ann.isOnFunction with
    | false => exact .ok ⟨hcontract, rfl⟩
    | true =>
      refine (h.resolveAll_rename decls written written' huncaptured).bind
        fun found found' hfound => .ok ⟨?_, hfound.2⟩
      simp only [extend_rename, unspelled_extend, hcontract, hfound.1]

theorem addAttributes_restates (unit unit' item item' : String)
    {written written' : List String}
    (hrestates : List.Forall₂ (decl.Restates other) written written')
    {contract contract' : Contract}
    (hcontract : contract.unspelled = contract'.unspelled) :
    GoAlike (Malformed.Renamed (decl.nameIn other)) SaysAs
      (addAttributes decls unit item (.function decl) contract written)
      (addAttributes decls unit' item' (.function other) contract' written') := by
  induction hrestates generalizing contract contract' with
  | nil => exact .ok ⟨hcontract, rfl⟩
  | cons hfirst hrest ih =>
    have hstep := h.addAttribute_restates decls hfirst hcontract
    refine (hstep.mapError fun _ _ herror => .unresolved herror).bind
      fun built built' hbuilt => ?_
    refine (ih hbuilt.1).bind fun rest rest' hmore => .ok ⟨hmore.1, ?_⟩
    simp only [SameKinds, List.map_append]
    exact congrArg₂ (· ++ ·) hbuilt.2 hmore.2

theorem ofDecl_restates (unit unit' : String)
    (hrestates : List.Forall₂ (decl.Restates other) decl.attributes other.attributes) :
    GoAlike (Malformed.Renamed (decl.nameIn other)) SaysAs (ofDecl decls unit decl)
      (ofDecl decls unit' other) := by
  refine (h.addAttributes_restates decls unit unit' decl.name other.name hrestates rfl).bind
    fun built built' hbuilt => .ok ⟨hbuilt.1, ?_⟩
  -- A contradiction quotes the texts of two clauses, but whether there is one depends
  -- on their templates and modes.
  have hlength : built.1.contradictions.length = built'.1.contradictions.length := by
    rw [← length_contradictions_unspelled, hbuilt.1, length_contradictions_unspelled]
  have hkinds : ∀ contradictions : List Contradiction,
      (contradictions.map Problem.contradiction).map (·.kind) =
        .replicate contradictions.length .contradiction := by
    intro contradictions
    simp [Function.comp_def, Problem.kind, List.map_const']
  simp only [SameKinds, List.map_append, hkinds, hlength]
  exact congrArg (· ++ _) hbuilt.2

end FunctionDecl.SameParams

/-- **Contracts do not depend on the names of parameters.** Let two declarations have
parameters of the same types. An argument and its renaming have the same template and
capability type in them, or both have none: for the same reason, and with the same
consequence. If the attributes of one restate those of the other, then either the same
argument stops both, or both have contracts. These state the same obligations, in the
same order, and the problems with the attributes are of the same kinds. -/
theorem contracts_ignore_parameter_names {decl other : FunctionDecl}
    (h : decl.SameParams other) (decls : Declarations) :
    (∀ expr : Expr, expr.Uncaptured decl other →
      GoAlike
        (fun error error' =>
          error.Renamed (decl.nameIn other) error' ∧ error.kind? = error'.kind?)
        Eq (decls.resolve (.function decl) expr)
        (decls.resolve (.function other) (expr.rename (decl.nameIn other)))) ∧
    (List.Forall₂ (decl.Restates other) decl.attributes other.attributes →
      ∀ unit unit' : String, GoAlike (Malformed.Renamed (decl.nameIn other))
        (fun built built' =>
          built.1.obligations = built'.1.obligations ∧
          built.1.noAnalysis = built'.1.noAnalysis ∧
          built.1.sameObligations built'.1 = true ∧
          built'.1.sameObligations built.1 = true ∧
          SameKinds built.2 built'.2)
        (Contract.ofDecl decls unit decl) (Contract.ofDecl decls unit' other)) := by
  constructor
  · intro expr huncaptured
    exact (h.resolve_rename decls huncaptured).mono
      (fun _ _ herror => ⟨herror, herror.kind?_eq⟩) fun _ _ heq => heq
  · intro hrestates unit unit'
    refine (h.ofDecl_restates decls unit unit' hrestates).mono
      (fun _ _ hmalformed => hmalformed) ?_
    intro built built' hbuilt
    have hobligations : built.1.obligations = built'.1.obligations := by
      rw [← Contract.obligations_unspelled, hbuilt.1, Contract.obligations_unspelled]
    have hflag : built.1.unspelled.noAnalysis = built'.1.unspelled.noAnalysis := by
      rw [hbuilt.1]
    refine ⟨hobligations, hflag, ?_, ?_, hbuilt.2⟩
    · simp [Contract.sameObligations_iff, hobligations]
    · simp [Contract.sameObligations_iff, hobligations]

/-- A kind of lock, a structure with such a lock and a global one. -/
def queueDecls : Declarations where
  registry := ⟨[("spinlock_t", .struct)]⟩
  tokens := ∅
  structs := FinMap.ofList [("queue", FinMap.ofList [("lock", .object "spinlock_t")])]
  globals := FinMap.ofList [("big", .object "spinlock_t")]

def moveDecl : FunctionDecl :=
  ⟨"move", false, false, [⟨"q", "struct queue *"⟩, ⟨"l", "spinlock_t *"⟩],
    ["__must_hold(&q->lock, big)", "__acquires(l)", "__printf(1, 2)"], [], none⟩

def swappedDecl : FunctionDecl :=
  ⟨"move", false, false, [⟨"l", "const struct queue*"⟩, ⟨"q", "spinlock_t *"⟩],
    ["__requires_cap(&(*l).lock, big)", "__acquires_cap( q )", "__cold"], [], none⟩

def moveContract (required acquired : String) : Contract :=
  { requires := [⟨.field (.deref (.param 0)) "lock", ⟨0⟩, .exclusive, required⟩,
      ⟨.global "big", ⟨0⟩, .exclusive, required⟩]
    acquires := [⟨.deref (.param 1), ⟨0⟩, .exclusive, acquired⟩] }

/-- The declarations read differently and agree: `q->lock` here is `l->lock` there. -/
theorem contracts_ignore_parameter_names_swapped :
    let here := moveContract "__must_hold(&q->lock, big)" "__acquires(l)"
    let there := moveContract "__requires_cap(&(*l).lock, big)" "__acquires_cap( q )"
    moveDecl.SameParams swappedDecl ∧
      List.Forall₂ (moveDecl.Restates swappedDecl) moveDecl.attributes
        swappedDecl.attributes ∧
      queueDecls.resolve (.function swappedDecl) (.field (.deref (.ident "l")) "lock") =
        .ok (.field (.deref (.param 0)) "lock", ⟨0⟩) ∧
      Contract.ofDecl queueDecls "a.c" moveDecl = .ok (here, []) ∧
      Contract.ofDecl queueDecls "b.c" swappedDecl = .ok (there, []) ∧
      here.sameObligations there = true ∧ there.sameObligations here = true := by
  intro here there
  have htypes : ∀ decl ∈ [moveDecl, swappedDecl],
      decl.params.map (CType.parse ·.type) = [⟨"queue", 1⟩, ⟨"spinlock_t", 1⟩] := by
    decide +kernel
  have hparams : moveDecl.SameParams swappedDecl :=
    ⟨(htypes _ (by simp)).trans
      (htypes _ (by simp)).symm, by decide +kernel, by decide +kernel⟩
  have hrestates :
      List.Forall₂ (moveDecl.Restates swappedDecl) moveDecl.attributes
        swappedDecl.attributes := by
    have hrequires : Annotation.parse "__must_hold(&q->lock, big)" =
        .ok (some (.requires .exclusive
          [.addrOf (.field (.deref (.ident "q")) "lock"), .ident "big"])) := by
      decide +kernel
    have hacquires :
        Annotation.parse "__acquires(l)" =
          .ok (some (.acquires .exclusive [.ident "l"])) := by
      decide +kernel
    refine .cons (.stated hrequires ?_ ?_)
      (.cons (.stated hacquires ?_ ?_) (.cons (.foreign ?_ ?_) .nil)) <;>
      decide +kernel
  have hhere : Contract.ofDecl queueDecls "a.c" moveDecl = .ok (here, []) := by
    decide +kernel
  have hthere : Contract.ofDecl queueDecls "b.c" swappedDecl = .ok (there, []) := by
    decide +kernel
  have hlock :
      queueDecls.resolve (.function moveDecl) (.field (.deref (.ident "q")) "lock") =
        .ok (.field (.deref (.param 0)) "lock", ⟨0⟩) := by decide +kernel
  have hrename :
      (Expr.field (.deref (.ident "q")) "lock").rename (moveDecl.nameIn swappedDecl) =
        .field (.deref (.ident "l")) "lock" := by decide +kernel
  obtain ⟨hargument, hcontract⟩ := contracts_ignore_parameter_names hparams queueDecls
  have hboth := hcontract hrestates "a.c" "b.c"
  have hsame := hargument (.field (.deref (.ident "q")) "lock") (by decide +kernel)
  rw [hhere, hthere] at hboth
  rw [hlock, hrename] at hsame
  obtain ⟨_, hresolve, rfl⟩ := hsame.exists_of_ok
  cases hboth with
  | ok hagree =>
    exact ⟨hparams, hrestates, hresolve, hhere, hthere, hagree.2.2.1, hagree.2.2.2.1⟩

end Custody
