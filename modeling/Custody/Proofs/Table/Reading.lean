import Custody.Proofs.Except
import Custody.Table.Contracts
import Custody.Table.Guards

/-!
# What is read off declarations

A clause of a contract and a guard of a member both begin as an argument of an
attribute, which is resolved in the scope of the declaration. Nothing else makes clauses
or guards: `Contract.readFrom_ofDecl` and `Guards.exists_of_ofMember` lead each one back
to its argument.

This is the one place where the loops that read a program are taken apart. What holds of
every argument that can be resolved, for instance that it names an object of a
capability type, then holds of every clause and every guard without another look at them
(`Proofs/Table/Templates`).

Guards are collected in nested loops with an accumulator. `gather` is the same without
one, and `Bearer` names what the outer loops come by, so that `ofUnits_eq` is one loop
over one list. The order of the list is that of the loops, since problems are reported
in it.
-/

set_option autoImplicit false

namespace Custody

variable {decls : Declarations}

theorem Declarations.of_resolveAll {scope : Scope} {written : String} {args : List Expr}
    {found : List (Ref × CapId)} {problems : List Problem}
    (h : decls.resolveAll scope written args = .ok (found, problems)) :
    (∀ named ∈ found, ∃ arg ∈ args, decls.resolve scope arg = .ok named) ∧
      ∀ problem ∈ problems, ∃ error, problem = .unresolved written error := by
  induction args generalizing found problems with
  | nil =>
    simp only [resolveAll, Except.ok.injEq, Prod.mk.injEq] at h
    obtain ⟨rfl, rfl⟩ := h
    simp
  | cons arg rest ih =>
    simp only [resolveAll] at h
    cases hresolve : decls.resolve scope arg with
    | ok named =>
      simp only [hresolve, bind_eq_ok_iff, pure_eq_ok_iff] at h
      obtain ⟨⟨more, others⟩, hrest, heq⟩ := h
      obtain ⟨rfl, rfl⟩ := Prod.mk.inj heq
      obtain ⟨hfound, hproblems⟩ := ih hrest
      refine ⟨?_, hproblems⟩
      intro other hother
      rcases List.mem_cons.1 hother with rfl | hother
      · exact ⟨arg, List.mem_cons_self, hresolve⟩
      · obtain ⟨arg', harg', hother⟩ := hfound other hother
        exact ⟨arg', List.mem_cons_of_mem _ harg', hother⟩
    | error error =>
      simp only [hresolve] at h
      split at h
      · cases h
      · simp only [bind_eq_ok_iff, pure_eq_ok_iff] at h
        obtain ⟨⟨more, others⟩, hrest, heq⟩ := h
        obtain ⟨rfl, rfl⟩ := Prod.mk.inj heq
        obtain ⟨hfound, hproblems⟩ := ih hrest
        refine ⟨?_, ?_⟩
        · intro other hother
          obtain ⟨arg', harg', hother⟩ := hfound other hother
          exact ⟨arg', List.mem_cons_of_mem _ harg', hother⟩
        · intro problem hproblem
          rcases List.mem_cons.1 hproblem with rfl | hproblem
          · exact ⟨error, rfl⟩
          · exact hproblems problem hproblem

namespace Contract

def clauses (contract : Contract) : List Clause :=
  contract.requires ++ contract.excludes ++ contract.acquires ++ contract.releases
    ++ contract.tryAcquires.map (·.clause) ++ contract.asserts ++ contract.returns.toList

theorem mem_clauses_extend {contract : Contract} {written : String}
    {found : List (Ref × CapId)} {ann : Annotation} {clause : Clause}
    (h : clause ∈ (contract.extend written found ann).clauses) :
    clause ∈ contract.clauses ∨ (clause.template, clause.type) ∈ found := by
  have hnew : ∀ {mode : Mode}, clause ∈ extend.clauses written found mode →
      (clause.template, clause.type) ∈ found := by
    intro mode hclause
    obtain ⟨named, hnamed, rfl⟩ := List.mem_map.1 hclause
    exact hnamed
  cases ann with
  | returns arg =>
    -- The last annotation of this kind counts, so the earlier clause is gone.
    simp only [extend, clauses, List.mem_append, Option.mem_toList] at h ⊢
    rcases h with h | h
    · exact .inl (.inl h)
    · exact .inr (hnew (List.mem_of_mem_head? h))
  | tryAcquires mode success args =>
    simp only [extend, clauses, List.mem_append, List.map_append, List.map_map] at h ⊢
    have hclauses : (extend.clauses written found mode).map
        ((·.clause) ∘ fun clause => (⟨clause, success⟩ : AttemptClause)) =
          extend.clauses written found mode :=
      List.map_id _
    rw [hclauses] at h
    grind
  | _ =>
    simp only [extend, clauses, List.mem_append] at h ⊢
    grind

/-- A contract, and what is wrong with it, as they come from attributes in a scope. -/
structure ReadFrom (decls : Declarations) (scope : Scope) (contract : Contract)
    (problems : List Problem) : Prop where
  clauses : ∀ clause ∈ contract.clauses, ∃ arg,
    decls.resolve scope arg = .ok (clause.template, clause.type)
  problems : ∀ problem ∈ problems, problem.kind ≠ .contractMismatch

theorem readFrom_addAttribute {scope : Scope} {contract after : Contract}
    {written : String} {problems : List Problem}
    (hcontract : ReadFrom decls scope contract [])
    (h : contract.addAttribute decls scope written = .ok (after, problems)) :
    ReadFrom decls scope after problems := by
  unfold addAttribute at h
  split at h
  · cases h
    exact ⟨hcontract.clauses, by simp [Problem.kind]⟩
  · cases h
    exact hcontract
  · rename_i ann _
    split at h
    · simp only [bind_eq_ok_iff, pure_eq_ok_iff] at h
      obtain ⟨⟨found, others⟩, hresolve, heq⟩ := h
      obtain ⟨rfl, rfl⟩ := Prod.mk.inj heq
      obtain ⟨hfound, hproblems⟩ := decls.of_resolveAll hresolve
      refine ⟨?_, ?_⟩
      · intro clause hclause
        rcases mem_clauses_extend hclause with hold | hnew
        · exact hcontract.clauses clause hold
        · obtain ⟨arg, -, harg⟩ := hfound _ hnew
          exact ⟨arg, harg⟩
      · intro problem hproblem
        obtain ⟨error, rfl⟩ := hproblems problem hproblem
        cases error <;> simp [Problem.kind]
    · cases h
      exact ⟨hcontract.clauses, by simp [Problem.kind]⟩

theorem readFrom_addAttributes {unit item : String} {scope : Scope}
    {attributes : List String} {contract : Contract} {after : Contract}
    {problems : List Problem} (hcontract : ReadFrom decls scope contract [])
    (h : addAttributes decls unit item scope contract attributes
      = .ok (after, problems)) :
    ReadFrom decls scope after problems := by
  induction attributes generalizing contract problems with
  | nil =>
    cases h
    exact hcontract
  | cons written rest ih =>
    simp only [addAttributes, bind_eq_ok_iff, mapError_eq_ok_iff, pure_eq_ok_iff] at h
    obtain ⟨⟨mid, first⟩, hfirst, ⟨last, more⟩, hrest, heq⟩ := h
    obtain ⟨rfl, rfl⟩ := Prod.mk.inj heq
    have hmid := readFrom_addAttribute hcontract hfirst
    have hlast := ih ⟨hmid.clauses, by simp⟩ hrest
    refine ⟨hlast.clauses, ?_⟩
    intro problem hproblem
    rcases List.mem_append.1 hproblem with hproblem | hproblem
    · exact hmid.problems problem hproblem
    · exact hlast.problems problem hproblem

/-- **Every clause of a declaration is an argument of one of its attributes**, resolved
among its parameters. -/
theorem readFrom_ofDecl {unit : String} {decl : FunctionDecl} {contract : Contract}
    {problems : List Problem} (h : ofDecl decls unit decl = .ok (contract, problems)) :
    ReadFrom decls (.function decl) contract problems := by
  simp only [ofDecl, bind_eq_ok_iff, pure_eq_ok_iff] at h
  obtain ⟨⟨read, found⟩, hread, heq⟩ := h
  obtain ⟨rfl, rfl⟩ := Prod.mk.inj heq
  have hempty : ReadFrom decls (.function decl) {} [] := ⟨by simp [clauses], by simp⟩
  have hreadFrom := readFrom_addAttributes hempty hread
  refine ⟨hreadFrom.clauses, ?_⟩
  intro problem hproblem
  rcases List.mem_append.1 hproblem with hproblem | hproblem
  · exact hreadFrom.problems problem hproblem
  · obtain ⟨_, _, rfl⟩ := List.mem_map.1 hproblem
    simp [Problem.kind]

end Contract

/-! ## Guards

The guards of a program are read in four nested loops, over units, structures, fields
and attributes. The bearers are what the outer three come by, in order: each field of a
structure that is met for the first time, and each global. -/

namespace Guards

/-- A member with attributes, as it is declared in a unit. Fields and globals are read
alike, and this is all that reading needs to know of them. -/
structure Bearer where
  unit : String
  /-- The name under which problems are reported. -/
  item : String
  scope : Scope
  member : Member
  attributes : List String

namespace Bearer

def ofField (unit : String) (struct : StructDecl) (field : MemberDecl) : Bearer :=
  let item := Member.qualified struct.name field.name
  ⟨unit, item, .struct struct.name, .ofQualified struct.name item, field.attributes⟩

def ofGlobal (unit : String) (decl : MemberDecl) : Bearer :=
  ⟨unit, decl.name, .global, .global decl.name, decl.attributes⟩

def read (decls : Declarations) (bearer : Bearer) :
    Except Malformed (Guards × List DeclarationError) :=
  ofMember decls bearer.unit bearer.item bearer.scope bearer.member bearer.attributes

end Bearer

/-- The bearers of units, where structures of the names `seen` have been met before.
Such a structure bears nothing, whatever its fields. -/
def bearers : List String → List SourceUnit → List Bearer
  | _, [] => []
  | seen, unit :: rest =>
    (freshStructs seen unit.structs).1.flatMap (fun struct =>
      struct.fields.map (.ofField unit.name struct))
      ++ unit.globals.map (.ofGlobal unit.name)
        ++ bearers (freshStructs seen unit.structs).2 rest

section Gather

variable {α β : Type} {f : α → Except Malformed (Guards × List DeclarationError)}

/-- What several items give, one after the other. -/
def gather (f : α → Except Malformed (Guards × List DeclarationError)) :
    List α → Except Malformed (Guards × List DeclarationError)
  | [] => .ok ([], [])
  | item :: rest => do
    let first ← f item
    let more ← gather f rest
    return followedBy first more

theorem followedBy_nil (collected : Guards × List DeclarationError) :
    followedBy collected ([], []) = collected := by
  simp [followedBy]

theorem nil_followedBy (collected : Guards × List DeclarationError) :
    followedBy ([], []) collected = collected := by
  simp [followedBy]

theorem followedBy_assoc (a b c : Guards × List DeclarationError) :
    followedBy (followedBy a b) c = followedBy a (followedBy b c) := by
  simp [followedBy]

theorem foldlM_followedBy (items : List α) (collected : Guards × List DeclarationError) :
    items.foldlM (fun collected item => do return followedBy collected (← f item)) collected
      = (gather f items).map (followedBy collected) := by
  induction items generalizing collected with
  | nil => simp [gather, Except.map, followedBy_nil, pure, Except.pure]
  | cons item rest ih =>
    rw [List.foldlM_cons, gather]
    cases f item with
    | error error => rfl
    | ok first =>
      simp only [bind, Except.bind, pure, Except.pure] at ih ⊢
      rw [ih]
      cases gather f rest with
      | error error => rfl
      | ok more => simp [Except.map, followedBy_assoc]

theorem foldlM_followedBy_nil (items : List α) :
    items.foldlM (fun collected item => do return followedBy collected (← f item))
      ([], []) = gather f items := by
  rw [foldlM_followedBy]
  cases gather f items <;> simp [Except.map, nil_followedBy]

theorem gather_append (items others : List α) :
    gather f (items ++ others) = do
      let first ← gather f items
      let more ← gather f others
      return followedBy first more := by
  induction items with
  | nil =>
    simp only [List.nil_append, gather]
    cases gather f others <;> simp [bind, Except.bind, pure, Except.pure, nil_followedBy]
  | cons item rest ih =>
    simp only [List.cons_append, gather, ih]
    cases f item with
    | error error => rfl
    | ok first =>
      cases gather f rest with
      | error error => rfl
      | ok mid =>
        cases gather f others with
        | error error => rfl
        | ok last => simp [bind, Except.bind, pure, Except.pure, followedBy_assoc]

theorem gather_flatMap (g : β → List α) (items : List β) :
    gather f (items.flatMap g) = gather (fun item => gather f (g item)) items := by
  induction items with
  | nil => rfl
  | cons item rest ih => rw [List.flatMap_cons, gather_append, gather, ih]

theorem gather_map (g : β → α) (items : List β) :
    gather f (items.map g) = gather (fun item => f (g item)) items := by
  induction items with
  | nil => rfl
  | cons item rest ih => rw [List.map_cons, gather, gather, ih]

theorem exists_of_gather {items : List α} {result : Guards × List DeclarationError}
    {guarded : Member × Guard} (h : gather f items = .ok result)
    (hmem : guarded ∈ result.1) :
    ∃ item ∈ items, ∃ found, f item = .ok found ∧ guarded ∈ found.1 := by
  induction items generalizing result with
  | nil =>
    cases h
    cases hmem
  | cons item rest ih =>
    simp only [gather, bind_eq_ok_iff, pure_eq_ok_iff] at h
    obtain ⟨first, hfirst, more, hmore, rfl⟩ := h
    rcases List.mem_append.1 hmem with hmem | hmem
    · exact ⟨item, List.mem_cons_self, first, hfirst, hmem⟩
    · obtain ⟨item', hitem', found, hfound⟩ := ih hmore hmem
      exact ⟨item', List.mem_cons_of_mem _ hitem', found, hfound⟩

end Gather

theorem ofStruct_eq (unit : String) (struct : StructDecl) :
    ofStruct decls unit struct = gather (Bearer.read decls)
      (struct.fields.map (.ofField unit struct)) := by
  rw [gather_map]
  exact foldlM_followedBy_nil _

theorem ofGlobals_eq (unit : SourceUnit) :
    ofGlobals decls unit = gather (Bearer.read decls)
      (unit.globals.map (.ofGlobal unit.name)) := by
  rw [gather_map]
  exact foldlM_followedBy_nil _

/-- **The four loops are one over the bearers.** From here on the guards of a program
are those that the list of bearers gives. -/
theorem ofUnits_eq (seen : List String) (units : List SourceUnit) :
    ofUnits decls seen units = gather (Bearer.read decls) (bearers seen units) := by
  induction units generalizing seen with
  | nil => rfl
  | cons unit rest ih =>
    rw [bearers, gather_append, gather_append, gather_flatMap, ← ofGlobals_eq, ← ih]
    simp only [← ofStruct_eq, ofUnits, foldlM_followedBy_nil]
    cases gather (ofStruct decls unit.name) (freshStructs seen unit.structs).1 with
    | error error => rfl
    | ok fields =>
      cases ofGlobals decls unit <;> simp [bind, Except.bind, pure, Except.pure]

theorem resolve_of_ofAttribute {scope : Scope} {member : Member} {written : String}
    {guard : Guard} {problems : List Problem}
    (h : ofAttribute decls scope member written = .ok (some guard, problems)) :
    ∃ arg, decls.resolve scope arg = .ok (guard.template, guard.type) := by
  unfold ofAttribute at h
  split at h
  · cases h
  · cases h
  · split at h
    · cases h
    · rename_i arg pointee _
      simp only [bind_eq_ok_iff] at h
      obtain ⟨⟨found, others⟩, hresolve, hguard⟩ := h
      obtain ⟨hfound, -⟩ := decls.of_resolveAll hresolve
      split at hguard
      · rename_i template type _ heq
        obtain ⟨rfl, rfl⟩ := Prod.mk.inj heq
        obtain ⟨arg', -, harg⟩ := hfound _ List.mem_cons_self
        split at hguard
        · cases hguard
        · split at hguard
          · cases hguard
          · cases hguard
            exact ⟨arg', harg⟩
      · cases hguard

/-- **Every guard of a member is an argument of one of its attributes**, resolved in the
scope of the member. -/
theorem exists_of_ofMember {unit item : String} {scope : Scope} {member : Member}
    {attributes : List String} {result : Guards × List DeclarationError}
    (h : ofMember decls unit item scope member attributes = .ok result)
    {guarded : Member × Guard} (hmem : guarded ∈ result.1) :
    guarded.1 = member ∧
      ∃ arg, decls.resolve scope arg = .ok (guarded.2.template, guarded.2.type) := by
  induction attributes generalizing result with
  | nil =>
    cases h
    cases hmem
  | cons written rest ih =>
    simp only [ofMember, bind_eq_ok_iff, mapError_eq_ok_iff, pure_eq_ok_iff] at h
    obtain ⟨⟨guard, problems⟩, hfirst, more, hrest, rfl⟩ := h
    rcases List.mem_append.1 hmem with hmem | hmem
    · obtain ⟨new, hnew, rfl⟩ := List.mem_map.1 hmem
      rw [Option.mem_toList] at hnew
      subst hnew
      exact ⟨rfl, resolve_of_ofAttribute hfirst⟩
    · exact ih hrest hmem

end Guards

end Custody
