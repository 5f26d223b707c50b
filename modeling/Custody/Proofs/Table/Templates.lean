import Custody.Proofs.Table.Merging
import Custody.Table.Basic

/-!
# Templates denote capabilities

An argument of an attribute may be written as an object, as its address, as a pointer to
it, or as a path through all of these, and it is the type of the whole that decides
which object is meant. `templates_denote` says that the object is always a capability:
each template the table stores, of a clause or of a guard, has a type in the scope it
was written in, without pointers, and this type is the capability type stored with it.

Only two of the ways through `resolve` leave a choice. An address has one pointer more
than its object, unless the count is full, so an operand with exactly one pointer is
either the address of a capability or a place that holds such an address; the template
is then that object, or what the place points to.

The statement is about the tables that are built, and not about `resolve`. Contracts are
merged and guards are looked up by member before anything uses them, and it is what
comes out of that which has to denote something. A stored contract is that of one
declaration (`exists_of_keptOf`), so there is a single scope for all its clauses; for a
guard the scope is known from the member.
-/

set_option autoImplicit false

namespace Custody

/-- A reference in a scope names an object of a capability type. It is the object itself
that has the type, and not a pointer to it. -/
def Declarations.Denotes (decls : Declarations) (scope : Scope) (ref : Ref)
    (id : CapId) : Prop :=
  ∃ type, decls.typeOf scope.rootType ref = .ok type ∧ type.pointers = 0 ∧
    decls.registry.lookup type.base = some id

theorem CType.pointers_addressOf_pos (type : CType) : 0 < type.addressOf.pointers := by
  simp only [addressOf, levels]
  omega

theorem CType.pointers_eq_zero_of_addressOf {type : CType}
    (h : type.addressOf.pointers ≤ 1) : type.pointers = 0 := by
  simp only [addressOf, levels] at h
  omega

namespace Declarations

variable {decls : Declarations} {scope : Scope}

theorem typeOf_deref {rootType : Ref → Option CType} {ref : Ref} {type pointee : CType}
    (h : decls.typeOf rootType ref = .ok type) (hpointee : type.pointee? = some pointee) :
    decls.typeOf rootType (.deref ref) = .ok pointee := by
  simp [typeOf, h, hpointee, bind, Except.bind]

/-- The object that an operand of a capability type, or of a pointer to one, stands
for. -/
theorem denotes_of_typeOfOperand {operand : Operand} {type : CType} {id : CapId}
    (htype : decls.typeOfOperand scope.rootType operand = .ok type)
    (hpointers : type.pointers ≤ 1) (hid : decls.registry.lookup type.base = some id) :
    decls.Denotes scope
      (if type.pointers > 0 then operand.pointee else operand.object) id := by
  cases operand with
  | place ref =>
    by_cases hpointer : type.pointers > 0
    · have hpointee : type.pointee? = some { type with pointers := 0 } := by
        have hone : type.pointers = 1 := by omega
        simp [CType.pointee?, hone]
      rw [if_pos hpointer]
      exact ⟨_, typeOf_deref htype hpointee, rfl, hid⟩
    · rw [if_neg hpointer]
      exact ⟨type, htype, by omega, hid⟩
  | address ref =>
    obtain ⟨object, hobject, rfl⟩ := map_eq_ok_iff.1 htype
    rw [if_pos object.pointers_addressOf_pos]
    exact ⟨object, hobject, CType.pointers_eq_zero_of_addressOf hpointers, hid⟩

theorem denotes_of_resolve {expr : Expr} {ref : Ref} {id : CapId}
    (h : decls.resolve scope expr = .ok (ref, id)) :
    decls.Denotes scope ref id := by
  simp only [resolve, bind_eq_ok_iff, mapError_eq_ok_iff] at h
  obtain ⟨operand, -, type, htype, h⟩ := h
  by_cases hpointers : type.pointers > 1
  · simp [hpointers, throw, throwThe, MonadExceptOf.throw, bind, Except.bind] at h
  · simp only [hpointers, if_false] at h
    cases hid : decls.registry.lookup type.base with
    | none => simp [hid, throw, throwThe, MonadExceptOf.throw] at h
    | some found =>
      simp only [hid, pure_eq_ok_iff] at h
      obtain ⟨rfl, rfl⟩ := Prod.mk.inj h
      exact denotes_of_typeOfOperand htype (by omega) hid

end Declarations

/-! ## Guards -/

def Member.scope : Member → Scope
  | .field struct _ => .struct struct
  | .global _ => .global

namespace Guards

theorem scope_of_mem_bearers {seen : List String} {units : List SourceUnit}
    {bearer : Bearer} (h : bearer ∈ bearers seen units) :
    bearer.scope = bearer.member.scope := by
  induction units generalizing seen with
  | nil => simp [bearers] at h
  | cons unit rest ih =>
    simp only [bearers, List.mem_append, List.mem_flatMap, List.mem_map] at h
    rcases h with (⟨struct, -, field, -, rfl⟩ | ⟨decl, -, rfl⟩) | h
    · rfl
    · rfl
    · exact ih h

theorem mem_of_find? {guards : Guards} {member : Member} {pointee : Bool} {guard : Guard}
    (h : guards.find? member pointee = some guard) : (member, guard) ∈ guards := by
  obtain ⟨⟨found, _⟩, hfound, rfl⟩ := Option.map_eq_some_iff.1 h
  obtain ⟨hmem, hpasses⟩ := List.mem_filter.1 (List.mem_of_getLast? hfound)
  simp only [Bool.and_eq_true, decide_eq_true_eq] at hpasses
  rw [← hpasses.1]
  exact hmem

theorem denotes_of_ofUnits {decls : Declarations} {units : List SourceUnit}
    {result : Guards × List DeclarationError} (h : ofUnits decls [] units = .ok result)
    {member : Member} {pointee : Bool} {guard : Guard}
    (hguard : result.1.find? member pointee = some guard) :
    decls.Denotes member.scope guard.template guard.type := by
  rw [ofUnits_eq] at h
  obtain ⟨bearer, hbearer, found, hread, hmem⟩ := exists_of_gather h (mem_of_find? hguard)
  obtain ⟨heq, arg, harg⟩ := exists_of_ofMember hread hmem
  dsimp only at heq harg
  rw [heq, ← scope_of_mem_bearers hbearer]
  exact Declarations.denotes_of_resolve harg

end Guards

/-! ## Contracts -/

theorem Contracts.denotes_of_addDecls {decls : Declarations}
    {fs : List (String × FunctionDecl)} {result : Contracts × List DeclarationError}
    (h : addDecls decls .empty fs = .ok result) {linkage : Linkage}
    {contract : Contract} (hstored : result.1.stored? linkage = some contract) :
    ∃ f ∈ fs, f.2.linkage f.1 = linkage ∧
      ∀ clause ∈ contract.clauses,
      decls.Denotes (.function f.2) clause.template clause.type := by
  rw [stored?_of_addDecls h, stored?_empty] at hstored
  obtain ⟨source, hsource | hsource, hflagged⟩ := Contract.exists_of_keptOf hstored
  · cases hsource
  · obtain ⟨⟨unit, decl⟩, hf, hbuilt⟩ := List.mem_filterMap.1 hsource
    by_cases hlinkage : decl.linkage unit = linkage
    · refine ⟨(unit, decl), hf, hlinkage, ?_⟩
      cases hdecl : Contract.ofDecl decls unit decl with
      | error error => simp [hlinkage, hdecl, Except.toOption] at hbuilt
      | ok built =>
        simp only [hlinkage, if_true, hdecl, Except.toOption, Option.map_some,
          Option.some.injEq] at hbuilt
        subst hbuilt
        intro clause hclause
        rw [hflagged] at hclause
        obtain ⟨arg, harg⟩ := (Contract.readFrom_ofDecl hdecl).clauses clause hclause
        exact Declarations.denotes_of_resolve harg
    · simp [hlinkage] at hbuilt

namespace Table

theorem build_eq_ok_iff {program : Program} {table : Table} :
    build program = .ok table ↔ ∃ guardErrors contractErrors,
      table.decls = (Declarations.ofProgram program).1 ∧
      Guards.ofUnits table.decls [] program.units = .ok (table.guards, guardErrors) ∧
      Contracts.addDecls table.decls .empty (functionsOf program) =
        .ok (table.contracts, contractErrors) ∧
      table.errors = (Declarations.ofProgram program).2 ++ guardErrors
        ++ contractErrors := by
  obtain ⟨decls, guards, contracts, errors⟩ := table
  simp only [build, bind_eq_ok_iff, pure_eq_ok_iff, Prod.exists, mk.injEq]
  constructor
  · rintro ⟨guards', guardErrors, hguards, contracts', contractErrors, hcontracts, rfl,
      rfl, rfl, rfl⟩
    exact ⟨guardErrors, contractErrors, rfl, hguards, hcontracts, rfl⟩
  · rintro ⟨guardErrors, contractErrors, rfl, hguards, hcontracts, rfl⟩
    exact ⟨guards, guardErrors, hguards, contracts, contractErrors, hcontracts, rfl,
      rfl, rfl, rfl⟩

theorem mem_functionsOf {program : Program} {f : String × FunctionDecl} :
    f ∈ functionsOf program ↔
      ∃ unit ∈ program.units, f.2 ∈ unit.functions ∧ f.1 = unit.name := by
  obtain ⟨name, decl⟩ := f
  simp only [functionsOf, List.mem_flatMap, List.mem_map, Prod.mk.injEq]
  constructor
  · rintro ⟨unit, hunit, _, hdecl, rfl, rfl⟩
    exact ⟨unit, hunit, hdecl, rfl⟩
  · rintro ⟨unit, hunit, hdecl, rfl⟩
    exact ⟨unit, hunit, decl, hdecl, rfl, rfl⟩

/-- **Every template denotes a capability object.** All clauses of a stored contract
name capabilities, of the types that are stored with them, under the parameters of one
of the function's declarations; guards of fields do, with the structure as the object
that holds them, and guards of globals do. -/
theorem templates_denote {program : Program} {table : Table}
    (h : build program = .ok table) :
    (∀ linkage contract, table.contracts.stored? linkage = some contract →
      ∃ unit ∈ program.units, ∃ decl ∈ unit.functions, decl.linkage unit.name = linkage ∧
        ∀ clause ∈ contract.clauses,
          table.decls.Denotes (.function decl) clause.template clause.type) ∧
    (∀ struct field pointee guard, table.guard? (.field struct field) pointee = some guard →
      table.decls.Denotes (.struct struct) guard.template guard.type) ∧
    ∀ name pointee guard, table.guard? (.global name) pointee = some guard →
      table.decls.Denotes .global guard.template guard.type := by
  obtain ⟨guardErrors, contractErrors, -, hguards, hcontracts, -⟩ := build_eq_ok_iff.1 h
  refine ⟨?_, ?_, ?_⟩
  · intro linkage contract hstored
    obtain ⟨f, hf, hlinkage, hclauses⟩ := Contracts.denotes_of_addDecls hcontracts hstored
    obtain ⟨unit, hunit, hdecl, hname⟩ := mem_functionsOf.1 hf
    rw [hname] at hlinkage
    exact ⟨unit, hunit, f.2, hdecl, hlinkage, hclauses⟩
  · intro struct field pointee guard hguard
    exact Guards.denotes_of_ofUnits hguards hguard
  · intro name pointee guard hguard
    exact Guards.denotes_of_ofUnits hguards hguard

/-- A lock that is part of a structure, one that is pointed to, a global one and a
token. -/
def lockProgram : Program :=
  let spinlock := CapTypeDecl.mk "spinlock_t" false
  let rcu := CapTypeDecl.mk "rcu" true
  let foo :=
    StructDecl.mk "foo" [⟨"lock", "spinlock_t", []⟩, ⟨"parent", "struct foo *", []⟩,
    ⟨"count", "int", ["__guarded_by(&lock)"]⟩,
    ⟨"data", "int *", ["__pt_guarded_by(parent->lock)"]⟩]
  let update :=
    FunctionDecl.mk "update" false false [⟨"f", "struct foo *"⟩, ⟨"l", "spinlock_t *"⟩]
    ["__must_hold(&f->lock, l)", "__acquires(rcu)", "__releases((*f->parent).lock)"] [] none
  ⟨[⟨"foo.c", true, [spinlock, rcu], [], [foo],
    [⟨"total", "int", ["__guarded_by(rcu)"]⟩], [update]⟩]⟩

theorem templates_denote_lockProgram :
    ∃ table, build lockProgram = .ok table ∧
      (∃ contract, table.contracts.stored? (.shared "update") = some contract ∧
        contract.clauses.length = 4 ∧
        ∃ unit ∈ lockProgram.units, ∃ decl ∈ unit.functions,
          decl.linkage unit.name = .shared "update" ∧
          ∀ clause ∈ contract.clauses,
            table.decls.Denotes (.function decl) clause.template clause.type) ∧
      (∃ guard, table.guard? (.field "foo" "data") true = some guard ∧
        table.decls.Denotes (.struct "foo") guard.template guard.type) ∧
      ∃ guard, table.guard? (.global "total") false = some guard ∧
        table.decls.Denotes .global guard.template guard.type := by
  have htable : (build lockProgram).toOption.map (fun table =>
      ((table.contracts.stored? (.shared "update")).map (·.clauses.length),
        (table.guard? (.field "foo" "data") true).isSome,
        (table.guard? (.global "total") false).isSome)) =
      some (some 4, true, true) := by decide +kernel
  obtain ⟨table, hbuild, hfound⟩ := Option.map_eq_some_iff.1 htable
  rw [toOption_eq_some_iff] at hbuild
  simp only [Prod.mk.injEq] at hfound
  obtain ⟨hstored, hfield, hglobal⟩ := hfound
  obtain ⟨hcontracts, hfields, hglobals⟩ := templates_denote hbuild
  obtain ⟨contract, hcontract, hlength⟩ := Option.map_eq_some_iff.1 hstored
  obtain ⟨data, hdata⟩ := Option.isSome_iff_exists.1 hfield
  obtain ⟨total, htotal⟩ := Option.isSome_iff_exists.1 hglobal
  exact ⟨table, hbuild, ⟨contract, hcontract, hlength, hcontracts _ _ hcontract⟩,
    ⟨data, hdata, hfields _ _ _ _ hdata⟩, total, htotal, hglobals _ _ _ htotal⟩

end Table

end Custody
