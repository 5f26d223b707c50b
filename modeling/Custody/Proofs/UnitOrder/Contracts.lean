import Custody.Proofs.Table.Merging
import Custody.Proofs.UnitOrder.Declarations

/-!
# Contracts of units in another order

The contract of a function is put together from its declarations. Those that are known
to all units have the same attributes in all of them, hence the same contract, and it
does not matter how often or where they stand; those that are known to one unit stand in
that unit only, where their order stays. So the list of contracts that is put together
is the same list (`builtIn_functionsOf`), and under other numbers the same but for the
numbers.

That it is the same *list* is more than that it has the same contracts, and it is
needed: merging keeps the spelling of the first contract, and whether a later one is
refused depends on what was merged before. For functions known to all units a
permutation is enough after all, because all items of the list are equal
(`eq_of_perm_of_forall_eq`).

What is compared is `Contracts.find`, for each function by itself. The lemma that makes
this possible is `exists_addDecls_nil_iff`: reading all declarations without a report is
the same as reading each of them without one, and refusing none within its own linkage.
Linkages do not see each other.
-/

set_option autoImplicit false

namespace Custody

/-!
## Merging under another numbering

Whether contracts say the same is decided on their obligations, which are compared for
equality. The renumbering of obligations is injective, so that the decision is the same.
-/

section Renumber

variable (ρ : CapId ↪ CapId)

def Obligation.renumber (obligation : Obligation) : Obligation :=
  { obligation with type := ρ obligation.type }

theorem Obligation.renumber_injective : Function.Injective (Obligation.renumber ρ) := by
  rintro ⟨role, template, type, mode⟩ ⟨role', template', type', mode'⟩ h
  simp only [renumber, Obligation.mk.injEq] at h
  obtain ⟨rfl, rfl, htype, rfl⟩ := h
  rw [ρ.injective htype]

namespace Contract

theorem obligations_renumber (contract : Contract) :
    (contract.renumber ρ).obligations = contract.obligations.map
      (Obligation.renumber ρ) := by
  simp [obligations, renumber, Clause.obligation, Obligation.renumber,
    AttemptClause.renumber, Function.comp_def]
  cases contract.returns <;> rfl

@[simp] theorem hasObligations_renumber (contract : Contract) :
    (contract.renumber ρ).hasObligations = contract.hasObligations := by
  simp [hasObligations, obligations_renumber]

@[simp] theorem sameObligations_renumber (a b : Contract) :
    (a.renumber ρ).sameObligations (b.renumber ρ) = a.sameObligations b := by
  have hmem := fun (contract : Contract) (o : Obligation) =>
    List.mem_map_of_injective (Obligation.renumber_injective ρ) (a := o)
      (l := contract.obligations)
  rw [Bool.eq_iff_iff, sameObligations_iff, sameObligations_iff]
  simp only [obligations_renumber]
  constructor
  · intro h o
    rw [← hmem a o, ← hmem b o, h]
  · intro h o
    simp only [List.mem_map, h]

theorem merge?_renumber (a b : Contract) :
    (a.renumber ρ).merge? (b.renumber ρ) = (a.merge? b).map (renumber ρ) := by
  simp only [merge?, hasObligations_renumber, sameObligations_renumber]
  split
  · rfl
  · split
    · rfl
    · split <;> rfl

theorem kept_renumber (stored : Option Contract) (contract : Contract) :
    kept (stored.map (renumber ρ)) (contract.renumber ρ) =
      (kept stored contract).renumber ρ := by
  cases stored with
  | none => rfl
  | some existing =>
    simp only [kept, Option.map_some, merge?_renumber]
    cases existing.merge? contract <;> rfl

theorem isRefused_renumber (stored : Option Contract) (contract : Contract) :
    isRefused (stored.map (renumber ρ)) (contract.renumber ρ) =
      isRefused stored contract := by
  cases stored <;> simp [isRefused, merge?_renumber]

theorem keptOf_renumber (stored : Option Contract) (contracts : List Contract) :
    keptOf (stored.map (renumber ρ)) (contracts.map (renumber ρ)) =
      (keptOf stored contracts).map (renumber ρ) := by
  induction contracts generalizing stored with
  | nil => rfl
  | cons contract rest ih =>
    have hrest := ih (some (kept stored contract))
    rw [Option.map_some, ← kept_renumber] at hrest
    exact hrest

theorem anyRefused_renumber (stored : Option Contract) (contracts : List Contract) :
    anyRefused (stored.map (renumber ρ)) (contracts.map (renumber ρ)) =
      anyRefused stored contracts := by
  induction contracts generalizing stored with
  | nil => rfl
  | cons contract rest ih =>
    have hrest := ih (some (kept stored contract))
    rw [Option.map_some, ← kept_renumber] at hrest
    rw [List.map_cons, anyRefused, anyRefused, isRefused_renumber, hrest]

end Contract

end Renumber

/-!
## Declarations that read alike

The unit and the name of a declaration are only used in reports, so they do not count
for what is read.
-/

namespace Contract

variable {decls : Declarations} {scope scope' : Scope}

theorem addAttribute_congr (hroot : scope'.root decls = scope.root decls)
    (htype : scope'.rootType = scope.rootType) (contract : Contract)
    (written : String) :
    contract.addAttribute decls scope' written =
      contract.addAttribute decls scope written := by
  have hresolve :
      ∀ args, decls.resolveAll scope' written args =
        decls.resolveAll scope written args := by
    intro args
    have hone : ∀ arg, decls.resolve scope' arg = decls.resolve scope arg := by
      intro arg
      simp only [Declarations.resolve, hroot, htype]
    induction args with
    | nil => rfl
    | cons arg rest ih => simp only [Declarations.resolveAll, hone, ih]
  simp only [addAttribute, hresolve]

theorem addAttributes_congr (hroot : scope'.root decls = scope.root decls)
    (htype : scope'.rootType = scope.rootType) (unit unit' item item' : String)
    (contract : Contract) (attributes : List String) :
    (addAttributes decls unit' item' scope' contract attributes).toOption =
      (addAttributes decls unit item scope contract attributes).toOption := by
  induction attributes generalizing contract with
  | nil => rfl
  | cons written rest ih =>
    simp only [addAttributes, addAttribute_congr hroot htype, toOption_bind,
      toOption_mapError, ih]

theorem ofDecl_congr {decl decl' : FunctionDecl} (hparams : decl'.params = decl.params)
    (hattributes : decl'.attributes = decl.attributes) (unit unit' : String) :
    (ofDecl decls unit' decl').toOption = (ofDecl decls unit decl).toOption := by
  have hroot : Scope.root decls (.function decl') = Scope.root decls (.function decl) := by
    funext name
    simp [Scope.root, Scope.ownRoot, FunctionDecl.paramIndex?, hparams]
  have htype : Scope.rootType (.function decl') = Scope.rootType (.function decl) := by
    funext ref
    cases ref <;> simp [Scope.rootType, hparams]
  simp only [ofDecl, toOption_bind, hattributes,
    addAttributes_congr hroot htype unit unit' decl.name decl'.name]

end Contract

namespace Contracts

open Contract (kept isRefused keptOf anyRefused)

variable {decls : Declarations} {contracts : Contracts} {fs : List (String × FunctionDecl)}

theorem anyRefused_cons_iff {unit : String} {decl : FunctionDecl} {contract : Contract}
    {problems : List Problem}
    (hbuilt : Contract.ofDecl decls unit decl = .ok (contract, problems)) :
    (∀ linkage, anyRefused (contracts.stored? linkage)
      (builtIn decls linkage ((unit, decl) :: fs)) = false) ↔
      isRefused (contracts.stored? (decl.linkage unit)) contract = false ∧
      ∀ linkage, anyRefused ((contracts.take unit decl contract).stored? linkage)
        (builtIn decls linkage fs) = false := by
  -- One declaration changes what is stored for its own linkage and is in the list of
  -- that linkage only, so every other linkage is as before.
  simp only [stored?_take]
  constructor
  · intro h
    have hown := h (decl.linkage unit)
    rw [builtIn_cons_self hbuilt, anyRefused, Bool.or_eq_false_iff] at hown
    refine ⟨hown.1, fun linkage => ?_⟩
    by_cases hlinkage : linkage = decl.linkage unit
    · rw [if_pos hlinkage, hlinkage]
      exact hown.2
    · rw [if_neg hlinkage, ← builtIn_cons_of_ne (Ne.symm hlinkage)]
      exact h linkage
  · rintro ⟨hfirst, hrest⟩ linkage
    have hrest := hrest linkage
    by_cases hlinkage : linkage = decl.linkage unit
    · rw [if_pos hlinkage] at hrest
      rw [hlinkage] at hrest ⊢
      rw [builtIn_cons_self hbuilt, anyRefused, hfirst, Bool.false_or]
      exact hrest
    · rw [if_neg hlinkage] at hrest
      rw [builtIn_cons_of_ne (Ne.symm hlinkage)]
      exact hrest

/-- Nothing is reported if every declaration is right by itself and none is refused.
Both can be told without following the pass, so that its order plays no part. -/
theorem exists_addDecls_nil_iff :
    (∃ after, addDecls decls contracts fs = .ok (after, [])) ↔
      (∀ f ∈ fs, ∃ contract, Contract.ofDecl decls f.1 f.2 = .ok (contract, [])) ∧
      ∀ linkage, anyRefused (contracts.stored? linkage) (builtIn decls linkage fs) =
        false := by
  induction fs generalizing contracts with
  | nil => simp [addDecls, builtIn, anyRefused]
  | cons f rest ih =>
    obtain ⟨unit, decl⟩ := f
    simp only [addDecls_cons_eq_ok_iff, List.forall_mem_cons]
    constructor
    · rintro ⟨after, contract, problems, more, hbuilt, hrest, herrors⟩
      obtain ⟨hfirst, rfl⟩ := List.append_eq_nil_iff.1 herrors.symm
      obtain ⟨hproblems, hrefused⟩ := List.append_eq_nil_iff.1 hfirst
      obtain rfl := List.map_eq_nil_iff.1 hproblems
      obtain ⟨hdecls, hlater⟩ := ih.1 ⟨after, hrest⟩
      refine ⟨⟨⟨contract, hbuilt⟩, hdecls⟩, (anyRefused_cons_iff hbuilt).2 ⟨?_, hlater⟩⟩
      simpa using hrefused
    · rintro ⟨⟨⟨contract, hbuilt⟩, hrest⟩, hrefused⟩
      obtain ⟨hfirst, hlater⟩ := (anyRefused_cons_iff hbuilt).1 hrefused
      obtain ⟨after, hafter⟩ := ih.2 ⟨hrest, hlater⟩
      exact ⟨after, contract, [], [], hbuilt, hafter, by simp [hfirst]⟩

/-! ## The declarations of units in another order -/

theorem eq_of_perm_of_forall_eq {α : Type} {as bs : List α} (hperm : as.Perm bs)
    (h : ∀ a ∈ as, ∀ b ∈ as, a = b) :
    as = bs := by
  cases as with
  | nil => exact (List.nil_perm.1 hperm).symm
  | cons a as =>
    have has : a :: as = List.replicate (as.length + 1) a :=
      List.eq_replicate_of_mem fun b hb => h b hb a (by simp)
    rw [has] at hperm ⊢
    exact List.replicate_perm.1 hperm

theorem mem_builtIn {linkage : Linkage} {contract : Contract} :
    contract ∈ builtIn decls linkage fs ↔
      ∃ f ∈ fs, f.2.linkage f.1 = linkage ∧
        ∃ problems, Contract.ofDecl decls f.1 f.2 = .ok (contract, problems) := by
  simp only [builtIn, List.mem_filterMap, Option.ite_none_right_eq_some,
    Option.map_eq_some_iff, toOption_eq_some_iff]
  constructor
  · rintro ⟨f, hf, hlinkage, ⟨_, problems⟩, hbuilt, rfl⟩
    exact ⟨f, hf, hlinkage, problems, hbuilt⟩
  · rintro ⟨f, hf, hlinkage, problems, hbuilt⟩
    exact ⟨f, hf, hlinkage, _, hbuilt, rfl⟩

variable {p q : Program}

/-- Functions that are known to all units by one name have one contract. -/
theorem eq_of_mem_builtIn_shared (hcoherent : p.Coherent) {name : String} {a b : Contract}
    (ha : a ∈ builtIn decls (.shared name) (Table.functionsOf p))
    (hb : b ∈ builtIn decls (.shared name) (Table.functionsOf p)) : a = b := by
  have hshared : ∀ f ∈ Table.functionsOf p, f.2.linkage f.1 = .shared name →
      f.2 ∈ p.units.flatMap (·.functions) ∧ f.2.isStatic = false ∧ f.2.name = name := by
    intro f hf hlinkage
    simp only [Table.functionsOf, List.mem_flatMap, List.mem_map] at hf
    obtain ⟨unit, hunit, decl, hdecl, rfl⟩ := hf
    refine ⟨List.mem_flatMap.2 ⟨unit, hunit, hdecl⟩, ?_⟩
    cases hstatic : decl.isStatic <;> simp_all [FunctionDecl.linkage]
  obtain ⟨f, hf, hlinkage, problems, hbuilt⟩ := mem_builtIn.1 ha
  obtain ⟨g, hg, hlinkage', problems', hbuilt'⟩ := mem_builtIn.1 hb
  obtain ⟨hfmem, hfstatic, hfname⟩ := hshared f hf hlinkage
  obtain ⟨hgmem, hgstatic, hgname⟩ := hshared g hg hlinkage'
  obtain ⟨hparams, hattributes⟩ :=
    hcoherent.functions f.2 hfmem g.2 hgmem hfstatic hgstatic (hfname.trans hgname.symm)
  have hsame :
      (Contract.ofDecl decls f.1 f.2).toOption =
        (Contract.ofDecl decls g.1 g.2).toOption :=
    Contract.ofDecl_congr hparams hattributes g.1 f.1
  rw [hbuilt, hbuilt'] at hsame
  exact congrArg Prod.fst (Option.some.inj hsame)

theorem builtIn_ofUnit (unit name : String) (units : List SourceUnit) :
    builtIn decls (.ofUnit unit name) (Table.functionsOf ⟨units⟩) =
      builtIn decls (.ofUnit unit name)
        (Table.functionsOf ⟨units.filter (·.name = unit)⟩) := by
  induction units with
  | nil => rfl
  | cons first rest ih =>
    have hsplit : ∀ us : List SourceUnit,
        builtIn decls (.ofUnit unit name) (Table.functionsOf ⟨first :: us⟩) =
        builtIn decls (.ofUnit unit name) (first.functions.map (first.name, ·)) ++
          builtIn decls (.ofUnit unit name) (Table.functionsOf ⟨us⟩) := by
      intro us
      simp only [Table.functionsOf, List.flatMap_cons, builtIn, List.filterMap_append]
    by_cases hname : first.name = unit
    · rw [List.filter_cons_of_pos (by simpa using hname), hsplit, hsplit, ih]
    · have hnone :
          builtIn decls (.ofUnit unit name) (first.functions.map (first.name, ·)) =
            [] := by
        refine List.filterMap_eq_nil_iff.2 fun f hf => ?_
        obtain ⟨decl, -, rfl⟩ := List.mem_map.1 hf
        have hlinkage : decl.linkage first.name ≠ .ofUnit unit name := by
          unfold FunctionDecl.linkage
          split <;> simp [hname]
        exact if_neg hlinkage
      rw [List.filter_cons_of_neg (by simpa using hname), hsplit, hnone,
        List.nil_append, ih]

/-- The declarations of one linkage give the same contracts in the same order, in
whatever order the units stand. -/
theorem builtIn_functionsOf (hcoherent : p.Coherent) (hperm : p.units.Perm q.units)
    (linkage : Linkage) :
    builtIn decls linkage (Table.functionsOf p) = builtIn decls linkage
      (Table.functionsOf q) := by
  cases linkage with
  | shared name =>
    exact eq_of_perm_of_forall_eq (builtIn_perm decls (hperm.flatMap_right _) _)
      fun a ha b hb => eq_of_mem_builtIn_shared hcoherent ha hb
  | ofUnit unit name =>
    have hunits : p.units.filter (·.name = unit) = q.units.filter (·.name = unit) := by
      refine eq_of_perm_of_forall_eq (hperm.filter _) fun a ha b hb => ?_
      simp only [List.mem_filter, decide_eq_true_eq] at ha hb
      exact List.inj_on_of_nodup_map hcoherent.units ha.1 hb.1 (ha.2.trans hb.2.symm)
    rw [builtIn_ofUnit unit name p.units, hunits, ← builtIn_ofUnit unit name q.units]

/-- **In another order of the units, the contracts are the same but for the numbers**,
and nothing is reported either. -/
theorem addDecls_reordered {ρ : CapId ↪ CapId} {decls' : Declarations}
    (hdecls : decls.Renumbered ρ decls') (hcoherent : p.Coherent)
    (hperm : p.units.Perm q.units) {known : Contracts}
    (h : addDecls decls .empty (Table.functionsOf p) = .ok (known, [])) :
    ∃ known', addDecls decls' .empty (Table.functionsOf q) = .ok (known', []) ∧
      ∀ unit name, known'.find unit name = (known.find unit name).renumber ρ := by
  obtain ⟨hbuilt, hrefused⟩ := exists_addDecls_nil_iff.1 ⟨known, h⟩
  have hfunctions : (Table.functionsOf p).Perm (Table.functionsOf q) :=
    hperm.flatMap_right _
  -- The contracts of each linkage are the same list in both programs, but for the
  -- numbers. All that is refused or stored depends on this list.
  have hbuiltIn : ∀ linkage, builtIn decls' linkage (Table.functionsOf q) =
      (builtIn decls linkage (Table.functionsOf p)).map (Contract.renumber ρ) := by
    intro linkage
    rw [builtIn_functionsOf hcoherent hperm, builtIn, builtIn, List.map_filterMap]
    refine List.filterMap_congr fun f hf => ?_
    obtain ⟨contract, hcontract⟩ := hbuilt f (hfunctions.mem_iff.2 hf)
    simp only [hcontract, Contract.ofDecl_renumber hdecls hcontract, Except.toOption]
    split <;> rfl
  have hnil :
      ∃ known', addDecls decls' .empty (Table.functionsOf q) = .ok (known', []) := by
    refine exists_addDecls_nil_iff.2 ⟨fun f hf => ?_, fun linkage => ?_⟩
    · obtain ⟨contract, hcontract⟩ := hbuilt f (hfunctions.mem_iff.2 hf)
      exact ⟨_, Contract.ofDecl_renumber hdecls hcontract⟩
    · have hsame :=
        Contract.anyRefused_renumber ρ none
          (builtIn decls linkage (Table.functionsOf p))
      have hnone := hrefused linkage
      rw [stored?_empty] at hnone ⊢
      rw [hbuiltIn, ← hnone, ← hsame]
      rfl
  obtain ⟨known', h'⟩ := hnil
  refine ⟨known', h', fun unit name => ?_⟩
  have hstored :
      ∀ linkage, known'.stored? linkage = (known.stored? linkage).map
        (Contract.renumber ρ) := by
    intro linkage
    rw [stored?_of_addDecls h', stored?_of_addDecls h, hbuiltIn, stored?_empty,
      ← Contract.keptOf_renumber]
    rfl
  rw [find_eq, find_eq, hstored, hstored, ← Option.map_or]
  cases (known.stored? (.ofUnit unit name)).or (known.stored? (.shared name)) <;> rfl

end Contracts

end Custody
