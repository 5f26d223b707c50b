import Custody.Proofs.FinMap
import Custody.Proofs.Table.Reading
import Mathlib.Data.List.Perm.Basic

/-!
# Declarations of one function

A function may be declared many times, and its contract is put together from the
declarations as they come. What is kept at any moment is the contract of one of them,
and whether the next one is taken, ignored or refused depends on those before.
`declarations_agree` says that nothing of this shows in the end: a declaration is
refused iff two of them state different obligations, and if none is, the obligations and
the flag that are kept are those of all declarations together, in whatever order they
came.

The reason is that merging two contracts that agree is to take the union of their
obligations (`merge?_cases`), one side being empty or both being the same. `Sums` is the
invariant along the declarations.

Declarations of other functions come in between. A function is known by its linkage, its
name alone or its name in one unit, and a declaration touches what is stored for its own
linkage only (`stored?_take`), so that the whole table is a family of such runs side by
side (`stored?_of_addDecls`).

## What depends on the order all the same

Which declarations are refused does: of two that disagree it is the later one. So does
the spelling that is kept, since the first contract with obligations keeps its texts.
`Disagree` and `Sums` are stated without an order for this reason, and the result speaks
of obligations as sets.

A declaration without obligations disagrees with none. It does not state an empty
contract that others could contradict.
-/

set_option autoImplicit false

namespace Custody

namespace Contract

/-!
## Two contracts

Merging looks at obligations and the flag, and gives back one of the two contracts.
-/

theorem hasObligations_iff {contract : Contract} :
    contract.hasObligations = true ↔ ∃ obligation, obligation ∈ contract.obligations := by
  simp [hasObligations, List.eq_nil_iff_forall_not_mem]

theorem sameObligations_iff {a b : Contract} :
    a.sameObligations b = true ↔ ∀ obligation, obligation ∈ a.obligations ↔
      obligation ∈ b.obligations := by
  simp only [sameObligations, Bool.and_eq_true, List.all_eq_true, List.contains_iff_mem]
  constructor
  · rintro ⟨hab, hba⟩ obligation
    exact ⟨hab obligation, hba obligation⟩
  · intro h
    exact ⟨fun o ho => (h o).1 ho, fun o ho => (h o).2 ho⟩

def flagged (contract : Contract) (flag : Bool) : Contract :=
  { contract with noAnalysis := flag }

@[simp] theorem obligations_flagged (contract : Contract) (flag : Bool) :
    (contract.flagged flag).obligations = contract.obligations := rfl

@[simp] theorem noAnalysis_flagged (contract : Contract) (flag : Bool) :
    (contract.flagged flag).noAnalysis = flag := rfl

/-- **All that merging can do.** Either both contracts state obligations, and not the
same, or one of the two is taken, and its obligations are those of both. -/
theorem merge?_cases (a b : Contract) :
    (a.merge? b = none ∧ a.hasObligations = true ∧ b.hasObligations = true ∧
      a.sameObligations b = false) ∨
    ∃ taken, (taken = a ∨ taken = b) ∧
      a.merge? b = some (taken.flagged (a.noAnalysis || b.noAnalysis)) ∧
      (∀ obligation, obligation ∈ taken.obligations ↔
        obligation ∈ a.obligations ∨ obligation ∈ b.obligations) ∧
      (a.hasObligations = true → b.hasObligations = true → a.sameObligations b = true) := by
  have hnone : ∀ {contract : Contract}, contract.hasObligations = false →
      contract.obligations = [] := by
    intro contract h
    simpa [hasObligations] using h
  unfold merge?
  cases hb : b.hasObligations with
  | false => exact .inr ⟨a, .inl rfl, by simp [flagged], by simp [hnone hb], by simp⟩
  | true =>
    cases ha : a.hasObligations with
    | false => exact .inr ⟨b, .inr rfl, by simp [flagged], by simp [hnone ha], by simp⟩
    | true =>
      cases hsame : a.sameObligations b with
      | false => exact .inl (by simp)
      | true =>
        refine .inr ⟨a, .inl rfl, by simp [flagged], fun obligation => ?_, by simp⟩
        rw [← sameObligations_iff.1 hsame obligation, or_self]

/-! ## The declarations of one function, in order -/

/-- What is kept after one more declaration. A declaration that does not agree changes
nothing. -/
def kept (stored : Option Contract) (contract : Contract) : Contract :=
  match stored with
  | none => contract
  | some existing => (existing.merge? contract).getD existing

def isRefused (stored : Option Contract) (contract : Contract) : Bool :=
  stored.any fun existing => (existing.merge? contract).isNone

def keptOf (stored : Option Contract) (contracts : List Contract) : Option Contract :=
  contracts.foldl (fun stored contract => some (kept stored contract)) stored

def anyRefused : Option Contract → List Contract → Bool
  | _, [] => false
  | stored, contract :: rest =>
    isRefused stored contract || anyRefused (some (kept stored contract)) rest

/-- Two declarations state obligations, and not the same. Declarations without
obligations agree with all, so that they are left out on both sides. -/
def Disagree (contracts : List Contract) : Prop :=
  ∃ a ∈ contracts, ∃ b ∈ contracts,
    a.hasObligations = true ∧ b.hasObligations = true ∧ a.sameObligations b = false

instance (contracts : List Contract) : Decidable (Disagree contracts) :=
  inferInstanceAs (Decidable (∃ a ∈ contracts, ∃ b ∈ contracts,
    a.hasObligations = true ∧ b.hasObligations = true ∧ a.sameObligations b = false))

/-- A contract puts together what declarations that agree say. That it agrees with each
of them is part of it, so that one which is compared with it is compared with them
all. -/
structure Sums (stored : Contract) (seen : List Contract) : Prop where
  obligations : ∀ obligation, obligation ∈ stored.obligations ↔
    ∃ contract ∈ seen, obligation ∈ contract.obligations
  agrees : ∀ contract ∈ seen, contract.hasObligations = true →
    stored.sameObligations contract = true
  flag : stored.noAnalysis = seen.any (·.noAnalysis)

theorem Disagree.perm {contracts contracts' : List Contract}
    (hperm : contracts.Perm contracts') (h : Disagree contracts) :
    Disagree contracts' := by
  obtain ⟨a, ha, b, hb, hdiffer⟩ := h
  exact ⟨a, hperm.mem_iff.1 ha, b, hperm.mem_iff.1 hb, hdiffer⟩

theorem sums_singleton (contract : Contract) : Sums contract [contract] where
  obligations obligation := by simp
  agrees other hother _ := by
    rw [List.mem_singleton.1 hother, sameObligations_iff]
    exact fun _ => Iff.rfl
  flag := by simp

theorem Sums.not_disagree {stored : Contract} {seen : List Contract}
    (h : Sums stored seen) : ¬ Disagree seen := by
  rintro ⟨a, ha, b, hb, hao, hbo, hdiffer⟩
  have hsame : a.sameObligations b = true := by
    refine sameObligations_iff.2 fun obligation => ?_
    rw [← sameObligations_iff.1 (h.agrees a ha hao),
      sameObligations_iff.1 (h.agrees b hb hbo)]
  simp [hsame] at hdiffer

/-- A declaration is refused only if it disagrees with an earlier one: some declaration
states what is stored. -/
theorem Sums.disagree {stored : Contract} {seen : List Contract} (h : Sums stored seen)
    {contract : Contract} (hrefused : isRefused (some stored) contract = true) :
    Disagree (seen ++ [contract]) := by
  rcases merge?_cases stored contract with ⟨-, hso, hco, hdiffer⟩ | ⟨taken, -, htaken, -⟩
  · obtain ⟨obligation, hobligation⟩ := hasObligations_iff.1 hso
    obtain ⟨earlier, hearlier, hstates⟩ := (h.obligations obligation).1 hobligation
    have hearliero : earlier.hasObligations = true :=
      hasObligations_iff.2 ⟨obligation, hstates⟩
    refine ⟨earlier, by simp [hearlier], contract, by simp, hearliero, hco, ?_⟩
    rw [Bool.eq_false_iff] at hdiffer ⊢
    intro hsame
    refine hdiffer (sameObligations_iff.2 fun o => ?_)
    rw [sameObligations_iff.1 (h.agrees earlier hearlier hearliero),
      sameObligations_iff.1 hsame]
  · simp [isRefused, htaken] at hrefused

theorem Sums.step {stored : Contract} {seen : List Contract} (h : Sums stored seen)
    {contract : Contract} (hagrees : isRefused (some stored) contract = false) :
    Sums (kept (some stored) contract) (seen ++ [contract]) := by
  rcases merge?_cases stored contract with ⟨hnone, -⟩ | ⟨taken, -, htaken, hunion, hsame⟩
  · simp [isRefused, hnone] at hagrees
  · have hobligations : ∀ o, o ∈ (kept (some stored) contract).obligations ↔
        o ∈ stored.obligations ∨ o ∈ contract.obligations := by
      intro o
      simp [kept, htaken, hunion]
    refine ⟨fun o => ?_, fun other hother hothero => sameObligations_iff.2 fun o => ?_, ?_⟩
    · rw [hobligations, h.obligations]
      simp [or_and_right, exists_or]
    · rw [hobligations]
      -- What `other` states, the rest of the union states too, or it states nothing.
      have hempty : ∀ {c : Contract}, ¬ c.hasObligations = true → ∀ o, o ∉ c.obligations :=
        fun hc o ho => hc (hasObligations_iff.2 ⟨o, ho⟩)
      rcases List.mem_append.1 hother with hseen | hlast
      · have hstored := sameObligations_iff.1 (h.agrees other hseen hothero)
        by_cases hco : contract.hasObligations = true
        · have hso : stored.hasObligations = true := by
            obtain ⟨o', ho'⟩ := hasObligations_iff.1 hothero
            exact hasObligations_iff.2 ⟨o', (hstored o').2 ho'⟩
          rw [← sameObligations_iff.1 (hsame hso hco), or_self, hstored]
        · simp [hempty hco, hstored]
      · rw [List.mem_singleton.1 hlast] at hothero ⊢
        by_cases hso : stored.hasObligations = true
        · rw [sameObligations_iff.1 (hsame hso hothero), or_self]
        · simp [hempty hso]
    · simp [kept, htaken, h.flag]

theorem Sums.anyRefused_iff {stored : Contract} {seen rest : List Contract}
    (h : Sums stored seen) :
    anyRefused (some stored) rest = true ↔ Disagree (seen ++ rest) := by
  induction rest generalizing stored seen with
  | nil => simpa [anyRefused] using h.not_disagree
  | cons contract rest ih =>
    rw [anyRefused, Bool.or_eq_true]
    cases hrefused : isRefused (some stored) contract with
    | true =>
      obtain ⟨a, ha, b, hb, hdiffer⟩ := h.disagree hrefused
      have hsub : seen ++ [contract] ⊆ seen ++ contract :: rest := by
        intro c hc
        rcases List.mem_append.1 hc with hc | hc <;> simp_all
      exact iff_of_true (.inl rfl) ⟨a, hsub ha, b, hsub hb, hdiffer⟩
    | false =>
      rw [ih (h.step hrefused), List.append_assoc]
      simp

theorem Sums.run {stored : Contract} {seen rest : List Contract} (h : Sums stored seen)
    (hagrees : anyRefused (some stored) rest = false) :
    ∃ last, keptOf (some stored) rest = some last ∧ Sums last (seen ++ rest) := by
  induction rest generalizing stored seen with
  | nil => exact ⟨stored, rfl, by simpa using h⟩
  | cons contract rest ih =>
    rw [anyRefused, Bool.or_eq_false_iff] at hagrees
    obtain ⟨last, hlast, hsums⟩ := ih (h.step hagrees.1) hagrees.2
    exact ⟨last, hlast, by simpa using hsums⟩

theorem anyRefused_none_iff {contracts : List Contract} :
    anyRefused none contracts = true ↔ Disagree contracts := by
  cases contracts with
  | nil => simp [anyRefused, Disagree]
  | cons contract rest => exact (sums_singleton contract).anyRefused_iff

theorem sums_of_not_disagree {contracts : List Contract} (hne : contracts ≠ [])
    (h : ¬ Disagree contracts) :
    ∃ last, keptOf none contracts = some last ∧ Sums last contracts := by
  cases contracts with
  | nil => exact absurd rfl hne
  | cons contract rest =>
    have hagrees : anyRefused (some contract) rest = false := by
      rw [Bool.eq_false_iff]
      exact fun hrefused => h ((sums_singleton contract).anyRefused_iff.1 hrefused)
    exact (sums_singleton contract).run hagrees

/-- What is kept is one of the declarations, but for the flag, whatever was refused on
the way. -/
theorem exists_of_keptOf {stored : Option Contract} {contracts : List Contract}
    {last : Contract} (h : keptOf stored contracts = some last) :
    ∃ source, (stored = some source ∨ source ∈ contracts) ∧
      last = source.flagged last.noAnalysis := by
  induction contracts generalizing stored with
  | nil => exact ⟨last, .inl h, rfl⟩
  | cons contract rest ih =>
    obtain ⟨source, hsource | hsource, hlast⟩ := ih h
    · -- `source` is what was kept of the first declaration and what was there before.
      cases stored with
      | none =>
        cases hsource
        exact ⟨contract, .inr List.mem_cons_self, hlast⟩
      | some existing =>
        rcases merge?_cases existing contract with ⟨hnone, -⟩ | ⟨taken, htaken, hsome, -⟩
        · simp only [kept, hnone, Option.getD_none, Option.some.injEq] at hsource
          exact ⟨existing, .inl rfl, by rw [hsource]; exact hlast⟩
        · simp only [kept, hsome, Option.getD_some, Option.some.injEq] at hsource
          rw [← hsource] at hlast
          rcases htaken with rfl | rfl
          · exact ⟨taken, .inl rfl, hlast⟩
          · exact ⟨taken, .inr List.mem_cons_self, hlast⟩
    · exact ⟨source, .inr (List.mem_cons_of_mem _ hsource), hlast⟩

end Contract

/-!
## Linkage

Static functions of different units are different functions, and a unit that has one of
its own does not see a shared one of that name.
-/

/-- How a function is known: by its name in the whole program, or by its name in one
unit. -/
inductive Linkage where
  | shared (name : String)
  | ofUnit (unit name : String)
deriving DecidableEq

def FunctionDecl.linkage (unit : String) (decl : FunctionDecl) : Linkage :=
  if decl.isStatic then .ofUnit unit decl.name else .shared decl.name

namespace Contracts

open Contract (kept isRefused keptOf anyRefused Disagree)

def stored? (contracts : Contracts) : Linkage → Option Contract
  | .shared name => contracts.shared.get? name
  | .ofUnit unit name => (contracts.ofUnit unit).get? name

@[simp] theorem stored?_empty (linkage : Linkage) : empty.stored? linkage = none := by
  cases linkage <;> rfl

theorem find_eq (contracts : Contracts) (unit name : String) :
    contracts.find unit name
      = ((contracts.stored? (.ofUnit unit name)).or
        (contracts.stored? (.shared name))).getD {} := rfl

/-- The contracts with one more declaration, or as they were if it is refused. It is
what `addDecl` leaves, without the errors. -/
def take (contracts : Contracts) (unit : String) (decl : FunctionDecl)
    (contract : Contract) : Contracts :=
  (contracts.insert? unit decl contract).getD contracts

theorem insertIn?_eq (known : FinMap String Contract) (name : String)
    (contract : Contract) :
    insertIn? known name contract
      = if isRefused (known.get? name) contract then none
        else some (known.insert name (kept (known.get? name) contract)) := by
  unfold insertIn?
  cases known.get? name with
  | none => rfl
  | some existing =>
    cases hmerge : existing.merge? contract <;> simp [isRefused, kept, hmerge]

theorem insert?_eq_none_iff {contracts : Contracts} {unit : String}
    {decl : FunctionDecl} {contract : Contract} :
    contracts.insert? unit decl contract = none ↔
      isRefused (contracts.stored? (decl.linkage unit)) contract = true := by
  unfold insert? FunctionDecl.linkage
  split <;> simp [insertIn?_eq, stored?]

theorem ofUnit_insert (contracts : Contracts) (unit other : String)
    (own : FinMap String Contract) :
    ofUnit { contracts with statics := contracts.statics.insert unit own } other
      = if other = unit then own else contracts.ofUnit other := by
  unfold ofUnit
  rw [FinMap.get?_insert]
  split <;> rfl

theorem kept_of_isRefused {stored : Option Contract} {contract : Contract}
    (h : isRefused stored contract = true) :
    some (kept stored contract) = stored := by
  cases stored with
  | none => simp [isRefused] at h
  | some existing =>
    simp only [isRefused, Option.any_some, Option.isNone_iff_eq_none] at h
    simp [kept, h]

/-- **One declaration touches its own linkage only.** A declaration that is refused
touches nothing, and `kept` is what was stored then. -/
theorem stored?_take (contracts : Contracts) (unit : String) (decl : FunctionDecl)
    (contract : Contract) (linkage : Linkage) :
    (contracts.take unit decl contract).stored? linkage
      = if linkage = decl.linkage unit then some (kept (contracts.stored? linkage) contract)
        else contracts.stored? linkage := by
  by_cases hrefused : isRefused (contracts.stored? (decl.linkage unit)) contract = true
  · rw [take, insert?_eq_none_iff.2 hrefused, Option.getD_none]
    split
    · rename_i heq
      rw [heq, kept_of_isRefused hrefused]
    · rfl
  · unfold take insert?
    unfold FunctionDecl.linkage at hrefused ⊢
    by_cases hstatic : decl.isStatic = true
    · simp only [hstatic, if_true] at hrefused ⊢
      simp only [stored?] at hrefused
      simp only [insertIn?_eq, hrefused, Bool.false_eq_true, if_false, Option.map_some,
        Option.getD_some]
      cases linkage with
      | shared name => simp [stored?]
      | ofUnit other name =>
        simp only [stored?, ofUnit_insert, Linkage.ofUnit.injEq]
        by_cases hother : other = unit
        · subst hother
          by_cases hname : name = decl.name <;> simp [hname]
        · simp [hother]
    · rw [Bool.not_eq_true] at hstatic
      simp only [hstatic, Bool.false_eq_true, if_false] at hrefused ⊢
      simp only [stored?] at hrefused
      simp only [insertIn?_eq, hrefused, Bool.false_eq_true, if_false, Option.map_some,
        Option.getD_some]
      cases linkage with
      | shared name =>
        simp only [stored?, FinMap.get?_insert, Linkage.shared.injEq]
        split <;> simp_all
      | ofUnit other name => simp [stored?, ofUnit]

/-! ## The declarations of a program -/

/-- The contracts that the declarations of one linkage have, in order. What is stored
for a linkage depends on this list and on nothing else. -/
def builtIn (decls : Declarations) (linkage : Linkage)
    (fs : List (String × FunctionDecl)) : List Contract :=
  fs.filterMap fun (unit, decl) =>
    if decl.linkage unit = linkage
      then (Contract.ofDecl decls unit decl).toOption.map (·.1) else none

theorem builtIn_cons_self {decls : Declarations} {unit : String} {decl : FunctionDecl}
    {contract : Contract} {problems : List Problem}
    (h : Contract.ofDecl decls unit decl = .ok (contract, problems))
    (rest : List (String × FunctionDecl)) :
    builtIn decls (decl.linkage unit) ((unit, decl) :: rest)
      = contract :: builtIn decls (decl.linkage unit) rest := by
  simp [builtIn, h, Except.toOption]

theorem builtIn_cons_of_ne {decls : Declarations} {linkage : Linkage} {unit : String}
    {decl : FunctionDecl} (h : decl.linkage unit ≠ linkage)
    (rest : List (String × FunctionDecl)) :
    builtIn decls linkage ((unit, decl) :: rest) = builtIn decls linkage rest := by
  simp [builtIn, h]

/-- The declarations that are refused, in order. The list is computed along the way, as
which ones are refused depends on what is stored when they come. -/
def refused (decls : Declarations) :
    Contracts → List (String × FunctionDecl) → List (String × FunctionDecl)
  | _, [] => []
  | contracts, (unit, decl) :: rest =>
    match Contract.ofDecl decls unit decl with
    | .error _ => []
    | .ok (contract, _) =>
      match contracts.insert? unit decl contract with
      | some after => refused decls after rest
      | none => (unit, decl) :: refused decls contracts rest

theorem refused_cons {decls : Declarations} {unit : String} {decl : FunctionDecl}
    {contract : Contract} {problems : List Problem}
    (h : Contract.ofDecl decls unit decl = .ok (contract, problems))
    (contracts : Contracts) (rest : List (String × FunctionDecl)) :
    refused decls contracts ((unit, decl) :: rest)
      = (if isRefused (contracts.stored? (decl.linkage unit)) contract
        then [(unit, decl)] else [])
        ++ refused decls (contracts.take unit decl contract) rest := by
  rw [refused, h, take]
  cases hinsert : contracts.insert? unit decl contract with
  | none => simp [insert?_eq_none_iff.1 hinsert, hinsert]
  | some after =>
    have hagrees : ¬ isRefused (contracts.stored? (decl.linkage unit)) contract = true :=
      fun hrefused => by simp [insert?_eq_none_iff.2 hrefused] at hinsert
    simp [hagrees, hinsert]

def refusal (f : String × FunctionDecl) : DeclarationError :=
  ⟨f.1, f.2.name, .mismatch f.2.name⟩

theorem addDecl_eq (decls : Declarations) (unit : String) (contracts : Contracts)
    (decl : FunctionDecl) :
    addDecl decls unit contracts decl =
      (Contract.ofDecl decls unit decl).map fun (contract, problems) =>
        (contracts.take unit decl contract,
          problems.map (⟨unit, decl.name, ·⟩)
            ++ if isRefused (contracts.stored? (decl.linkage unit)) contract
              then [refusal (unit, decl)] else []) := by
  unfold addDecl
  cases Contract.ofDecl decls unit decl with
  | error error => rfl
  | ok built =>
    obtain ⟨contract, problems⟩ := built
    cases hinsert : contracts.insert? unit decl contract with
    | none =>
      have hrefused := insert?_eq_none_iff.1 hinsert
      simp [bind, Except.bind, pure, Except.pure, Except.map, hinsert, take, hrefused,
        refusal]
    | some after =>
      have hrefused : ¬ isRefused (contracts.stored? (decl.linkage unit)) contract = true :=
        fun h => by simp [insert?_eq_none_iff.2 h] at hinsert
      simp [bind, Except.bind, pure, Except.pure, Except.map, hinsert, take, hrefused]

theorem addDecls_cons_eq_ok_iff {decls : Declarations} {contracts : Contracts}
    {unit : String} {decl : FunctionDecl} {rest : List (String × FunctionDecl)}
    {result : Contracts × List DeclarationError} :
    addDecls decls contracts ((unit, decl) :: rest) = .ok result ↔
      ∃ contract problems more, Contract.ofDecl decls unit decl = .ok (contract, problems) ∧
        addDecls decls (contracts.take unit decl contract) rest = .ok (result.1, more) ∧
        result.2 = problems.map (⟨unit, decl.name, ·⟩)
          ++ (if isRefused (contracts.stored? (decl.linkage unit)) contract
            then [refusal (unit, decl)] else [])
          ++ more := by
  obtain ⟨after, errors⟩ := result
  rw [addDecls, addDecl_eq]
  simp only [bind_eq_ok_iff, map_eq_ok_iff, pure_eq_ok_iff, Prod.exists]
  constructor
  · rintro ⟨_, _, ⟨contract, problems, hbuilt, heq⟩, last, more, hrest, hresult⟩
    cases heq
    cases hresult
    exact ⟨contract, problems, more, hbuilt, hrest, rfl⟩
  · rintro ⟨contract, problems, more, hbuilt, hrest, rfl⟩
    exact ⟨_, _, ⟨contract, problems, hbuilt, rfl⟩, after, more, hrest, rfl⟩

theorem stored?_of_addDecls {decls : Declarations} {fs : List (String × FunctionDecl)}
    {contracts : Contracts} {result : Contracts × List DeclarationError}
    (h : addDecls decls contracts fs = .ok result) (linkage : Linkage) :
    result.1.stored? linkage = keptOf (contracts.stored? linkage)
      (builtIn decls linkage fs) := by
  induction fs generalizing contracts result with
  | nil =>
    cases h
    rfl
  | cons f rest ih =>
    obtain ⟨unit, decl⟩ := f
    obtain ⟨contract, problems, more, hbuilt, hrest, -⟩ := addDecls_cons_eq_ok_iff.1 h
    rw [ih hrest, stored?_take]
    by_cases hlinkage : decl.linkage unit = linkage
    · subst hlinkage
      rw [builtIn_cons_self hbuilt, if_pos rfl]
      rfl
    · rw [builtIn_cons_of_ne hlinkage, if_neg (Ne.symm hlinkage)]

theorem anyRefused_iff_mem_refused {decls : Declarations}
    {fs : List (String × FunctionDecl)} {contracts : Contracts}
    {result : Contracts × List DeclarationError}
    (h : addDecls decls contracts fs = .ok result) (linkage : Linkage) :
    anyRefused (contracts.stored? linkage) (builtIn decls linkage fs) = true ↔
      ∃ f ∈ refused decls contracts fs, f.2.linkage f.1 = linkage := by
  induction fs generalizing contracts result with
  | nil => simp [builtIn, anyRefused, refused]
  | cons f rest ih =>
    obtain ⟨unit, decl⟩ := f
    obtain ⟨contract, problems, more, hbuilt, hrest, -⟩ := addDecls_cons_eq_ok_iff.1 h
    have hih := ih hrest
    rw [stored?_take] at hih
    simp only [refused_cons hbuilt, List.mem_append, or_and_right, exists_or]
    rw [← hih]
    by_cases hlinkage : decl.linkage unit = linkage
    · subst hlinkage
      rw [builtIn_cons_self hbuilt, if_pos rfl, anyRefused, Bool.or_eq_true]
      cases isRefused (contracts.stored? (decl.linkage unit)) contract <;> simp
    · rw [builtIn_cons_of_ne hlinkage, if_neg (Ne.symm hlinkage)]
      cases isRefused (contracts.stored? (decl.linkage unit)) contract <;> simp [hlinkage]

/-- The reports of disagreement are those of the refused declarations, in their
order. -/
theorem filter_errors_of_addDecls {decls : Declarations}
    {fs : List (String × FunctionDecl)} {contracts : Contracts}
    {result : Contracts × List DeclarationError}
    (h : addDecls decls contracts fs = .ok result) :
    result.2.filter (·.problem.kind = .contractMismatch) =
      (refused decls contracts fs).map refusal := by
  induction fs generalizing contracts result with
  | nil =>
    cases h
    rfl
  | cons f rest ih =>
    obtain ⟨unit, decl⟩ := f
    obtain ⟨contract, problems, more, hbuilt, hrest, herrors⟩ := addDecls_cons_eq_ok_iff.1 h
    have hproblems :
        (problems.map
          fun problem => (⟨unit, decl.name, problem⟩ : DeclarationError)).filter
            (·.problem.kind = .contractMismatch) = [] := by
      simp only [List.filter_eq_nil_iff, List.mem_map]
      rintro _ ⟨problem, hproblem, rfl⟩
      simpa using (Contract.readFrom_ofDecl hbuilt).problems problem hproblem
    simp only [refused_cons hbuilt, herrors, List.filter_append, List.map_append,
      ← ih hrest, hproblems, List.nil_append]
    cases isRefused (contracts.stored? (decl.linkage unit)) contract <;>
      simp [refusal, Problem.kind]

theorem exists_addDecls_iff {decls : Declarations} {fs : List (String × FunctionDecl)}
    {contracts : Contracts} :
    (∃ result, addDecls decls contracts fs = .ok result) ↔
      ∀ f ∈ fs, ∃ built, Contract.ofDecl decls f.1 f.2 = .ok built := by
  induction fs generalizing contracts with
  | nil => simp [addDecls]
  | cons f rest ih =>
    obtain ⟨unit, decl⟩ := f
    simp only [addDecls_cons_eq_ok_iff, List.forall_mem_cons]
    constructor
    · rintro ⟨result, contract, problems, more, hbuilt, hrest, -⟩
      exact ⟨⟨_, hbuilt⟩, ih.1 ⟨_, hrest⟩⟩
    · rintro ⟨⟨⟨contract, problems⟩, hbuilt⟩, hrest⟩
      obtain ⟨⟨after, more⟩, hafter⟩ := ih.2 hrest
      exact ⟨(after, _), contract, problems, more, hbuilt, hafter, rfl⟩

/-- A declaration of the function is reported as not agreeing with others. -/
def Reported (decls : Declarations) (fs : List (String × FunctionDecl))
    (linkage : Linkage) : Prop :=
  ∃ f ∈ refused decls .empty fs, f.2.linkage f.1 = linkage

def Stores (stored : Option Contract) (seen : List Contract) : Prop :=
  match stored with
  | none => seen = []
  | some stored => seen ≠ [] ∧ stored.Sums seen

theorem reported_iff {decls : Declarations} {fs : List (String × FunctionDecl)}
    {result : Contracts × List DeclarationError}
    (h : addDecls decls .empty fs = .ok result) (linkage : Linkage) :
    Reported decls fs linkage ↔ Disagree (builtIn decls linkage fs) := by
  rw [← Contract.anyRefused_none_iff, ← stored?_empty linkage]
  exact (anyRefused_iff_mem_refused h linkage).symm

theorem stores_of_addDecls {decls : Declarations} {fs : List (String × FunctionDecl)}
    {result : Contracts × List DeclarationError}
    (h : addDecls decls .empty fs = .ok result) {linkage : Linkage}
    (hagree : ¬ Disagree (builtIn decls linkage fs)) :
    Stores (result.1.stored? linkage) (builtIn decls linkage fs) := by
  rw [stored?_of_addDecls h, stored?_empty]
  by_cases hnil : builtIn decls linkage fs = []
  · rw [hnil]
    rfl
  · obtain ⟨last, hlast, hsums⟩ := Contract.sums_of_not_disagree hnil hagree
    rw [hlast]
    exact ⟨hnil, hsums⟩

theorem isSome_stored?_iff {decls : Declarations} {fs : List (String × FunctionDecl)}
    {result : Contracts × List DeclarationError}
    (h : addDecls decls .empty fs = .ok result) (linkage : Linkage) :
    (result.1.stored? linkage).isSome = true ↔ ∃ f ∈ fs, f.2.linkage f.1 = linkage := by
  rw [stored?_of_addDecls h, stored?_empty]
  have hkept : ∀ (contracts : List Contract) (stored : Option Contract),
      (keptOf stored contracts).isSome = true ↔ stored.isSome = true ∨ contracts ≠ [] := by
    intro contracts
    induction contracts with
    | nil => intro stored; simp [keptOf]
    | cons contract rest ih =>
      intro stored
      have := ih (some (kept stored contract))
      simpa [keptOf] using this
  rw [hkept]
  have hbuilt := exists_addDecls_iff.1 ⟨result, h⟩
  simp only [builtIn, Option.isSome_none, Bool.false_eq_true, false_or, ne_eq,
    List.filterMap_eq_nil_iff, not_forall]
  constructor
  · rintro ⟨f, hf, hne⟩
    refine ⟨f, hf, ?_⟩
    by_contra hlinkage
    simp [hlinkage] at hne
  · rintro ⟨f, hf, hlinkage⟩
    obtain ⟨built, hbuilt⟩ := hbuilt f hf
    exact ⟨f, hf, by simp [hlinkage, hbuilt, Except.toOption]⟩

theorem builtIn_perm (decls : Declarations) {fs fs' : List (String × FunctionDecl)}
    (h : fs.Perm fs') (linkage : Linkage) :
    (builtIn decls linkage fs).Perm (builtIn decls linkage fs') :=
  h.filterMap _

theorem Stores.perm {stored stored' : Option Contract} {seen seen' : List Contract}
    (hperm : seen.Perm seen') (h : Stores stored seen) (h' : Stores stored' seen') :
    Option.Rel (fun a b => a.sameObligations b = true ∧ a.noAnalysis = b.noAnalysis)
      stored stored' := by
  cases stored with
  | none =>
    cases stored' with
    | none => exact .none
    | some stored' =>
      have hnil : seen = [] := h
      exact absurd (hnil ▸ hperm).nil_eq.symm h'.1
  | some stored =>
    cases stored' with
    | none =>
      have hnil : seen' = [] := h'
      exact absurd (hnil ▸ hperm).eq_nil h.1
    | some stored' =>
      refine .some ⟨Contract.sameObligations_iff.2 fun obligation => ?_, ?_⟩
      · rw [h.2.obligations, h'.2.obligations]
        simp [hperm.mem_iff]
      · rw [h.2.flag, h'.2.flag, hperm.any_eq]

/-- **The declarations of a function agree or not, whatever their order.** The
disagreements that are reported are those of the declarations refused. A declaration of
a function is refused iff two of its declarations state obligations, and not the same;
if none is, what is stored has the obligations of every declaration that states any, and
the flag iff one of them has it. All this is so for every order of the declarations, and
a unit sees its own static function iff it declares one. -/
theorem declarations_agree {decls : Declarations} {fs : List (String × FunctionDecl)}
    {contracts : Contracts} {errors : List DeclarationError}
    (h : addDecls decls .empty fs = .ok (contracts, errors)) :
    errors.filter (·.problem.kind = .contractMismatch) =
      (refused decls .empty fs).map refusal ∧
    (∀ linkage, (Reported decls fs linkage ↔ Disagree (builtIn decls linkage fs)) ∧
      (¬ Reported decls fs linkage →
        Stores (contracts.stored? linkage) (builtIn decls linkage fs))) ∧
    (∀ fs', fs.Perm fs' →
      ∃ contracts' errors', addDecls decls .empty fs' = .ok (contracts', errors') ∧
      ∀ linkage, (Reported decls fs' linkage ↔ Reported decls fs linkage) ∧
        (¬ Reported decls fs linkage →
          Option.Rel (fun a b => a.sameObligations b = true ∧ a.noAnalysis = b.noAnalysis)
            (contracts.stored? linkage) (contracts'.stored? linkage))) ∧
    ∀ unit name, contracts.find unit name
      = ((if ∃ f ∈ fs, f.2.linkage f.1 = .ofUnit unit name
        then contracts.stored? (.ofUnit unit name)
          else contracts.stored? (.shared name)).getD {}) := by
  refine ⟨filter_errors_of_addDecls h, ?_, ?_, ?_⟩
  · intro linkage
    have hreported := reported_iff h linkage
    exact ⟨hreported, fun hnone => stores_of_addDecls h (mt hreported.2 hnone)⟩
  · -- Both orders have the same contracts for a linkage, up to their order, and the two
    -- results before are about this list.
    intro fs' hperm
    have hbuilt : ∀ f ∈ fs', ∃ built, Contract.ofDecl decls f.1 f.2 = .ok built :=
      fun f hf => exists_addDecls_iff.1 ⟨_, h⟩ f (hperm.mem_iff.2 hf)
    have hsucceeds : ∃ result, addDecls decls .empty fs' = .ok result :=
      exists_addDecls_iff.2 hbuilt
    obtain ⟨⟨contracts', errors'⟩, h'⟩ := hsucceeds
    refine ⟨contracts', errors', h', fun linkage => ?_⟩
    have hbuiltIn := builtIn_perm decls hperm linkage
    have hsame : Reported decls fs' linkage ↔ Reported decls fs linkage := by
      rw [reported_iff h, reported_iff h']
      exact ⟨Contract.Disagree.perm hbuiltIn.symm, Contract.Disagree.perm hbuiltIn⟩
    refine ⟨hsame, fun hnone => ?_⟩
    exact (stores_of_addDecls h (mt (reported_iff h linkage).2 hnone)).perm hbuiltIn
      (stores_of_addDecls h' (mt (reported_iff h' linkage).2 (mt hsame.1 hnone)))
  · -- A static function of the unit hides others of its name exactly if one is
    -- declared.
    intro unit name
    rw [find_eq]
    have hown := isSome_stored?_iff h (.ofUnit unit name)
    split
    · rename_i hdeclared
      obtain ⟨own, hstored⟩ := Option.isSome_iff_exists.1 (hown.2 hdeclared)
      simp [hstored]
    · rename_i hdeclared
      have hnone : contracts.stored? (.ofUnit unit name) = none := by
        rw [← Option.not_isSome_iff_eq_none]
        exact mt hown.1 hdeclared
      simp [hnone]

def lockDecls : Declarations :=
  { Declarations.empty with registry := ⟨[("lock", .struct)]⟩ }

def lockFunction (name param : String) (isStatic : Bool) (attributes : List String) :
    FunctionDecl :=
  ⟨name, false, isStatic, [⟨param, "lock *"⟩], attributes, [], none⟩

/-- `take` is declared three times, once without attributes, and `b.c` has a static
function of that name; the two declarations of `drop` do not agree. -/
def twoUnits : List (String × FunctionDecl) :=
  [("a.c", lockFunction "take" "l" false []),
    ("a.c", lockFunction "take" "l" false ["__acquires(l)"]),
    ("a.c", lockFunction "drop" "l" false ["__releases(l)"]),
    ("b.c", lockFunction "take" "m" true ["__must_hold(m)"]),
    ("b.c", lockFunction "take" "m" false ["__acquires(m)", "__no_capability_analysis"]),
    ("b.c", lockFunction "drop" "l" false ["__must_hold(l)"])]

theorem declarations_agree_twoUnits :
    ∃ contracts errors, addDecls lockDecls .empty twoUnits = .ok (contracts, errors) ∧
      Reported lockDecls twoUnits (.shared "drop") ∧
      ¬ Reported lockDecls twoUnits (.shared "take") ∧
      Stores (contracts.stored? (.shared "take"))
        (builtIn lockDecls (.shared "take") twoUnits) ∧
      contracts.find "b.c" "take" = (contracts.stored? (.ofUnit "b.c" "take")).getD {} ∧
      contracts.find "a.c" "take" = (contracts.stored? (.shared "take")).getD {} := by
  have hbuilt :
      ∀ f ∈ twoUnits, (Contract.ofDecl lockDecls f.1 f.2).toOption.isSome = true := by
    decide +kernel
  have hsucceeds : ∃ result, addDecls lockDecls .empty twoUnits = .ok result := by
    refine exists_addDecls_iff.2 fun f hf => ?_
    have hsome := hbuilt f hf
    cases hdecl : Contract.ofDecl lockDecls f.1 f.2 with
    | ok built => exact ⟨built, rfl⟩
    | error error => simp [hdecl, Except.toOption] at hsome
  obtain ⟨⟨contracts, errors⟩, h⟩ := hsucceeds
  obtain ⟨-, hlinkage, -, hfind⟩ := declarations_agree h
  have htake : ¬ Reported lockDecls twoUnits (.shared "take") :=
    mt (hlinkage (.shared "take")).1.1 (by decide +kernel)
  refine ⟨contracts, errors, h, (hlinkage (.shared "drop")).1.2 (by decide +kernel), htake,
    (hlinkage (.shared "take")).2 htake, ?_, ?_⟩
  · rw [hfind, if_pos (by decide)]
  · rw [hfind, if_neg (by decide)]

end Contracts

end Custody
