import Custody.Proofs.Path.Statements

/-!
# What is not met is reported

An environment that describes the store cannot take for met what is not. So each check
of the analysis reports what an execution owes and does not meet: at a call, at an
access to a guarded member (`reported_runChecked`), and where the function returns
(`reported_checkReturn`). Demands that count as met in doubt are the exception; for them
the state has to be known.

A check that passes has found a state that is not unknown. As the environment describes
the store, the store has this state too, and then the demand is met. The lemmas are this
argument read backwards, once for each kind of clause.

`Reported` asks for the capability and the clause that were owed, and not for any report
at all. Otherwise one finding could stand for all that goes wrong at a statement. It
does not ask for the wording, which depends on the state that the analysis has.
-/

set_option autoImplicit false

namespace Custody

namespace Context

variable {ctx : Context} {env : Env} {store : Store}

/-! ## What is known to be met is met -/

theorem held_of_mode? (h : env.Describes store) {ref : Ref} {mode : Mode}
    (hmode : (env.state ref).mode? = some mode) : store.held ref = some mode := by
  rcases h.state ref with hunknown | hsame
  · rw [hunknown] at hmode
    cases hmode
  · rw [hsame, Store.state] at hmode
    cases hheld : store.held ref with
    | none =>
      rw [hheld] at hmode
      cases hmode
    | some actual =>
      rw [hheld] at hmode
      cases actual <;> exact hmode

theorem free_of_notHeld (h : env.Describes store) {ref : Ref}
    (hstate : env.state ref = .notHeld) :
    store.held ref = none := by
  rcases h.state ref with hunknown | hsame
  · rw [hunknown] at hstate
    cases hstate
  · rw [hsame, Store.state] at hstate
    cases hheld : store.held ref with
    | none => rfl
    | some actual =>
      rw [hheld] at hstate
      cases actual <;> cases hstate

theorem isSome_mode?_of_held (h : env.Describes store) {ref : Ref}
    (hheld : store.held ref ≠ none) (hknown : env.state ref ≠ .unknown) :
    (env.state ref).mode?.isSome = true := by
  rcases h.state ref with hunknown | hsame
  · exact absurd hunknown hknown
  · rw [hsame, Store.state]
    cases hactual : store.held ref with
    | none => exact absurd hactual hheld
    | some actual => cases actual <;> rfl

theorem met_of_satisfies (h : env.Describes store) {ref : Ref} {mode : Mode}
    (hstate : (env.state ref).satisfies mode = true) :
    (Demand.held ref mode).Met store := by
  unfold HeldState.satisfies at hstate
  cases hmode : (env.state ref).mode? with
  | none =>
    rw [hmode] at hstate
    cases hstate
  | some actual =>
    rw [hmode] at hstate
    exact ⟨actual, held_of_mode? h hmode, hstate⟩

/-- Findings about a demand: some violation that names its capability and its clause. In
which words it does is up to the state that was found. -/
def Reported (violations : List Violation) (demand : Demand) (clause : String) : Prop :=
  ∃ violation ∈ violations, violation.clause = clause ∧
    violation.cause.ref? = some demand.ref

theorem Reported.mono {violations others : List Violation} {demand : Demand}
    {clause : String} (hsub : violations ⊆ others)
    (h : Reported violations demand clause) :
    Reported others demand clause := by
  obtain ⟨violation, hmem, hrest⟩ := h
  exact ⟨violation, hsub hmem, hrest⟩

theorem Reported.of_check {α : Type} {list : List α} {check : α → Option Violation} {x : α}
    {violation : Violation} {demand : Demand} {clause : String} (hx : x ∈ list)
    (hcheck : check x = some violation) (hclause : violation.clause = clause)
    (href : violation.cause.ref? = some demand.ref) :
    Reported (list.filterMap check) demand clause :=
  ⟨violation, List.mem_filterMap.2 ⟨x, hx, hcheck⟩, hclause, href⟩

/-! ## Obligations at calls -/

section Violations

variable {contract : BoundContract} {clause : BoundClause}

theorem reported_required (h : env.Describes store) (hclause : clause ∈ contract.requires)
    (hunmet : ¬ (Demand.held clause.inst.ref clause.mode).Met store) :
    Reported (env.violations contract) (.held clause.inst.ref clause.mode) clause.text := by
  have hcheck : env.checkRequired contract.callee clause = some _ :=
    if_neg fun hstate => hunmet (met_of_satisfies h hstate)
  refine (Reported.of_check hclause hcheck rfl rfl).mono ?_
  intro violation hmem
  simp only [Env.violations, List.append_assoc]
  exact List.mem_append_left _ hmem

theorem reported_excluded (h : env.Describes store) (hclause : clause ∈ contract.excludes)
    (hunmet : ¬ (Demand.free clause.inst.ref).Met store) :
    Reported (env.violations contract) (.free clause.inst.ref) clause.text := by
  have hcheck : env.checkExcluded contract.callee clause = some _ :=
    if_neg fun hstate => hunmet (free_of_notHeld h hstate)
  refine (Reported.of_check hclause hcheck rfl rfl).mono ?_
  intro violation hmem
  simp only [Env.violations, List.append_assoc]
  exact List.mem_append_right _ (List.mem_append_left _ hmem)

theorem reported_released (h : env.Describes store) (hclause : clause ∈ contract.releases)
    (hunmet : ¬ (Demand.heldAs clause.inst.ref clause.mode).Met store) :
    Reported (env.violations contract) (.heldAs clause.inst.ref clause.mode)
      clause.text := by
  have hcheck : ∃ violation, env.checkReleased contract.callee clause = some violation ∧
      violation.clause = clause.text ∧ violation.cause.ref? = some clause.inst.ref := by
    cases hmode : (env.state clause.inst.ref).mode? with
    | none =>
      simp only [Env.checkReleased, hmode]
      exact ⟨_, rfl, rfl, rfl⟩
    | some actual =>
      have hne : actual ≠ clause.mode := by
        rintro rfl
        exact hunmet (held_of_mode? h hmode)
      simp only [Env.checkReleased, hmode, if_neg hne]
      exact ⟨_, rfl, rfl, rfl⟩
  obtain ⟨violation, hcheck, htext, href⟩ := hcheck
  have hreported :
      Reported (contract.releases.filterMap (env.checkReleased contract.callee))
        (.heldAs clause.inst.ref clause.mode) clause.text :=
    .of_check hclause hcheck htext href
  refine hreported.mono ?_
  intro violation hmem
  simp only [Env.violations, List.append_assoc]
  exact List.mem_append_right _ (List.mem_append_right _ (List.mem_append_left _ hmem))

theorem reported_acquired (h : env.Describes store) (hclause : clause ∈ contract.acquires)
    (hunmet : ¬ (Demand.fresh clause.inst.ref).Met store)
    (hknown : env.state clause.inst.ref ≠ .unknown) :
    Reported (env.violations contract) (.fresh clause.inst.ref) clause.text := by
  have hcheck : env.checkAcquired contract.callee clause = some _ :=
    if_pos (isSome_mode?_of_held h hunmet hknown)
  exact (Reported.of_check hclause hcheck rfl rfl).mono (List.subset_append_right _ _)

end Violations

/-!
## Guards

An access needs the guards of every member on its way, and is checked along the same
way, so these go by induction on the path.
-/

theorem reported_checkMember (h : env.Describes store) {access : Access}
    {accessed member ref : Ref} {pointee : Bool} {mode : Mode} {text : String}
    (hguard : ctx.guardOf access member pointee = some (ref, mode, text))
    (hunmet : ¬ (Demand.held ref mode).Met store) :
    Reported (ctx.checkMember env access accessed member pointee)
      (.held ref mode) text := by
  unfold guardOf at hguard
  obtain ⟨⟨declared, holder⟩, hmember, hguard⟩ := Option.bind_eq_some_iff.1 hguard
  obtain ⟨guard, hfound, hguard⟩ := Option.bind_eq_some_iff.1 hguard
  obtain ⟨target, htarget, hguard⟩ := Option.bind_eq_some_iff.1 hguard
  cases hguard
  have href : guardRef guard holder = .ok ref := by
    cases hresult : guardRef guard holder with
    | error error =>
      rw [hresult] at htarget
      cases htarget
    | ok found =>
      rw [hresult] at htarget
      cases htarget
      rfl
  have hstate : ¬ (env.state ref).satisfies access.guardMode = true :=
    fun hstate => hunmet (met_of_satisfies h hstate)
  simp only [checkMember, hmember, hfound, checkGuard, href, if_neg hstate]
  exact ⟨_, List.mem_singleton.2 rfl, rfl, rfl⟩

theorem reported_checkPlace (h : env.Describes store) {ref : Ref} {mode : Mode}
    {text : String} (hunmet : ¬ (Demand.held ref mode).Met store) {access : Access}
    {object : Ref} (hguard : (ref, mode, text) ∈ ctx.guardsOf access object) :
    Reported (ctx.checkPlace env access object) (.held ref mode) text := by
  induction object generalizing access with
  | field base name ih =>
    rcases List.mem_append.1 hguard with hhere | hbase
    · exact (reported_checkMember h (Option.mem_toList.1 hhere) hunmet).mono
        (List.subset_append_left _ _)
    · exact (ih hbase).mono (List.subset_append_right _ _)
  | deref pointer ih =>
    rcases List.mem_append.1 hguard with hhere | hpointer
    · exact (reported_checkMember h (Option.mem_toList.1 hhere) hunmet).mono
        (List.subset_append_left _ _)
    · exact (ih hpointer).mono (List.subset_append_right _ _)
  | global name => exact reported_checkMember h (Option.mem_toList.1 hguard) hunmet
  | var name => cases hguard
  | self => cases hguard
  | param index => cases hguard

theorem reported_checkExpr (h : env.Describes store) {ref : Ref} {mode : Mode}
    {text : String} (hunmet : ¬ (Demand.held ref mode).Met store) {access : Access}
    {path : String} {expr : Expr} {object : Ref} (hexpr : Expr.parse path = .ok expr)
    (hobject : ctx.object? path = some object)
    (hguard : (ref, mode, text) ∈ ctx.guardsOf access object) :
    Reported (ctx.checkExpr env access expr) (.held ref mode) text := by
  unfold object? at hobject
  rw [hexpr] at hobject
  obtain ⟨operand, hoperand, hobject⟩ :
      ∃ operand, (expr.lower (ctx.root .empty) true).toOption = some operand ∧
        some operand.object = some object := Option.bind_eq_some_iff.1 hobject
  cases hobject
  unfold checkExpr
  rw [ctx.root_congr h.steering]
  cases hlower : expr.lower (ctx.root .empty) true with
  | error error =>
    rw [hlower] at hoperand
    cases hoperand
  | ok found =>
    rw [hlower] at hoperand
    cases hoperand
    exact reported_checkPlace h hunmet hguard

theorem reported_checkPath (h : env.Describes store) {ref : Ref} {mode : Mode}
    {text : String} (hunmet : ¬ (Demand.held ref mode).Met store) {access : Access}
    {path : String} {object : Ref} (hobject : ctx.object? path = some object)
    (hguard : (ref, mode, text) ∈ ctx.guardsOf access object) :
    Reported (ctx.checkPath env access path) (.held ref mode) text := by
  unfold checkPath
  cases hexpr : Expr.parse path with
  | error error =>
    unfold object? at hobject
    rw [hexpr] at hobject
    cases hobject
  | ok expr => exact reported_checkExpr h hunmet hexpr hobject hguard

/-- **An action that asks for something it does not get is reported.** A demand in doubt
counts as not met, unless it is lenient. -/
theorem reported_runChecked (h : env.Describes store) {action : Action} {demand : Demand}
    {clause : String} (hasks : ctx.Asks action demand clause) (hunmet : ¬ demand.Met store)
    (hknown : demand.isLenient = true → env.state demand.ref ≠ .unknown) :
    Reported (ctx.runChecked env action).2 demand clause := by
  cases hasks with
  | required hdeclared hclause =>
    simp only [runChecked, call_eq h.steering, hdeclared]
    exact reported_required h hclause hunmet
  | excluded hdeclared hclause =>
    simp only [runChecked, call_eq h.steering, hdeclared]
    exact reported_excluded h hclause hunmet
  | released hdeclared hclause =>
    simp only [runChecked, call_eq h.steering, hdeclared]
    exact reported_released h hclause hunmet
  | acquired hdeclared hclause =>
    simp only [runChecked, call_eq h.steering, hdeclared]
    exact reported_acquired h hclause hunmet (hknown rfl)
  | guarded haccess hguard =>
    cases haccess with
    | read hobject => exact reported_checkPath h hunmet hobject hguard
    | write hobject => exact reported_checkPath h hunmet hobject hguard
    | assigned hexpr hreads hobject =>
      have hreported := reported_checkExpr h hunmet hexpr hobject hguard
      simp only [runChecked, assign, hexpr, Except.toOption, if_pos hreads]
      split
      · exact hreported
      · exact hreported.mono (List.subset_append_left _ _)
    | writeMember hdest hobject =>
      have hreported := reported_checkPath h hunmet hobject hguard
      simp only [runChecked, assign, hdest]
      exact hreported.mono (List.subset_append_right _ _)

/-!
## Returns

A return is checked for each clause, and then for all that is still held and not
declared. The last needs that what is held in the store is on record at all.
-/

theorem reported_attempt {own : BoundContract} {returned : Option String}
    {attempt : BoundAttempt} {text : String} {expr : Expr} {value : Int}
    {violation : Violation} {demand : Demand} (hattempt : attempt ∈ own.tryAcquires)
    (hreturned : returned = some text) (hexpr : Expr.parse text = .ok expr)
    (hvalue : expr.asInt? = some value)
    (hcheck : own.checkAttempt env (value != 0) attempt = some violation)
    (hclause : violation.clause = attempt.clause.text)
    (href : violation.cause.ref? = some demand.ref) :
    Reported (own.checkReturn env returned) demand attempt.clause.text := by
  have htruth : returned.bind (BoundContract.returnedTruth? env) = some (value != 0) := by
    simp [hreturned, BoundContract.returnedTruth?, hexpr, hvalue, Except.toOption]
  have hreported :
      Reported (own.tryAcquires.filterMap (own.checkAttempt env (value != 0))) demand
        attempt.clause.text := .of_check hattempt hcheck hclause href
  unfold BoundContract.checkReturn
  rw [htruth]
  exact hreported.mono fun _ hmem => List.mem_append_left _ (List.mem_append_right _ hmem)

/-- A capability that is held shows in the environment, at least as possibly held. If
there were no record of it, the environment would claim that it is not held. -/
theorem reported_leaks (h : env.Describes store) {own : BoundContract} {ref : Ref}
    (hundeclared : ref ∉ own.declared) (hheld : ¬ (Demand.free ref).Met store) :
    Reported (own.leaks env) (.free ref) "" := by
  cases hfact : env.held.get? ref with
  | none =>
    have hstate : env.state ref = .notHeld := by simp [Env.state, hfact]
    exact absurd (free_of_notHeld h hstate) hheld
  | some fact =>
    -- Only what is asserted may leak unnoticed, and nothing is.
    have hasserted : env.isAsserted ref = false := by
      simp [Env.isAsserted, h.asserted, FinMap.contains]
    refine ⟨⟨.leaked own.callee ref fact.state, ""⟩, ?_, rfl, rfl⟩
    refine List.mem_map.2
      ⟨(ref, fact), List.mem_filter.2 ⟨FinMap.get?_eq_some_iff.1 hfact, ?_⟩, rfl⟩
    simp [hasserted, hundeclared]

/-- **A return that its own contract does not allow is reported.** One case for each of
the ways in which a contract asks at a return. -/
theorem reported_checkReturn (h : env.Describes store) {own : BoundContract}
    {returned : Option String} {demand : Demand} {clause : String}
    (hasks : AsksAtReturn own returned demand clause) (hunmet : ¬ demand.Met store)
    (hknown : demand.isLenient = true → env.state demand.ref ≠ .unknown) :
    Reported (own.checkReturn env returned) demand clause := by
  cases hasks with
  | @acquired clause hclause =>
    have hcheck : own.checkAcquired env clause = some _ :=
      if_neg fun hstate => hunmet (met_of_satisfies h hstate)
    have hreported : Reported (own.acquires.filterMap (own.checkAcquired env))
        (.held clause.inst.ref clause.mode) clause.text := .of_check hclause hcheck rfl rfl
    simp only [BoundContract.checkReturn, List.append_assoc]
    exact hreported.mono (List.subset_append_left _ _)
  | @kept clause hclause hkept =>
    have hnone : own.releases.any (·.inst = clause.inst) = false := by
      rw [List.any_eq_false]
      intro released hreleased
      simpa using hkept released hreleased
    have hcheck :
        own.checkKept env clause = some ⟨.notKept own.callee clause.inst.ref clause.mode
          (env.state clause.inst.ref), clause.text⟩ := by
      refine if_neg ?_
      rw [hnone, Bool.false_or]
      exact fun hstate => hunmet (met_of_satisfies h hstate)
    have hreported : Reported (own.requires.filterMap (own.checkKept env))
        (.held clause.inst.ref clause.mode) clause.text := .of_check hclause hcheck rfl rfl
    simp only [BoundContract.checkReturn, List.append_assoc]
    exact hreported.mono fun _ hmem => List.mem_append_right _ (List.mem_append_left _ hmem)
  -- Released, and still there: each of the three states that are not `notHeld` has its
  -- own message, about the same capability.
  | @gone clause hclause =>
    have hcheck : ∃ violation, own.checkGone env clause = some violation ∧
        violation.clause = clause.text ∧ violation.cause.ref? = some clause.inst.ref := by
      cases hstate : env.state clause.inst.ref with
      | notHeld => exact absurd (free_of_notHeld h hstate) hunmet
      | unknown | heldShared | heldExclusive =>
        simp only [BoundContract.checkGone, hstate]
        exact ⟨_, rfl, rfl, rfl⟩
    obtain ⟨violation, hcheck, htext, href⟩ := hcheck
    have hreported :
        Reported (own.releases.filterMap (own.checkGone env)) (.free clause.inst.ref)
          clause.text := .of_check hclause hcheck htext href
    simp only [BoundContract.checkReturn, List.append_assoc]
    exact hreported.mono fun _ hmem =>
      List.mem_append_right _ (List.mem_append_right _ (List.mem_append_left _ hmem))
  | @attempted attempt text expr value hattempt hreturned hexpr hvalue hsuccess =>
    have hcheck : own.checkAttempt env (value != 0) attempt = some _ :=
      (if_pos hsuccess.symm).trans (if_neg fun hstate => hunmet (met_of_satisfies h hstate))
    exact reported_attempt hattempt hreturned hexpr hvalue hcheck rfl rfl
  -- The lenient case: a hold that is only possible is not reported, so it has to be
  -- certain.
  | @failed attempt text expr value hattempt hreturned hexpr hvalue hfailure =>
    have hheld := isSome_mode?_of_held h hunmet (hknown rfl)
    have hcheck : own.checkAttempt env (value != 0) attempt = some _ :=
      (if_neg fun heq => hfailure heq.symm).trans (if_pos hheld)
    exact reported_attempt hattempt hreturned hexpr hvalue hcheck rfl rfl
  | undeclared hundeclared =>
    exact (reported_leaks h hundeclared hunmet).mono (List.subset_append_right _ _)

end Context

end Custody
