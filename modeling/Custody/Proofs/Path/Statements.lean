import Custody.Proofs.Path.Describes

/-!
# Statements and branches keep the description

Where an environment describes the store, it still does after a plain statement
(`describes_runChecked`), whatever the statement does, and on the way that an execution
takes at a branch (`exists_flow`).

No local points anywhere, so the analysis binds a call as the interpreter does. What is
left to say is what it knows of a result: the value that the call names, or the local
that has it.

The order in which a call does things matters here. The destination is rebound and gets
its new value before the effects of the call, on both sides. So an attempt that waits on
the destination waits on the value that the result has, and that is what
`knownResult_right` says of it: the local that is named for the result has the truth of
the result *after* it was received.
-/

set_option autoImplicit false

namespace Custody

namespace Context

variable {ctx : Context} {env : Env} {store : Store}

/-!
## Calls

Intrinsics and functions differ in what is known of the result, and not in anything
else.
-/

/-- What the analysis knows of the result of a call. Only intrinsics tell it, by an
argument that is a number or a variable. -/
def knownResult (ctx : Context) (env : Env) (callee : String) (args : List String)
    (dest : Option String) : CallResult :=
  match Intrinsic.ofName? callee with
  | some intrinsic =>
    intrinsicResult env args dest (args.head?.bind (ctx.instance? .empty)) intrinsic
  | none => { local? := dest }

theorem call_eq (h : env.steering = Env.empty.steering) (callee : String)
    (args : List String) (dest : Option String) :
    ctx.call env callee args dest
      = (finishCall env (ctx.contractOf callee args)
        (ctx.knownResult env callee args dest) dest,
        if (Intrinsic.ofName? callee).isSome then []
        else env.violations (ctx.contractOf callee args)) := by
  unfold call contractOf knownResult
  cases Intrinsic.ofName? callee with
  | none => simp only [ctx.boundContract_congr h]; rfl
  | some intrinsic => simp only [ctx.instance?_congr h]; rfl

theorem resultArgument_right (h : env.Describes store) (args : List String) :
    (∀ value, (resultArgument env args).value? = some value →
      args[1]?.bind store.value? = some value) ∧
    ∀ name, (resultArgument env args).local? = some name →
      args[1]?.bind store.value? = some (store.truth name) := by
  have hnothing : ∀ actual : Option Bool,
      (∀ value, ({} : CallResult).value? = some value → actual = some value) ∧
        ∀ name, ({} : CallResult).local? = some name →
          actual = some (store.truth name) := by
    intro actual
    constructor
    · intro value hvalue
      cases hvalue
    · intro name hname
      cases hname
  unfold resultArgument
  cases args[1]? with
  | none => exact hnothing _
  | some text =>
    simp only [Option.bind_some, Store.value?]
    cases (Expr.parse text).toOption with
    | none => exact hnothing _
    | some expr =>
      simp only
      cases expr.asInt? with
      | some number =>
        refine ⟨fun value hvalue => hvalue, fun name hname => ?_⟩
        cases hname
      | none =>
        simp only
        cases expr.asIdent? with
        | none => exact hnothing _
        | some name =>
          refine ⟨fun value hvalue => ?_, fun other hother => ?_⟩
          · exact congrArg some (h.constants hvalue)
          · cases hother
            rfl

/-- What the analysis knows of the result is so. -/
theorem knownResult_right (ctx : Context) (h : env.Describes store) {callee : String}
    {args : List String} (dest : Option String) {result : Bool}
    (hresult : ∀ fixed, store.result? callee args = some fixed → result = fixed) :
    (∀ value, (ctx.knownResult env callee args dest).value? = some value → value = result) ∧
      ∀ name, (ctx.knownResult env callee args dest).local? = some name →
        (store.receive dest result).truth name = result := by
  have hreceive : ∀ name, dest = some name →
      (store.receive dest result).truth name = result := by
    rintro name rfl
    exact if_pos rfl
  have hdest :
      (∀ value, ({ local? := dest } : CallResult).value? = some value → value = result) ∧
      ∀ name, ({ local? := dest } : CallResult).local? = some name →
        (store.receive dest result).truth name = result :=
    ⟨fun value hvalue => (nomatch hvalue), hreceive⟩
  unfold knownResult
  unfold Store.result? at hresult
  cases hcallee : Intrinsic.ofName? callee with
  | none => exact hdest
  | some intrinsic =>
    cases intrinsic with
    | acquire mode => exact hdest
    | release mode => exact hdest
    | assert mode => exact hdest
    | tryAcquire mode =>
      rw [hcallee] at hresult
      obtain ⟨hvalue, hlocal⟩ := resultArgument_right h args
      simp only [intrinsicResult]
      split
      · refine ⟨fun value hknown => (hresult value (hvalue value hknown)).symm,
          fun name hname => ?_⟩
        -- The local that receives the result counts before the argument.
        cases hd : dest with
        | some other =>
          rw [hd] at hname
          cases hname
          exact if_pos rfl
        | none =>
          rw [hd] at hname
          exact (hresult _ (hlocal name hname)).symm
      · exact hdest

theorem describes_call (h : env.Describes store) {callee : String} {args : List String}
    {dest : Option String} {line : Option Nat} {result : Bool}
    (hplain : ctx.IsPlain (.simple line (.call callee args dest)))
    (hresult : ∀ fixed, store.result? callee args = some fixed → result = fixed) :
    (ctx.call env callee args dest).1.Describes
      ((store.receive dest result).apply (ctx.contractOf callee args) result) := by
  obtain ⟨-, hasserts, hreturns⟩ := hplain
  obtain ⟨hvalue, hlocal⟩ := ctx.knownResult_right h dest hresult
  rw [call_eq h.steering]
  cases dest with
  | none => exact h.apply hasserts hvalue hlocal
  | some name =>
    simp only [finishCall, hreturns rfl]
    exact (h.rebind name result).apply hasserts hvalue hlocal

/-! ## Assignments -/

theorem target?_eq_none (h : env.steering = Env.empty.steering) {name : String}
    {type : CType} (hvar : ctx.vars.get? name = some type)
    (hpointers : type.pointers = 0) :
    ctx.target? env (.ident name) = none := by
  have hbindings : env.bindings = ∅ := congrArg Prod.fst h
  have hroot : ctx.root env name = some (.place (.var name)) := by
    simp [root, hbindings, FinMap.contains, hvar]
  have htype : ctx.typeOf (.var name) = .ok type := by
    simp [typeOf, Declarations.typeOf, rootType, hvar]
  simp [target?, Expr.lower, hroot, htype, hpointers]

theorem describes_assign (h : env.Describes store) {dest value : String} {new : Bool}
    (hdest : ctx.vars.contains dest = true) (hvalue : ctx.IsTruth value)
    (hnew : ∀ fixed, store.value? value = some fixed → new = fixed) :
    (ctx.assign env dest value).1.Describes (store.assign dest new) := by
  obtain ⟨expr, hexpr, hkind⟩ := hvalue
  have hself : (store.assign dest new).truth dest = new := if_pos rfl
  have hrebind := h.rebind dest new
  simp only [assign, if_pos hdest, hexpr, Except.toOption, Option.map_some,
    Option.getD_some]
  simp only [Store.value?, hexpr, Except.toOption] at hnew
  cases hint : expr.asInt? with
  | some number =>
    simp only [track, hint, learn]
    simp only [hint] at hnew
    exact hrebind.setConstant (hself.trans (hnew _ rfl))
  | none =>
    obtain hsome | ⟨name, type, rfl, hvar, hpointers⟩ := hkind
    · rw [hint] at hsome
      cases hsome
    · simp only [hint, Expr.asIdent?, Option.map_some] at hnew
      have htarget := target?_eq_none h.steering hvar hpointers
      simp only [track, hint, htarget, Option.filter_none, Expr.asIdent?]
      split
      · -- To copy a variable to itself tells nothing: its old value is gone by then.
        rename_i hcopy
        have hne : name ≠ dest := by
          simp only [Bool.and_eq_true, decide_eq_true_eq] at hcopy
          exact hcopy.1
        refine hrebind.copyLocal ?_
        rw [hself, hnew _ rfl]
        exact (if_neg hne).symm
      · exact hrebind

/-! ## Statements -/

/-- A plain action runs under checks, and is no marker, so that running it as a
statement adds nothing but the place of what is found. -/
theorem runStmt_eq (h : env.steering = Env.empty.steering) {line : Option Nat}
    {action : Action} (hplain : ctx.IsPlain (.simple line action)) (block index : Nat) :
    ctx.runStmt 0 ⟨block, index, none⟩ env (.simple line action)
      = ((ctx.runChecked env action).1,
        (ctx.runChecked env action).2.map (·.at ⟨block, index, line⟩)) := by
  have hmarker : action.marker? = none := by
    cases action with
    | call callee args dest => exact hplain.1
    | suppressBegin => exact absurd hplain id
    | suppressEnd => exact absurd hplain id
    | plain text => rfl
    | read path => rfl
    | write path => rfl
    | assign dest value => rfl
  have hregions : env.suppression = 0 := congrArg Prod.snd h
  simp only [runStmt, runAction, hmarker, hregions, Option.or_none]
  rfl

/-- **A plain statement keeps the description**, whatever it does: for every store that
the interpreter may come to. -/
theorem describes_runChecked (h : env.Describes store) {line : Option Nat}
    {action : Action} {after : Store} (hplain : ctx.IsPlain (.simple line action))
    (hdoes : ctx.Does action store after) :
    (ctx.runChecked env action).1.Describes after := by
  cases hdoes with
  | plain => exact h
  | read => exact h
  | write => exact h
  | call hresult => exact describes_call h hplain hresult
  | assign hdest hnew => exact describes_assign h hdest (hplain hdest) hnew
  | writeMember hdest =>
    simp only [runChecked, assign, hdest]
    exact h

/-! ## Branches -/

/-- The analysis goes wherever an execution can go. A branch on a known variable has one
way, and it is the way of the execution. -/
theorem exists_flow (h : env.Describes store) {target : Nat} {term : Terminator}
    (hgoes : store.Goes target term) :
    ∃ out, (target, out) ∈ flowsFrom env term ∧ out.Describes store := by
  have honTruth : ∀ (name : String) (wanted : Bool) (yes no : Nat),
      target = (if store.truth name = wanted then yes else no) →
      ∃ out, (target, out) ∈ branch.onTruth env yes no name wanted ∧
        out.Describes store := by
    rintro name wanted yes no rfl
    unfold branch.onTruth
    cases hconstant : env.constants.get? name with
    | some value =>
      -- The other arm is not sent anything, and no execution would take it.
      refine ⟨env, List.mem_singleton.2 ?_, h⟩
      rw [h.constants hconstant]
    | none =>
      by_cases htruth : store.truth name = wanted
      · rw [if_pos htruth]
        exact ⟨_, List.mem_cons_self, h.refine htruth⟩
      · have hother : store.truth name = !wanted := by
          cases hvalue : store.truth name <;> cases wanted <;> simp_all
        rw [if_neg htruth]
        exact ⟨_, List.mem_cons_of_mem _ List.mem_cons_self, h.refine hother⟩
  cases term with
  | leave value => exact absurd hgoes id
  | unreachable => exact absurd hgoes id
  | goto next =>
    cases hgoes
    exact ⟨env, List.mem_singleton.2 rfl, h⟩
  | branch cond yes no =>
    cases cond with
    | unknown =>
      rcases hgoes with rfl | rfl
      · exact ⟨env, List.mem_cons_self, h⟩
      · exact ⟨env, List.mem_cons_of_mem _ List.mem_cons_self, h⟩
    | holds name => exact honTruth name true yes no hgoes
    | fails name =>
      refine honTruth name false yes no ?_
      rw [show target = if store.truth name then no else yes from hgoes]
      cases store.truth name <;> rfl

end Context

end Custody
