import Custody.Analysis.Basic
import Custody.Proofs.Env.Effects

/-!
# What a return promises

A contract is read from two sides. Callers take its effects for granted (`Env.apply`),
and where the function itself returns, the environment is checked against it clause by
clause (`checkLeaving`). The two are written down apart, so that they fit has to be
proved.

* `clean_return_delivers` — for contracts of releases, acquisitions and requirements
  they fit: a return that is not told off delivers what the effects promise, for every
  capability.
* `clean_return_attempt` — for try-acquires they do not quite. A return of the failure
  is checked for a hold, but not for one that is merely possible: to the check,
  `unknown` is as good as `notHeld`. Callers go on with the latter
  (`clean_return_may_leak`).

Both start from `checkLeaving_eq_nil_iff`, which says once and for all when a return is
clean.

## What fitting means

`Delivers` compares the environment at the return with one that callers work out from
the contract alone, `entryEnv.apply own`. It is not equality. A hold may be better than
promised. What is only asserted may still be there, since an assertion creates no hold
of the function's own. And where the effects leave a capability uncertain nothing is
promised, so nothing is asked.

The environment at the return is arbitrary. It is not assumed that the analysis came to
it on any path, so the result is about the check and the effects and nothing else.
-/

set_option autoImplicit false

namespace Custody

namespace BoundContract

/-!
## When a return is clean

The checks at a return are functions with reports of their own. Each has a lemma that
says when it is silent, and `Allows` is all of these together.
-/

section Checks

variable {own : BoundContract} {env : Env} {clause : BoundClause}

theorem checkAcquired_eq_none_iff :
    own.checkAcquired env clause = none ↔
      (env.state clause.inst.ref).satisfies clause.mode = true := by
  simp [checkAcquired]

theorem checkKept_eq_none_iff :
    own.checkKept env clause = none ↔
      ((∀ released ∈ own.releases, released.inst ≠ clause.inst) →
        (env.state clause.inst.ref).satisfies clause.mode = true) := by
  unfold checkKept
  by_cases hreleased : ∀ released ∈ own.releases, released.inst ≠ clause.inst
  · have hany : own.releases.any (·.inst = clause.inst) = false := by simpa using hreleased
    rw [imp_iff_right hreleased]
    simp [hany]
  · have hany : own.releases.any (·.inst = clause.inst) = true := by simpa using hreleased
    simp [hany, hreleased]

theorem checkGone_eq_none_iff :
    own.checkGone env clause = none ↔ env.state clause.inst.ref = .notHeld := by
  unfold checkGone
  cases hstate : env.state clause.inst.ref <;> simp [hstate]

theorem checkAttempt_eq_none_iff {value : Bool} {attempt : BoundAttempt} :
    own.checkAttempt env value attempt = none ↔
      (value = attempt.success →
        (env.state attempt.clause.inst.ref).satisfies attempt.clause.mode = true) ∧
      (value ≠ attempt.success → (env.state attempt.clause.inst.ref).mode? = none) := by
  unfold checkAttempt
  by_cases hvalue : value = attempt.success <;> simp [hvalue]

theorem mem_leaks_iff {violation : Violation} :
    violation ∈ own.leaks env ↔
      ∃ ref fact, env.held.get? ref = some fact ∧ env.isAsserted ref = false ∧
        ref ∉ own.declared ∧
        ⟨.leaked own.callee ref fact.state, ""⟩ = violation := by
  unfold leaks
  simp only [List.mem_map, List.mem_filter, Prod.exists, ← FinMap.get?_eq_some_iff,
    Bool.and_eq_true, Bool.not_eq_true', decide_eq_true_eq, and_assoc]

theorem leaks_eq_nil_iff :
    own.leaks env = [] ↔
      ∀ ref, env.held.contains ref = true →
        env.isAsserted ref = true ∨ ref ∈ own.declared := by
  rw [List.eq_nil_iff_forall_not_mem]
  constructor
  · intro h ref hcontains
    obtain ⟨fact, hfact⟩ := Option.isSome_iff_exists.1 hcontains
    by_contra hleak
    rw [not_or, Bool.not_eq_true] at hleak
    exact h _ (mem_leaks_iff.2 ⟨ref, fact, hfact, hleak.1, hleak.2, rfl⟩)
  · intro h violation hmem
    obtain ⟨ref, fact, hfact, hasserted, hdeclared, -⟩ := mem_leaks_iff.1 hmem
    rcases h ref (by rw [FinMap.contains, hfact]; rfl) with htrue | hin
    · rw [hasserted] at htrue
      cases htrue
    · exact hdeclared hin

end Checks

/-- What a contract asks of an environment at a return. Requirements are to be kept,
unless the function releases what it was given. -/
structure Allows (own : BoundContract) (env : Env) (returned : Option String) : Prop where
  acquired : ∀ clause ∈ own.acquires,
    (env.state clause.inst.ref).satisfies clause.mode = true
  kept : ∀ clause ∈ own.requires, (∀ released ∈ own.releases, released.inst ≠ clause.inst) →
    (env.state clause.inst.ref).satisfies clause.mode = true
  gone : ∀ clause ∈ own.releases, env.state clause.inst.ref = .notHeld
  attempted : ∀ value, returned.bind (returnedTruth? env) = some value →
    ∀ attempt ∈ own.tryAcquires,
    (value = attempt.success →
      (env.state attempt.clause.inst.ref).satisfies attempt.clause.mode = true) ∧
    (value ≠ attempt.success → (env.state attempt.clause.inst.ref).mode? = none)
  declared : ∀ ref, env.held.contains ref = true →
    env.isAsserted ref = true ∨ ref ∈ own.declared

theorem checkReturn_eq_nil_iff {own : BoundContract} {env : Env}
    {returned : Option String} :
    own.checkReturn env returned = [] ↔ own.Allows env returned := by
  unfold checkReturn
  simp only [List.append_eq_nil_iff, List.filterMap_eq_nil_iff, checkAcquired_eq_none_iff,
    checkKept_eq_none_iff, checkGone_eq_none_iff, leaks_eq_nil_iff]
  constructor
  · rintro ⟨⟨⟨⟨hacquired, hkept⟩, hgone⟩, hattempted⟩, hdeclared⟩
    refine ⟨hacquired, hkept, hgone, fun value hvalue => ?_, hdeclared⟩
    rw [hvalue] at hattempted
    intro attempt hmem
    exact checkAttempt_eq_none_iff.1 (List.filterMap_eq_nil_iff.1 hattempted attempt hmem)
  · rintro ⟨hacquired, hkept, hgone, hattempted, hdeclared⟩
    refine ⟨⟨⟨⟨hacquired, hkept⟩, hgone⟩, ?_⟩, hdeclared⟩
    split
    · rename_i value hvalue
      refine List.filterMap_eq_nil_iff.2 fun attempt hmem => ?_
      exact checkAttempt_eq_none_iff.2 (hattempted value hvalue attempt hmem)
    · rfl

end BoundContract

namespace Context

variable {ctx : Context} {site : Site} {env : Env} {returned : Option String}

/-- **When a return is clean**: no region is open, and the environment is one that the
contract allows. -/
theorem checkLeaving_eq_nil_iff :
    ctx.checkLeaving site env (.leave returned) = [] ↔
      env.suppression = 0 ∧ ctx.own.Allows env returned := by
  unfold checkLeaving
  by_cases hdepth : env.suppression = 0
  · simp [hdepth, BoundContract.checkReturn_eq_nil_iff]
  · simp [hdepth, Nat.pos_of_ne_zero hdepth]

end Context

/-!
## What callers are promised

The state that a contract gives a capability is decided by one of its clauses, or by
none (`Decides`); the check at the return has a part for each of the cases.
-/

namespace Env

/-- An environment has what another one promises: holds in at least the promised mode,
and nothing held that is promised not to be, unless it is only asserted. -/
structure Delivers (env promised : Env) : Prop where
  held : ∀ ref mode, promised.state ref = .held mode → (env.state ref).satisfies mode = true
  free : ∀ ref, promised.state ref = .notHeld → env.isAsserted ref = false →
    env.state ref = .notHeld

end Env

namespace Context

variable {ctx : Context} {site : Site} {env : Env} {returned : Option String}

theorem state_entryEnv (ctx : Context) (ref : Ref) :
    (∃ clause ∈ ctx.own.requires ++ ctx.own.releases,
      clause.inst.ref = ref ∧ ctx.entryEnv.state ref = .held clause.mode) ∨
      (∀ clause ∈ ctx.own.requires ++ ctx.own.releases, clause.inst.ref ≠ ref) ∧
        ctx.entryEnv.state ref = .notHeld :=
  Env.state_foldl_set (·.inst.ref) (.held ·.mode)
    (fun env clause => env.state_set clause.inst _)
    (ctx.own.requires ++ ctx.own.releases) .empty ref

/-- What may decide the state that callers count on after a call: a clause about the
capability, or where there is none what the function assumed on entry. It is only what
the proof below needs to know of `Env.apply`, and not which of several clauses has the
last word. -/
inductive Decides (ctx : Context) (ref : Ref) (state : HeldState) : Prop where
  | acquired {clause : BoundClause} (h : clause ∈ ctx.own.acquires)
      (href : clause.inst.ref = ref) (hstate : state = .held clause.mode)
  | released {clause : BoundClause} (h : clause ∈ ctx.own.releases)
      (href : clause.inst.ref = ref) (hstate : state = .notHeld)
  | untouched (hacquired : ∀ clause ∈ ctx.own.acquires, clause.inst.ref ≠ ref)
      (hreleased : ∀ clause ∈ ctx.own.releases, clause.inst.ref ≠ ref)
        (hstate : state = ctx.entryEnv.state ref)
  | uncertain (hstate : state = .unknown)

theorem decides_summary (htry : ctx.own.tryAcquires = [])
    (hasserts : ctx.own.asserts = []) (result : CallResult) (ref : Ref) :
    ctx.Decides ref ((ctx.entryEnv.apply ctx.own result).state ref) := by
  unfold Env.apply
  rw [htry, hasserts, List.foldl_nil, List.foldl_nil]
  -- From the last clauses back to the first: what does not decide passes the state on.
  rcases Env.state_foldl_set (·.inst.ref) (.held ·.mode)
    (fun env clause => env.state_acquire clause.inst clause.mode) ctx.own.acquires _
      ref with ⟨clause, hclause, href, hheld⟩ | ⟨hunacquired, hpassed⟩
  · exact .acquired hclause href hheld
  · rw [hpassed]
    rcases Env.state_foldl_releaseUnresolved_cases ctx.own.unresolvedReleases _ ref with
      hpassed | hunknown
    · rw [hpassed]
      rcases Env.state_foldl_release_cases ctx.own.releases ctx.entryEnv ref with
        ⟨hkept, hunreleased⟩ | hunknown | ⟨hgone, clause, hclause, href⟩
      · exact .untouched hunacquired hunreleased hkept
      · exact .uncertain hunknown
      · exact .released hclause href hgone
    · exact .uncertain hunknown

theorem satisfies_of_kept (hallows : ctx.own.Allows env returned) {ref : Ref}
    {mode : Mode} (hunreleased : ∀ clause ∈ ctx.own.releases, clause.inst.ref ≠ ref)
    (hassumed : ctx.entryEnv.state ref = .held mode) :
    (env.state ref).satisfies mode = true := by
  rcases ctx.state_entryEnv ref with ⟨clause, hclause, href, hentry⟩ | ⟨-, hentry⟩
  · have hmode : mode = clause.mode := by simpa [hassumed] using hentry
    have hrequired : clause ∈ ctx.own.requires := by
      refine (List.mem_append.1 hclause).resolve_right fun hreleased => ?_
      exact hunreleased clause hreleased href
    rw [hmode, ← href]
    refine hallows.kept clause hrequired fun released hmem hinst => ?_
    exact hunreleased released hmem (by rw [hinst, href])
  · simp [hassumed] at hentry

theorem notHeld_of_undeclared (htry : ctx.own.tryAcquires = [])
    (hallows : ctx.own.Allows env returned) {ref : Ref}
    (hunacquired : ∀ clause ∈ ctx.own.acquires, clause.inst.ref ≠ ref)
    (hunassumed : ctx.entryEnv.state ref = .notHeld)
    (hasserted : env.isAsserted ref = false) :
    env.state ref = .notHeld := by
  rcases ctx.state_entryEnv ref with ⟨clause, -, -, hentry⟩ | ⟨hunnamed, -⟩
  · exact absurd (hentry.symm.trans hunassumed) (HeldState.held_ne_notHeld _)
  · apply Env.state_of_untracked
    by_contra htracked
    rcases hallows.declared ref (by simpa using htracked) with hasserted' | hdeclared
    · simp [hasserted] at hasserted'
    · simp only [BoundContract.declared, htry, List.map_nil, List.append_nil,
        List.append_assoc, List.mem_map, List.mem_append] at hdeclared
      obtain ⟨clause, hacquired | hentry, href⟩ := hdeclared
      · exact hunacquired clause hacquired href
      · exact hunnamed clause (List.mem_append.2 hentry) href

/-- **Caller and callee agree on a contract.** What is not told off at a return has
every capability in the state that the contract's effects give it, starting from what
the function may assume: held in at least that mode where they give a hold, and plainly
not held where they give none, but for mere assertions. -/
theorem clean_return_delivers (htry : ctx.own.tryAcquires = [])
    (hasserts : ctx.own.asserts = [])
    (hclean : ctx.checkLeaving site env (.leave returned) = []) (result : CallResult) :
    env.Delivers (ctx.entryEnv.apply ctx.own result) := by
  obtain ⟨-, hallows⟩ := checkLeaving_eq_nil_iff.1 hclean
  constructor
  · intro ref mode hpromised
    cases decides_summary htry hasserts result ref with
    | @acquired clause hclause href hstate =>
      have hmode : mode = clause.mode := by simpa [hpromised] using hstate
      rw [hmode, ← href]
      exact hallows.acquired clause hclause
    | untouched _ hunreleased hstate =>
      exact satisfies_of_kept hallows hunreleased (hstate.symm.trans hpromised)
    | released _ _ hstate => simp [hpromised] at hstate
    | uncertain hstate => simp [hpromised] at hstate
  · intro ref hpromised hasserted
    cases decides_summary htry hasserts result ref with
    | acquired _ _ hstate =>
      exact absurd (hstate.symm.trans hpromised) (HeldState.held_ne_notHeld _)
    | @released clause hclause href _ =>
      rw [← href]
      exact hallows.gone clause hclause
    -- Not held on entry and not acquired: were it held now, it would have been found as
    -- a leak.
    | untouched hunacquired _ hstate =>
      exact notHeld_of_undeclared htry hallows hunacquired
        (hstate.symm.trans hpromised) hasserted
    | uncertain hstate => simp [hpromised] at hstate

/-- A function that is called with one lock held, gives up a second and returns with a
third. -/
def handOver : Context :=
  { ofDecl default "unit" default with
    own :=
      { callee := "hand_over"
        requires := [⟨⟨.global "a", some ⟨0⟩⟩, .shared, "__must_hold_shared(a)"⟩]
        releases := [⟨⟨.global "b", some ⟨0⟩⟩, .exclusive, "__releases(b)"⟩]
        acquires := [⟨⟨.global "c", some ⟨0⟩⟩, .exclusive, "__acquires(c)"⟩] } }

/-- It may return with more than the hold that it was called with, but not with the lock
it gives up. -/
theorem clean_return_delivers_handOver :
    let env :=
      (Env.empty.acquire ⟨.global "a", some ⟨0⟩⟩ .exclusive).acquire
        ⟨.global "c", some ⟨0⟩⟩ .exclusive
    let promised := handOver.entryEnv.apply handOver.own {}
    handOver.checkLeaving ⟨0, 0, none⟩ env (.leave none) = [] ∧ env.Delivers promised ∧
      promised.state (.global "a") = .heldShared ∧ promised.state (.global "b") = .notHeld ∧
      promised.state (.global "c") = .heldExclusive := by
  intro env promised
  have hclean : handOver.checkLeaving ⟨0, 0, none⟩ env (.leave none) = [] := by
    decide +kernel
  exact ⟨hclean, clean_return_delivers rfl rfl hclean
    {}, by decide +kernel, by decide +kernel, by decide +kernel⟩

end Context

/-!
## Try-acquires

A try-acquire is looked at by itself, for a capability that no other clause speaks of
(`SoleAttempt`). With other clauses on the same capability their checks would decide.
-/

namespace BoundContract

/-- A try-acquire whose capability has no other clause that is looked at where the
function returns. -/
structure SoleAttempt (own : BoundContract) (attempt : BoundAttempt) : Prop where
  mem : attempt ∈ own.tryAcquires
  attempts : ∀ other ∈ own.tryAcquires,
    other.clause.inst.ref = attempt.clause.inst.ref → other = attempt
  clauses : ∀ clause ∈ own.acquires ++ own.requires ++ own.releases,
    clause.inst.ref ≠ attempt.clause.inst.ref

theorem returnedTruth?_congr {a b : Env} (h : a.constants = b.constants) (text : String) :
    returnedTruth? a text = returnedTruth? b text := by
  unfold returnedTruth?
  rw [h]

/-- Where the failure of a try-acquire is returned, nothing is asked of its capability
but that it is not known to be held. -/
theorem SoleAttempt.allows {own : BoundContract} {attempt : BoundAttempt}
    (hsole : own.SoleAttempt attempt) {a b : Env} {returned : Option String}
    {value : Bool} (hvalue : returned.bind (returnedTruth? a) = some value)
    (hfailed : value ≠ attempt.success)
    (hheld : ∀ ref, ref ≠ attempt.clause.inst.ref → b.held.get? ref = a.held.get? ref)
    (hasserted : b.asserted = a.asserted) (hconstants : b.constants = a.constants)
    (hfree : (b.state attempt.clause.inst.ref).mode? = none)
    (h : own.Allows a returned) :
    own.Allows b returned := by
  have hstate : ∀ ref, ref ≠ attempt.clause.inst.ref → b.state ref = a.state ref := by
    intro ref hne
    rw [Env.state, hheld ref hne, Env.state]
  have htruth : returned.bind (returnedTruth? b) = some value := by
    rw [← hvalue]
    exact congrArg _ (funext (returnedTruth?_congr hconstants))
  -- The clauses are about other capabilities, so only the attempt sees that this one
  -- changed.
  have hclauses : ∀ clause ∈ own.acquires ++ own.requires ++ own.releases,
      b.state clause.inst.ref = a.state clause.inst.ref :=
    fun clause hmem => hstate _ (hsole.clauses clause hmem)
  refine ⟨fun clause hmem => ?_, fun clause hmem => ?_, fun clause hmem => ?_, ?_,
    fun ref hcontains => ?_⟩
  · rw [hclauses clause (by simp [hmem])]
    exact h.acquired clause hmem
  · rw [hclauses clause (by simp [hmem])]
    exact h.kept clause hmem
  · rw [hclauses clause (by simp [hmem])]
    exact h.gone clause hmem
  · intro other hother candidate hmem
    rw [htruth] at hother
    cases hother
    by_cases href : candidate.clause.inst.ref = attempt.clause.inst.ref
    · rw [hsole.attempts candidate hmem href]
      exact ⟨fun hsucceeded => absurd hsucceeded hfailed, fun _ => hfree⟩
    · rw [hstate _ href]
      exact h.attempted value hvalue candidate hmem
  · by_cases href : ref = attempt.clause.inst.ref
    · refine .inr (List.mem_map.2 ⟨attempt.clause, ?_, href.symm⟩)
      exact List.mem_append_right _ (List.mem_map_of_mem hsole.mem)
    · unfold Env.isAsserted
      rw [hasserted]
      rw [FinMap.contains, hheld ref href] at hcontains
      exact h.declared ref hcontains

end BoundContract

namespace Context

variable {ctx : Context} {site : Site} {env : Env} {text : String} {value : Bool}
  {attempt : BoundAttempt}

/-- **What a clean return says about a try-acquire.** Of a success, that the capability
is held as declared. Of a failure, that it is not known to be held; whether it is
plainly not held or possibly held makes no difference to any check. -/
theorem clean_return_attempt (hsole : ctx.own.SoleAttempt attempt)
    (hvalue : BoundContract.returnedTruth? env text = some value) :
    (ctx.checkLeaving site env (.leave (some text)) = [] →
      (value = attempt.success →
        (env.state attempt.clause.inst.ref).satisfies attempt.clause.mode = true) ∧
      (value ≠ attempt.success → env.state attempt.clause.inst.ref = .notHeld ∨
        env.state attempt.clause.inst.ref = .unknown)) ∧
    (value ≠ attempt.success →
      (ctx.checkLeaving site (env.set attempt.clause.inst .unknown)
        (.leave (some text)) = [] ↔
        ctx.checkLeaving site (env.set attempt.clause.inst .notHeld)
          (.leave (some text)) = [])) := by
  constructor
  · intro hclean
    obtain ⟨-, hallows⟩ := checkLeaving_eq_nil_iff.1 hclean
    obtain ⟨hsucceeded, hfailed⟩ := hallows.attempted value hvalue attempt hsole.mem
    exact ⟨hsucceeded, fun hne => HeldState.mode?_eq_none_iff.1 (hfailed hne)⟩
  · intro hfailed
    have hkeeps : ∀ old new : HeldState, new.mode? = none →
        ctx.checkLeaving site (env.set attempt.clause.inst old) (.leave (some text)) = [] →
        ctx.checkLeaving site (env.set attempt.clause.inst new)
          (.leave (some text)) = [] := by
      intro old new hnew hclean
      obtain ⟨hdepth, hallows⟩ := checkLeaving_eq_nil_iff.1 hclean
      have hsteering : (env.set attempt.clause.inst new).steering
          = (env.set attempt.clause.inst old).steering := by
        rw [Env.steering_set, Env.steering_set]
      refine checkLeaving_eq_nil_iff.2 ⟨(congrArg Prod.snd hsteering).trans hdepth, ?_⟩
      refine hsole.allows ?_ hfailed (fun ref hne => ?_) ?_ ?_ (by simpa using hnew) hallows
      · rw [Option.bind_some,
          BoundContract.returnedTruth?_congr (Env.constants_set env _ old), hvalue]
      · rw [Env.get?_held_set_of_ne hne, Env.get?_held_set_of_ne hne]
      · rw [Env.asserted_set, Env.asserted_set]
      · rw [Env.constants_set, Env.constants_set]
    exact ⟨hkeeps .unknown .notHeld rfl, hkeeps .notHeld .unknown rfl⟩

/-- A function that tries to acquire the lock it is given a pointer to, and returns
whether it did. -/
def tryTable : Table :=
  { (default : Table) with
    contracts := ⟨FinMap.ofList
      [("try_it",
        { tryAcquires :=
            [⟨⟨.deref (.param 0), ⟨0⟩, .exclusive, "__cond_acquires(1, p)"⟩, true⟩] })],
      ∅⟩ }

def tryDecl : FunctionDecl :=
  { (default : FunctionDecl) with name := "try_it", params := [⟨"p", "spinlock_t *"⟩] }

def tryAttempt : BoundAttempt :=
  ⟨⟨⟨.deref (.var "p"), some ⟨0⟩⟩, .exclusive, "__cond_acquires(1, p)"⟩, true⟩

theorem soleAttempt_tryAttempt :
    (ofDecl tryTable "unit" tryDecl).own.SoleAttempt tryAttempt := by
  have hown :
      (ofDecl tryTable "unit" tryDecl).own =
        { callee := "try_it", tryAcquires := [tryAttempt] } := by
    decide +kernel
  rw [hown]
  exact ⟨List.mem_singleton.2 rfl, fun other hmem _ => List.mem_singleton.1 hmem,
    fun clause hmem => by cases hmem⟩

/-- With the lock held, the success may be returned and the failure may not. -/
theorem clean_return_attempt_tryAttempt :
    let ctx := ofDecl tryTable "unit" tryDecl
    let env := Env.empty.acquire tryAttempt.clause.inst .exclusive
    ctx.own.SoleAttempt tryAttempt ∧ BoundContract.returnedTruth? env "1" = some true ∧
      ctx.checkLeaving ⟨0, 0, none⟩ env (.leave (some "1")) = [] ∧
      (env.state (.deref (.var "p"))).satisfies .exclusive = true ∧
      BoundContract.returnedTruth? env "0" = some false ∧
      ctx.checkLeaving ⟨0, 0, none⟩ env (.leave (some "0")) ≠ [] := by
  intro ctx env
  have hone : BoundContract.returnedTruth? env "1" = some true := by decide +kernel
  have hzero : BoundContract.returnedTruth? env "0" = some false := by decide +kernel
  have hclean : ctx.checkLeaving ⟨0, 0, none⟩ env (.leave (some "1")) = [] := by
    decide +kernel
  refine ⟨soleAttempt_tryAttempt, hone, hclean, ?_, hzero, fun hclean => ?_⟩
  · exact ((clean_return_attempt soleAttempt_tryAttempt hone).1 hclean).1 rfl
  · have hfree :=
      ((clean_return_attempt soleAttempt_tryAttempt hzero).1 hclean).2 (by decide)
    revert hfree
    decide

/-- **A failure that may leak.** On one of two paths the lock is acquired, and where
they meet the failure is returned. Nothing is found, though the lock may be held. A
caller that finds the result false takes it for not held. -/
theorem clean_return_may_leak :
    let ctx := ofDecl tryTable "unit" tryDecl
    let env := Env.empty.join (Env.empty.acquire tryAttempt.clause.inst .exclusive)
    ctx.own.SoleAttempt tryAttempt ∧ env.suppression = 0 ∧
    env.isAsserted (.deref (.var "p")) = false ∧
      BoundContract.returnedTruth? env "0" = some false ∧
      ctx.checkLeaving ⟨2, 0, none⟩ env (.leave (some "0")) = [] ∧
      env.state (.deref (.var "p")) = .unknown ∧
      ctx.analyze ⟨0, [⟨[], .branch .unknown 1 2⟩,
        ⟨[.simple none (.call "__acquire" ["p"] none)], .goto 2⟩,
        ⟨[], .leave (some "0")⟩]⟩ = .ok ⟨[], 3, 3⟩ ∧
      ((Env.empty.apply ctx.own { local? := some "ok" }).refine "ok" false).state
        (.deref (.var "p"))
        = .notHeld :=
  ⟨soleAttempt_tryAttempt, by decide +kernel, by decide +kernel, by decide +kernel,
    by decide +kernel, by decide +kernel, by decide +kernel, by decide +kernel⟩

end Context

end Custody
