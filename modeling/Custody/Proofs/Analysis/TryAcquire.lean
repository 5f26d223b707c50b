import Custody.Proofs.Analysis.Return

/-!
# Try-acquires

A try-acquire leaves open what it did until its result is tested, or tells at once if
the result is known.

* `tryAcquires_split` — a test of the local with the result splits the environment. On
  the side of its success the capability is held, on the other it is as before the call.
  One call may try several capabilities, with successes of both kinds, and nothing else
  comes of it on either side.
* `tryAcquire_known_iff` — a try-acquire that is known to succeed is an acquisition,
  with one exception. An acquisition ends an assertion that the capability is held, and
  the try-acquire does not. The capability then still counts as only asserted, and is
  not found where the function returns (`tryAcquire_hides_leak`).

Two conditions are put on the first. The capabilities are to be different: of two
attempts on one, the second would find it unknown, and on failure go back to that. And
no attempt may wait on the local before, since the test would decide it too. The
destination of a call is rebound before the call has its effects, so that it meets the
second condition.
-/

set_option autoImplicit false

namespace Custody

namespace Env

/-!
## Results in a local

One try-acquire after the other, as one call makes them. Each remembers the state it
found, to go back to; as they are on different capabilities, these are the states before
the call.
-/

/-- What a try-acquire leaves behind until its result is tested, with the state it
found. -/
def attemptFor (env : Env) (tried : BoundAttempt) : Attempt :=
  ⟨tried.clause.inst, tried.clause.mode, tried.success, env.state tried.clause.inst.ref⟩

/-- After a try-acquire whose result goes into a local, and is not known. Several into
one local are several attempts that one test decides. -/
def tryInto (name : String) (env : Env) (tried : BoundAttempt) : Env :=
  env.tryAcquire tried.clause.inst tried.clause.mode tried.success ⟨some name, none⟩

section Step

variable (env : Env) (name : String) (tried : BoundAttempt)

theorem state_tryInto (ref : Ref) :
    (env.tryInto name tried).state ref = if ref = tried.clause.inst.ref then .unknown
      else env.state ref :=
  state_set (env.forgetAttempts tried.clause.inst.ref) tried.clause.inst .unknown ref

theorem attemptsOf_tryInto_self :
    (env.tryInto name tried).attemptsOf name
      = (env.attemptsOf name).filter (·.inst.ref != tried.clause.inst.ref)
        ++ [env.attemptFor tried] := by
  show (addAttempt _ name _).attemptsOf name = _
  rw [attemptsOf_addAttempt, if_pos rfl, attemptsOf_set, attemptsOf_forgetAttempts]
  rfl

theorem attemptsOf_tryInto_of_ne {other : String} (hne : other ≠ name) :
    (env.tryInto name tried).attemptsOf other
      = (env.attemptsOf other).filter (·.inst.ref != tried.clause.inst.ref) := by
  show (addAttempt _ name _).attemptsOf other = _
  rw [attemptsOf_addAttempt, if_neg hne, attemptsOf_set, attemptsOf_forgetAttempts]

theorem asserted_tryInto : (env.tryInto name tried).asserted = env.asserted :=
  asserted_set (env.forgetAttempts tried.clause.inst.ref) tried.clause.inst .unknown

end Step

section Run

variable {tries : List BoundAttempt}

theorem state_foldl_tryInto (env : Env) (name : String) (ref : Ref) :
    (tries.foldl (tryInto name) env).state ref
      = if ref ∈ tries.map (·.clause.inst.ref) then .unknown else env.state ref := by
  rcases state_foldl_set (fun tried : BoundAttempt => tried.clause.inst.ref)
      (fun _ => .unknown) (fun env tried => state_tryInto env name tried) tries env ref with
    ⟨tried, hmem, rfl, hstate⟩ | ⟨hother, hstate⟩
  · have hin : tried.clause.inst.ref ∈ tries.map (·.clause.inst.ref) :=
      List.mem_map_of_mem hmem
    rw [if_pos hin, hstate]
  · have hout : ref ∉ tries.map (·.clause.inst.ref) := by
      intro hin
      obtain ⟨tried, hmem, heq⟩ := List.mem_map.1 hin
      exact hother tried hmem heq
    rw [if_neg hout, hstate]

/-- Each of several attempts finds its capability as it was before all of them, and none
is forgotten for a later one. -/
theorem attemptsOf_foldl_tryInto (hapart : (tries.map (·.clause.inst.ref)).Nodup)
    (env : Env) (name : String) :
    (tries.foldl (tryInto name) env).attemptsOf name
      = (env.attemptsOf name).filter (·.inst.ref ∉ tries.map (·.clause.inst.ref))
        ++ tries.map env.attemptFor := by
  induction tries generalizing env with
  | nil => simp
  | cons tried rest ih =>
    rw [List.map_cons, List.nodup_cons] at hapart
    -- Later attempts are on other capabilities, so they find the states of the
    -- environment that all started from.
    have hprior :
        rest.map (env.tryInto name tried).attemptFor = rest.map env.attemptFor := by
      refine List.map_congr_left fun later hmem => ?_
      have hne : later.clause.inst.ref ≠ tried.clause.inst.ref := by
        intro heq
        exact hapart.1 (heq ▸ List.mem_map_of_mem hmem)
      simp only [attemptFor, state_tryInto, if_neg hne]
    have hkept :
        [env.attemptFor tried].filter (·.inst.ref ∉ rest.map (·.clause.inst.ref)) =
          [env.attemptFor tried] := by
      simpa [attemptFor] using hapart.1
    have hfilter :
        ((env.attemptsOf name).filter (·.inst.ref != tried.clause.inst.ref)).filter
          (·.inst.ref ∉ rest.map (·.clause.inst.ref))
          = (env.attemptsOf name).filter
            (·.inst.ref ∉ (tried :: rest).map (·.clause.inst.ref)) := by
      rw [List.filter_filter]
      refine List.filter_congr fun attempt _ => Bool.eq_iff_iff.2 ?_
      simp [and_comm]
    rw [List.foldl_cons, ih hapart.2, hprior, attemptsOf_tryInto_self,
      List.filter_append, hkept, hfilter, List.append_assoc]
    rfl

theorem attemptsOf_foldl_tryInto_of_ne {name other : String} (hne : other ≠ name)
    (env : Env) :
    (tries.foldl (tryInto name) env).attemptsOf other
      = (env.attemptsOf other).filter (·.inst.ref ∉ tries.map (·.clause.inst.ref)) :=
  attemptsOf_foldl (fun env tried => attemptsOf_tryInto_of_ne env name tried hne) tries env

theorem asserted_foldl_tryInto (env : Env) (name : String) :
    (tries.foldl (tryInto name) env).asserted = env.asserted :=
  answer_foldl asserted (fun env tried _ => asserted_tryInto env name tried) env

theorem background_foldl_tryInto (env : Env) (name : String) :
    (tries.foldl (tryInto name) env).background = env.background :=
  answer_foldl background
    (fun env tried _ => background_tryAcquire env tried.clause.inst _ tried.success _) env

end Run

/-! ## The test of the result -/

/-- Of several attempts on different capabilities, the last on one of them is the only
one. -/
theorem lastAttempt?_eq_some {env : Env} {name : String} {attempt : Attempt}
    (hapart : ((env.attemptsOf name).map (·.inst.ref)).Nodup)
    (hmem : attempt ∈ env.attemptsOf name) :
    env.lastAttempt? name attempt.inst.ref = some attempt := by
  rw [lastAttempt?, filter_eq_singleton hapart hmem]
  rfl

theorem lastAttempt?_eq_none {env : Env} {name : String} {ref : Ref}
    (hnone : ∀ attempt ∈ env.attemptsOf name, attempt.inst.ref ≠ ref) :
    env.lastAttempt? name ref = none := by
  rw [lastAttempt?, List.getLast?_eq_none_iff, List.filter_eq_nil_iff]
  simpa using hnone

section Split

variable {tries : List BoundAttempt} {env : Env} {name : String}

theorem state_refine_tried (hapart : (tries.map (·.clause.inst.ref)).Nodup)
    (hnone : env.attemptsOf name = []) {tried : BoundAttempt} (hmem : tried ∈ tries)
    (truth : Bool) :
    ((tries.foldl (tryInto name) env).refine name truth).state tried.clause.inst.ref
      = if tried.success = truth then .held tried.clause.mode
        else env.state tried.clause.inst.ref := by
  have hattempts :
      (tries.foldl (tryInto name) env).attemptsOf name = tries.map env.attemptFor := by
    rw [attemptsOf_foldl_tryInto hapart, hnone]
    rfl
  have hrefs :
      (((tries.foldl (tryInto name) env).attemptsOf name).map (·.inst.ref)).Nodup := by
    rw [hattempts, List.map_map]
    exact hapart
  have hin : env.attemptFor tried ∈ (tries.foldl (tryInto name) env).attemptsOf name := by
    rw [hattempts]
    exact List.mem_map_of_mem hmem
  have hlast : (tries.foldl (tryInto name) env).lastAttempt? name tried.clause.inst.ref
      = some (env.attemptFor tried) := lastAttempt?_eq_some hrefs hin
  rw [state_refine, hlast]
  rfl

theorem state_refine_untried (hapart : (tries.map (·.clause.inst.ref)).Nodup)
    (hnone : env.attemptsOf name = []) {ref : Ref}
    (href : ref ∉ tries.map (·.clause.inst.ref)) (truth : Bool) :
    ((tries.foldl (tryInto name) env).refine name truth).state ref = env.state ref := by
  have hlast : (tries.foldl (tryInto name) env).lastAttempt? name ref = none := by
    apply lastAttempt?_eq_none
    rw [attemptsOf_foldl_tryInto hapart, hnone]
    intro attempt hmem heq
    obtain ⟨tried, htried, rfl⟩ := List.mem_map.1 hmem
    exact href (heq ▸ List.mem_map_of_mem htried)
  rw [state_refine, hlast, state_foldl_tryInto, if_neg href]
  rfl

end Split

/-- **A test splits the environment after try-acquires.** Before the test nothing is
known of what was tried. After it, what succeeds with this truth is held, and what does
not is as before the call. The states of other capabilities are as before, the truth of
the local is known, and no attempt waits on it. Of the attempts on other locals those
stay that are on other capabilities; assertions, bindings, other known truths and
regions stay. -/
theorem tryAcquires_split {tries : List BoundAttempt}
    (hapart : (tries.map (·.clause.inst.ref)).Nodup) {env : Env} {name : String}
    (hnone : env.attemptsOf name = []) (callee : String) :
    let after := env.apply { callee, tryAcquires := tries } ⟨some name, none⟩
    (∀ tried ∈ tries, after.state tried.clause.inst.ref = .unknown) ∧
      ∀ truth,
        let side := after.refine name truth
        (∀ tried ∈ tries, side.state tried.clause.inst.ref
          = if tried.success = truth then .held tried.clause.mode
            else env.state tried.clause.inst.ref) ∧
        (∀ ref, ref ∉ tries.map (·.clause.inst.ref) → side.state ref = env.state ref) ∧
        side.attemptsOf name = [] ∧
        (∀ other, other ≠ name →
          side.attemptsOf other = (env.attemptsOf other).filter
            (·.inst.ref ∉ tries.map (·.clause.inst.ref))) ∧
        side.constants = env.constants.insert name truth ∧ side.asserted = env.asserted ∧
        side.bindings = env.bindings ∧ side.suppression = env.suppression ∧
        side.conflict = env.conflict := by
  intro after
  have hafter : after = tries.foldl (tryInto name) env := rfl
  constructor
  · intro tried hmem
    rw [hafter, state_foldl_tryInto]
    exact if_pos (List.mem_map_of_mem hmem)
  · intro truth side
    -- All that is not about capabilities or attempts at once, taken apart below.
    have hbackground :
        side.background = (env.bindings, env.constants.insert name truth,
          env.suppression, env.conflict) := by
      refine (background_refine after name truth).trans ?_
      exact congrArg (fun known => (known.1, known.2.1.insert name truth, known.2.2))
        (background_foldl_tryInto env name)
    refine ⟨?_, ?_, ?_, ?_, congrArg (·.2.1) hbackground, ?_, congrArg (·.1) hbackground,
      congrArg (·.2.2.1) hbackground, congrArg (·.2.2.2) hbackground⟩
    · intro tried hmem
      exact state_refine_tried hapart hnone hmem truth
    · intro ref href
      exact state_refine_untried hapart hnone href truth
    · rw [attemptsOf_refine, if_pos rfl]
    · intro other hne
      rw [attemptsOf_refine, if_neg hne, hafter, attemptsOf_foldl_tryInto_of_ne hne]
    · rw [asserted_refine, hafter, asserted_foldl_tryInto]

/-- Two locks tried at once, one taken if the result is true and one if it is false,
while a third waits for another result. The second lock was held before, and is so again
if it was not taken. -/
theorem tryAcquires_split_mixed :
    let first : Instance := ⟨.var "a", some ⟨0⟩⟩
    let second : Instance := ⟨.var "b", some ⟨0⟩⟩
    let third : Instance := ⟨.var "c", some ⟨0⟩⟩
    let tries : List BoundAttempt :=
      [⟨⟨first, .exclusive, "a"⟩, true⟩, ⟨⟨second, .shared, "b"⟩, false⟩]
    let env :=
      (empty.acquire second .exclusive).tryAcquire third .shared true ⟨some "rc", none⟩
    let after := env.apply { callee := "trylock", tryAcquires := tries } ⟨some "ok", none⟩
    (tries.map (·.clause.inst.ref)).Nodup ∧ env.attemptsOf "ok" = [] ∧
      after.state first.ref = .unknown ∧ after.state second.ref = .unknown ∧
      (after.refine "ok" true).state first.ref = .heldExclusive ∧
      (after.refine "ok" true).state second.ref = .heldExclusive ∧
      (after.refine "ok" false).state first.ref = .notHeld ∧
      (after.refine "ok" false).state second.ref = .heldShared ∧
      (after.refine "ok" false).attemptsOf "rc" = env.attemptsOf "rc" := by
  intro first second third tries env after
  have hapart : (tries.map (·.clause.inst.ref)).Nodup := by decide
  have hnone : env.attemptsOf "ok" = [] := by decide
  obtain ⟨hunknown, hsides⟩ := tryAcquires_split hapart hnone "trylock"
  obtain ⟨hyes, -⟩ := hsides true
  obtain ⟨hno, -, -, hothers, -⟩ := hsides false
  have hfirst : (⟨⟨first, .exclusive, "a"⟩, true⟩ : BoundAttempt) ∈ tries := by decide
  have hsecond : (⟨⟨second, .shared, "b"⟩, false⟩ : BoundAttempt) ∈ tries := by decide
  have hbefore :
      env.state first.ref = .notHeld ∧ env.state second.ref = .heldExclusive := by
    decide
  refine ⟨hapart, hnone, hunknown _ hfirst, hunknown _ hsecond,
    (hyes _ hfirst).trans (if_pos rfl), ?_, ?_,
    (hno _ hsecond).trans (if_pos rfl), hothers "rc" (by decide)⟩
  · rw [← hbefore.2]
    exact (hyes _ hsecond).trans (if_neg (by decide))
  · rw [← hbefore.1]
    exact (hno _ hfirst).trans (if_neg (by decide))

/-!
## A result that is known

Both changes written as one record. What differs is the assertion, and only the search
for leaks looks at assertions.
-/

theorem unassert_eq_self_iff {env : Env} {ref : Ref} :
    env.unassert ref = env ↔ env.isAsserted ref = false := by
  rw [isAsserted, ← FinMap.erase_eq_self_iff]
  constructor
  · intro h
    exact congrArg asserted h
  · intro h
    rw [unassert, h]

theorem set_forgetAttempts (env : Env) (inst : Instance) (state : HeldState) (ref : Ref) :
    (env.forgetAttempts ref).set inst state = (env.set inst state).forgetAttempts ref := by
  unfold set
  split <;> rfl

theorem get?_held_set_held (env : Env) (inst : Instance) (mode : Mode) :
    (env.set inst (.held mode)).held.get? inst.ref = some
      ⟨.held mode, inst.type?.or (env.type? inst.ref)⟩ := by
  rw [set, if_neg (HeldState.held_ne_notHeld mode), FinMap.get?_insert, if_pos rfl]

theorem tryAcquire_known (env : Env) (inst : Instance) (mode : Mode) (success : Bool)
    (local? : Option String) :
    env.tryAcquire inst mode success ⟨local?, some success⟩
      = (env.set inst (.held mode)).forgetAttempts inst.ref := by
  rw [← set_forgetAttempts]
  exact if_pos rfl

end Env

namespace BoundContract

variable {own : BoundContract} {env : Env} {ref : Ref} {fact : Fact}

/-- Without an assertion that it is held, a capability that the contract does not
declare is found. -/
theorem mem_leaks_unassert_iff (hfact : env.held.get? ref = some fact)
    {violation : Violation} :
    violation ∈ own.leaks (env.unassert ref) ↔
      violation ∈ own.leaks env ∨ ref ∉ own.declared ∧
      violation = ⟨.leaked own.callee ref fact.state, ""⟩ := by
  have hasserted (other : Ref) :
      (env.unassert ref).isAsserted other = false ↔
        other = ref ∨ env.isAsserted other = false := by
    by_cases h : other = ref <;> simp [Env.isAsserted, Env.unassert, FinMap.contains, h]
  rw [mem_leaks_iff, mem_leaks_iff]
  constructor
  · intro h
    obtain ⟨other, found, hfound, hfree, hdeclared, hcause⟩ := h
    rcases (hasserted other).1 hfree with rfl | hbefore
    · obtain rfl : fact = found := Option.some.inj (hfact.symm.trans hfound)
      exact .inr ⟨hdeclared, hcause.symm⟩
    · exact .inl ⟨other, found, hfound, hbefore, hdeclared, hcause⟩
  · intro h
    rcases h with ⟨other, found, hfound, hbefore, hdeclared, hcause⟩ | ⟨hdeclared, hcause⟩
    · exact ⟨other, found, hfound, (hasserted other).2 (.inr hbefore), hdeclared, hcause⟩
    · exact ⟨ref, fact, hfact, (hasserted ref).2 (.inl rfl), hdeclared, hcause.symm⟩

theorem leaks_unassert_of_declared (hdeclared : ref ∈ own.declared) :
    own.leaks (env.unassert ref) = own.leaks env := by
  unfold leaks
  refine congrArg _ (List.filter_congr fun entry _ => ?_)
  by_cases h : entry.1 = ref
  · simp [h, hdeclared]
  · simp [Env.isAsserted, Env.unassert, FinMap.contains, h]

theorem leaks_unassert_eq_iff (hfact : env.held.get? ref = some fact) :
    own.leaks (env.unassert ref) = own.leaks env ↔
      env.isAsserted ref = false ∨ ref ∈ own.declared := by
  constructor
  · intro h
    by_cases hdeclared : ref ∈ own.declared
    · exact .inr hdeclared
    · have hleak : ⟨.leaked own.callee ref fact.state, ""⟩ ∈ own.leaks env := by
        rw [← h]
        exact (mem_leaks_unassert_iff hfact).2 (.inr ⟨hdeclared, rfl⟩)
      obtain ⟨other, found, -, hfree, -, hcause⟩ := mem_leaks_iff.1 hleak
      obtain rfl : other = ref := by
        injection hcause with hcause
        injection hcause
      exact .inl hfree
  · intro h
    rcases h with hfree | hdeclared
    · rw [Env.unassert_eq_self_iff.2 hfree]
    · exact leaks_unassert_of_declared hdeclared

/-- Assertions matter at a return for what is found as a leak, and for nothing else. The
other findings are the same list, and come first. -/
theorem checkReturn_unassert (own : BoundContract) (env : Env) (ref : Ref)
    (returned : Option String) :
    ∃ others, own.checkReturn env returned = others ++ own.leaks env ∧
      own.checkReturn (env.unassert ref) returned = others
        ++ own.leaks (env.unassert ref) :=
  ⟨_, rfl, rfl⟩

end BoundContract

namespace Env

/-- **A try-acquire that is known to succeed is an acquisition that keeps an
assertion.** Apart from an earlier assertion that the capability is held, which stays,
the environment is the one after the acquisition. So the two are equal just if there was
none. A return finds after the acquisition what it finds after the try-acquire, and that
the capability is still held unless the contract declares it. It finds the same after
both just if there was no such assertion or the capability is declared. -/
theorem tryAcquire_known_iff (env : Env) (clause : BoundClause) (success : Bool)
    (local? : Option String) (callee : String) (result : CallResult) :
    let tried :=
      env.apply { callee, tryAcquires := [⟨clause, success⟩] } ⟨local?, some success⟩
    let acquired := env.apply { callee, acquires := [clause] } result
    acquired = tried.unassert clause.inst.ref ∧ tried.asserted = env.asserted ∧
      (tried = acquired ↔ env.isAsserted clause.inst.ref = false) ∧
      ∀ (own : BoundContract) (returned : Option String),
        (∀ violation, violation ∈ own.checkReturn acquired returned ↔
          violation ∈ own.checkReturn tried returned ∨ clause.inst.ref ∉ own.declared ∧
            violation = ⟨.leaked own.callee clause.inst.ref (.held clause.mode), ""⟩) ∧
        (own.checkReturn tried returned = own.checkReturn acquired returned ↔
          env.isAsserted clause.inst.ref = false ∨ clause.inst.ref ∈ own.declared) := by
  intro tried acquired
  have htried :
      tried = (env.set clause.inst (.held clause.mode)).forgetAttempts
        clause.inst.ref :=
    tryAcquire_known env clause.inst clause.mode success local?
  have hacquired : acquired = tried.unassert clause.inst.ref := by
    rw [htried]
    rfl
  have hasserted : tried.asserted = env.asserted := by
    rw [htried]
    exact asserted_set env clause.inst (.held clause.mode)
  have hsame : tried.isAsserted clause.inst.ref = env.isAsserted clause.inst.ref :=
    congrArg (·.contains clause.inst.ref) hasserted
  -- The hold itself is the same in both, so that only its mark can make a difference.
  have hfact : tried.held.get? clause.inst.ref
      = some ⟨.held clause.mode, clause.inst.type?.or (env.type? clause.inst.ref)⟩ := by
    rw [htried]
    exact get?_held_set_held env clause.inst clause.mode
  refine ⟨hacquired, hasserted, ?_, ?_⟩
  · rw [hacquired, ← hsame, ← unassert_eq_self_iff, eq_comm]
  · intro own returned
    obtain ⟨others, hreturn, hreturn'⟩ :=
      own.checkReturn_unassert tried clause.inst.ref returned
    rw [hacquired, hreturn, hreturn']
    constructor
    · intro violation
      rw [List.mem_append, List.mem_append, BoundContract.mem_leaks_unassert_iff hfact,
        or_assoc]
    · rw [List.append_cancel_left_eq, ← hsame,
        ← BoundContract.leaks_unassert_eq_iff hfact, eq_comm]

/-- The assertion was true of the lock then. The hold that a return would have to find
came later, and is taken for what was asserted. -/
theorem tryAcquire_hides_leak :
    let lock : Instance := ⟨.deref (.var "p"), some ⟨0⟩⟩
    let clause : BoundClause := ⟨lock, .exclusive, "l"⟩
    let env := empty.assert lock .exclusive
    let tried :=
      env.apply { callee := "trylock", tryAcquires := [⟨clause, true⟩] }
        ⟨some "ok", some true⟩
    let acquired := env.apply { callee := "lock", acquires := [clause] } ⟨none, none⟩
    let own : BoundContract := { callee := "probe" }
    tried ≠ acquired ∧ tried.state lock.ref = .heldExclusive ∧
    acquired.state lock.ref = .heldExclusive ∧
      own.checkReturn tried none = [] ∧
      own.checkReturn acquired none = [⟨.leaked "probe" lock.ref .heldExclusive, ""⟩] := by
  decide

end Env

end Custody
