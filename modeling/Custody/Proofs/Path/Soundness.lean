import Custody.Proofs.Analysis.Fixpoint
import Custody.Proofs.Path.Reports

/-!
# Soundness along paths

On plain bodies the analysis is right about every execution: at each point that one
reaches, the environment that the analysis has there describes the store
(`follows_of_reaches`), and whatever the execution owes and does not meet has a finding
where it is owed (`analyze_sound`).

The argument is an induction along the execution. Statements and branches keep the
description. Recorded entry environments are a post-fixed point, so what a block sends
on is below what is recorded for its successor, and above is right if below is.

Nothing is assumed about how the entry environments were found. `Covering` is all that
the induction needs, and any entries that cover what flows would do; that the analysis
finds such entries is the theorem about fixed points.

The environment at a point is computed from the entry environment of its block
(`envAt`), once more and independently of the findings. That findings are recorded on
the same way is `mem_runFrom_of_stmt`: a block is run from its beginning to its end, and
what is found at a statement is found in the environment that `envAt` has there.

## What is not claimed

There may be findings where no execution fails. A join forgets, and a block is checked
for all that may flow into it at once. Nor does the theorem speak of bodies that are
given up on, or of statements that are not plain. With pointers that are assigned, or
that may lead to one object, environments can claim what is not so
(`Proofs/Analysis/OldValue`, `Proofs/Env/Effects`).
-/

set_option autoImplicit false

namespace Custody

namespace Context

variable {ctx : Context} {env : Env} {store : Store}

/-!
## Along the statements of a block

The run of a block, cut at a statement.
-/

theorem runFrom_append (ctx : Context) (block index : Nat) (env : Env)
    (first rest : List Stmt) :
    ctx.runFrom block index env (first ++ rest)
      = ((ctx.runFrom block (index + first.length)
            (ctx.runFrom block index env first).1 rest).1,
          (ctx.runFrom block index env first).2 ++
            (ctx.runFrom block (index + first.length)
              (ctx.runFrom block index env first).1 rest).2) := by
  induction first generalizing index env with
  | nil => rfl
  | cons stmt first ih =>
    simp only [List.cons_append, runFrom, ih, List.length_cons, List.append_assoc]
    rw [show index + 1 + first.length = index + (first.length + 1) by omega]

/-- The environment that the analysis has at a point, from the entry environment of its
block. -/
def envAt (ctx : Context) (body : Body) (entries : FinMap Nat Env) (block stmt : Nat) :
    Option Env := do
  let code ← body.blocks[block]?
  let env ← entries.get? block
  return (ctx.runFrom block 0 env (code.stmts.take stmt)).1

section Block

variable {body : Body} {entries : FinMap Nat Env} {block index : Nat} {code : Block}
  {entry : Env}

theorem envAt_eq_some_iff {env : Env} :
    ctx.envAt body entries block index = some env ↔
      ∃ code entry, body.blocks[block]? = some code ∧ entries.get? block = some entry ∧
        (ctx.runFrom block 0 entry (code.stmts.take index)).1 = env := by
  simp [envAt, Option.bind_eq_some_iff]

theorem envAt_zero (hblock : block < body.blocks.length)
    (hentry : entries.get? block = some entry) :
    ctx.envAt body entries block 0 = some entry :=
  envAt_eq_some_iff.2 ⟨body.blocks[block], entry, List.getElem?_eq_getElem hblock,
    hentry, rfl⟩

theorem runFrom_take_succ (entry : Env) {stmt : Stmt}
    (hstmt : code.stmts[index]? = some stmt) :
    ctx.runFrom block 0 entry (code.stmts.take (index + 1))
      = ((ctx.runStmt 0 ⟨block, index, none⟩
            (ctx.runFrom block 0 entry (code.stmts.take index)).1 stmt).1,
        (ctx.runFrom block 0 entry (code.stmts.take index)).2 ++
          (ctx.runStmt 0 ⟨block, index, none⟩
            (ctx.runFrom block 0 entry (code.stmts.take index)).1 stmt).2) := by
  have hlt : index < code.stmts.length := (List.getElem?_eq_some_iff.1 hstmt).1
  have htake : code.stmts.take (index + 1) = code.stmts.take index ++ [stmt] := by
    rw [List.take_add_one, hstmt]
    rfl
  rw [htake, runFrom_append, List.length_take, Nat.min_eq_left (Nat.le_of_lt hlt),
    Nat.zero_add]
  simp [runFrom]

theorem mem_runFrom_of_stmt (entry : Env) {stmt : Stmt}
    (hstmt : code.stmts[index]? = some stmt) {finding : Finding}
    (h : finding ∈ (ctx.runStmt 0 ⟨block, index, none⟩
      (ctx.runFrom block 0 entry (code.stmts.take index)).1 stmt).2) :
    finding ∈ (ctx.runFrom block 0 entry code.stmts).2 := by
  have hsplit := ctx.runFrom_append block 0 entry (code.stmts.take (index + 1))
    (code.stmts.drop (index + 1))
  rw [List.take_append_drop] at hsplit
  rw [hsplit, runFrom_take_succ entry hstmt]
  exact List.mem_append_left _ (List.mem_append_right _ h)

end Block

/-! ## Along an execution -/

/-- Entry environments that cover whatever flows into their blocks. Their blocks are
among those that are visited, so that what is found in them is recorded. -/
structure Covering (ctx : Context) (body : Body) (entries : FinMap Nat Env) : Prop where
  visited : ∀ {block env}, entries.get? block = some env → block ∈ body.order
  entry : ∃ env, entries.get? body.entry = some env ∧ env.Covers ctx.entryEnv
  flow : ∀ {block env}, entries.get? block = some env →
    ∀ target out, (target, out) ∈ (ctx.runIndex body block env).1 →
      ∃ env', entries.get? target = some env' ∧ env'.Covers out

theorem covering_of_entries {body : Body} (hbody : body.WellFormed) {limit visits : Nat}
    {entries : FinMap Nat Env} (h : ctx.entries body limit = .ok (entries, visits)) :
    ctx.Covering body entries := by
  obtain ⟨last, hlast, hend, -, rfl, -⟩ := (entries_eq_ok_iff hbody).1 h
  have hsound := sound_of_leads hbody hlast
  have hpostFixed := postFixed_of_leads hbody hlast hend
  refine ⟨hsound.entries_mem, ?_, ?_⟩
  · obtain ⟨env, henv, hbelow⟩ := hpostFixed.entry
    exact ⟨env, henv, Env.covers_of_below (canonical_entryEnv ctx)
      (hsound.entries_good henv) hbelow⟩
  · intro block env henv target out hflow
    obtain ⟨env', henv', hbelow⟩ := hpostFixed.flow henv target out hflow
    have hout := canonical_of_mem_runIndex (hsound.entries_good henv) hflow
    exact ⟨env', henv', Env.covers_of_below hout (hsound.entries_good henv') hbelow⟩

theorem describes_entryEnv (ctx : Context) (truth : String → Bool) :
    ctx.entryEnv.Describes (ctx.startStore truth) := by
  -- Nothing is attempted yet, so that a state can be set without a word about attempts.
  have hall : ∀ (clauses : List BoundClause) {env : Env} {store : Store},
      env.Describes store → (∀ name, env.attemptsOf name = []) →
      (clauses.foldl
          (fun env clause => env.set clause.inst (.held clause.mode)) env).Describes
        (clauses.foldl
          (fun store clause => store.acquire clause.inst.ref clause.mode) store) := by
    intro clauses
    induction clauses with
    | nil => exact fun h _ => h
    | cons clause rest ih =>
      intro env store h hnone
      refine ih (h.update (fun {name attempt} hmem => ?_) rfl (.inr ?_)
        fun other hne => ?_) fun name => ?_
      · rw [hnone] at hmem
        cases hmem
      · rw [Store.state_acquire, if_pos rfl]
      · rw [Store.state_acquire, if_neg hne]
      · rw [Env.attemptsOf_set, hnone]
  exact hall _ (Env.describes_empty truth) fun _ => rfl

section Execution

variable {body : Body} {entries : FinMap Nat Env}

/-- The analysis has an environment at a point of an execution, and it describes the
store. That there is one is part of what is proved: no execution comes to a block that
the analysis has not seen. -/
def Follows (ctx : Context) (body : Body) (entries : FinMap Nat Env) (point : Point) :
    Prop :=
  ∃ env, ctx.envAt body entries point.block point.stmt = some env ∧
    env.Describes point.store

/-- **Every step of an execution is followed.** Within a block the analysis does the
same step; at a jump it comes to an environment that covers the one it has. -/
theorem follows_step (hplain : ctx.PlainBody body) (hbody : body.WellFormed)
    (hcovering : ctx.Covering body entries) {a b : Point} (h : ctx.Follows body entries a)
    (hstep : ctx.Step body a b) : ctx.Follows body entries b := by
  obtain ⟨env, henv, hdescribes⟩ := h
  obtain ⟨code, entry, hcode, hentry, rfl⟩ := envAt_eq_some_iff.1 henv
  cases hstep with
  | stmt hcode' hstmt hdoes =>
    rw [hcode] at hcode'
    cases hcode'
    have hstmtPlain :=
      hplain code (List.mem_of_getElem? hcode) _ (List.mem_of_getElem? hstmt)
    refine ⟨_, envAt_eq_some_iff.2 ⟨code, entry, hcode, hentry, rfl⟩, ?_⟩
    rw [runFrom_take_succ entry hstmt, runStmt_eq hdescribes.steering hstmtPlain]
    exact describes_runChecked hdescribes hstmtPlain hdoes
  | @jump block target _ store hcode' hgoes =>
    rw [hcode] at hcode'
    cases hcode'
    rw [List.take_length] at hdescribes
    obtain ⟨out, hflow, hout⟩ := exists_flow hdescribes hgoes
    have hrun : (target, out) ∈ (ctx.runIndex body block entry).1 := by
      simp only [runIndex, hcode, runBlock]
      exact hflow
    -- The successor may know less than what was sent to it, since other paths lead
    -- there too.
    obtain ⟨entry', hentry', hcovers⟩ := hcovering.flow hentry target out hrun
    have htarget : target < body.blocks.length := by
      refine hbody.target_lt code (List.mem_of_getElem? hcode) target ?_
      have hsuccessor := mem_successors_of_mem_runIndex hrun
      simpa [Body.successors, hcode] using hsuccessor
    exact ⟨_, envAt_zero htarget hentry', hout.of_covers hcovers⟩

/-- **So is every execution.** The induction is on its steps; at the start the entry
environment describes the store that the contract allows. -/
theorem follows_of_reaches (hplain : ctx.PlainBody body) (hbody : body.WellFormed)
    (hcovering : ctx.Covering body entries) {point : Point} (h : ctx.Reaches body point) :
    ctx.Follows body entries point := by
  obtain ⟨truth, hsteps⟩ := h
  induction hsteps with
  | refl =>
    obtain ⟨entry, hentry, hcovers⟩ := hcovering.entry
    exact ⟨_, envAt_zero hbody.entry_lt hentry,
      (ctx.describes_entryEnv truth).of_covers hcovers⟩
  | tail _ hstep ih => exact follows_step hplain hbody hcovering ih hstep

theorem mem_record {block : Nat} {entry : Env} {finding : Finding}
    (hcovering : ctx.Covering body entries) (hentry : entries.get? block = some entry)
    (h : finding ∈ (ctx.runIndex body block entry).2) :
    finding ∈ ctx.record body entries := by
  refine List.mem_flatMap.2 ⟨block, hcovering.visited hentry, ?_⟩
  rw [hentry]
  exact h

theorem reported_of_owes (hplain : ctx.PlainBody body)
    (hcovering : ctx.Covering body entries) {block stmt : Nat} {line : Option Nat}
    {env : Env} {store : Store} {demand : Demand} {clause : String}
    (henv : ctx.envAt body entries block stmt = some env)
    (hdescribes : env.Describes store)
    (howes : ctx.Owes body ⟨block, stmt, line⟩ demand clause)
    (hunmet : ¬ demand.Met store)
    (hknown : demand.isLenient = true → env.state demand.ref ≠ .unknown) :
    ∃ finding ∈ ctx.record body entries, finding.site? = some ⟨block, stmt, line⟩ ∧
      finding.clause = clause ∧ finding.cause.ref? = some demand.ref := by
  obtain ⟨code, entry, hcode, hentry, rfl⟩ := envAt_eq_some_iff.1 henv
  cases howes with
  | stmt hcode' hstmt hasks =>
    rw [hcode] at hcode'
    cases hcode'
    have hstmtPlain :=
      hplain code (List.mem_of_getElem? hcode) _ (List.mem_of_getElem? hstmt)
    obtain ⟨violation, hmem, hclause, href⟩ :=
      reported_runChecked hdescribes hasks hunmet hknown
    refine ⟨violation.at ⟨block, stmt, line⟩, mem_record hcovering hentry ?_, rfl,
      hclause, href⟩
    have hfinding :
        violation.at ⟨block, stmt, line⟩ ∈ (ctx.runFrom block 0 entry code.stmts).2 := by
      refine mem_runFrom_of_stmt entry hstmt ?_
      rw [runStmt_eq hdescribes.steering hstmtPlain]
      exact List.mem_map.2 ⟨violation, hmem, rfl⟩
    simp only [runIndex, hcode, runBlock]
    exact List.mem_append_left _ (List.mem_append_right _ hfinding)
  | leave hcode' hterm hasks =>
    rw [hcode] at hcode'
    cases hcode'
    rw [List.take_length] at hdescribes hknown
    obtain ⟨violation, hmem, hclause, href⟩ :=
      reported_checkReturn hdescribes hasks hunmet hknown
    refine ⟨violation.at ⟨block, code.stmts.length, none⟩,
      mem_record hcovering hentry ?_, rfl, hclause, href⟩
    -- No region is open, so the return is checked against the contract.
    have hregions : (ctx.runFrom block 0 entry code.stmts).1.suppression = 0 :=
      congrArg Prod.snd hdescribes.steering
    have hfinding : violation.at ⟨block, code.stmts.length, none⟩ ∈
        ctx.checkLeaving ⟨block, code.stmts.length, none⟩
          (ctx.runFrom block 0 entry code.stmts).1 code.term := by
      simp only [checkLeaving, hterm, hregions]
      exact List.mem_map.2 ⟨violation, hmem, rfl⟩
    simp only [runIndex, hcode, runBlock]
    exact List.mem_append_right _ hfinding

end Execution

/-- **The analysis of a plain body is right about every execution.** At every point that
an execution reaches there is an environment, from the entry environments that findings
are recorded from, and it describes the store: states that are not unknown, constants
and attempts are as the execution has them. And whatever the execution owes there and
does not meet, a finding says so at that very place; only where a state is unknown may a
capability be acquired twice unnoticed. -/
theorem analyze_sound {body : Body} {limit : Nat} {outcome : Outcome}
    (hplain : ctx.PlainBody body) (h : ctx.analyzeWithin body limit = .ok outcome) :
    ∃ entries, ctx.entries body limit = .ok (entries, outcome.visits) ∧
      outcome.findings = ctx.record body entries ∧
      ∀ point, ctx.Reaches body point →
        ∃ env, ctx.envAt body entries point.block point.stmt = some env ∧
          env.Describes point.store ∧
          ∀ line demand clause,
          ctx.Owes body ⟨point.block, point.stmt, line⟩ demand clause →
            ¬ demand.Met point.store →
            (demand.isLenient = true ∧ env.state demand.ref = .unknown) ∨
              ∃ finding ∈ outcome.findings,
                finding.site? = some ⟨point.block, point.stmt, line⟩ ∧
                finding.clause = clause ∧ finding.cause.ref? = some demand.ref := by
  obtain ⟨hbody, entries, hentries, hfindings, -⟩ := analyzeWithin_eq_ok_iff.1 h
  have hcovering := covering_of_entries hbody hentries
  refine ⟨entries, hentries, hfindings, fun point hreaches => ?_⟩
  obtain ⟨env, henv, hdescribes⟩ := follows_of_reaches hplain hbody hcovering hreaches
  refine ⟨env, henv, hdescribes, fun line demand clause howes hunmet => ?_⟩
  by_cases hdoubt : demand.isLenient = true ∧ env.state demand.ref = .unknown
  · exact .inl hdoubt
  · rw [hfindings]
    refine .inr (reported_of_owes hplain hcovering henv hdescribes howes hunmet ?_)
    exact fun hlenient hunknown => hdoubt ⟨hlenient, hunknown⟩

def spinDecl : FunctionDecl :=
  { (default : FunctionDecl) with
    name := "spin"
    locals := [⟨"lock", "spinlock_t"⟩, ⟨"ok", "int"⟩, ⟨"done", "int"⟩] }

/-- It tries to acquire its lock until a copy of the result says that it has it, and
returns with it. -/
def spinBody : Body :=
  ⟨0, [⟨[.simple none (.call "__cond_acquire" ["&lock"] (some "ok")),
    .simple none (.assign "done" "ok")],
      .branch (.holds "done") 1 0⟩,
    ⟨[], .leave none⟩]⟩

/-- Every execution that leaves the loop has the lock, and the return is told off for
it. -/
theorem analyze_sound_spinBody :
    (ofDecl default "unit" spinDecl).PlainBody spinBody ∧
      (ofDecl default "unit" spinDecl).analyze spinBody
        = .ok ⟨[⟨some ⟨1, 0, none⟩, .leaked "spin" (.var "lock") .heldExclusive, ""⟩],
          2, 2⟩ ∧
      ∀ store, (ofDecl default "unit" spinDecl).Reaches spinBody ⟨1, 0, store⟩ →
        store.held (.var "lock") = some .exclusive := by
  have hplain : (ofDecl default "unit" spinDecl).PlainBody spinBody := by
    have htruth : (ofDecl default "unit" spinDecl).IsTruth "ok" :=
      ⟨.ident "ok", by decide +kernel,
        .inr ⟨"ok", CType.parse "int", rfl, by decide +kernel, by decide +kernel⟩⟩
    intro block hblock stmt hstmt
    simp only [spinBody, List.mem_cons, List.not_mem_nil, or_false] at hblock
    rcases hblock with rfl | rfl
    · simp only [List.mem_cons, List.not_mem_nil, or_false] at hstmt
      rcases hstmt with rfl | rfl
      · exact ⟨by decide +kernel, by decide +kernel, fun _ => by decide +kernel⟩
      · exact fun _ => htruth
    · cases hstmt
  have hok : (ofDecl default "unit" spinDecl).analyze spinBody
      = .ok ⟨[⟨some ⟨1, 0, none⟩, .leaked "spin" (.var "lock") .heldExclusive, ""⟩],
        2, 2⟩ := by
    decide +kernel
  refine ⟨hplain, hok, fun store hreaches => ?_⟩
  obtain ⟨entries, hentries, -, hsound⟩ := analyze_sound hplain hok
  obtain ⟨env, henv, hdescribes, -⟩ := hsound _ hreaches
  have hstate :
      (((ofDecl default "unit" spinDecl).entries spinBody changeLimit).toOption.bind
        fun result =>
          ((ofDecl default "unit" spinDecl).envAt spinBody result.1 1 0).bind
            fun env => (env.state (.var "lock")).mode?) = some .exclusive := by
    decide +kernel
  rw [hentries] at hstate
  simp only [Except.toOption, Option.bind_some, henv] at hstate
  exact held_of_mode? hdescribes hstate

end Context

end Custody
