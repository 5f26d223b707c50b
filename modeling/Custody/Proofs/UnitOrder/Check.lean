import Custody.Proofs.Report.Order
import Custody.Proofs.Renumber.Analysis
import Custody.Proofs.Table.Templates
import Custody.Proofs.UnitOrder.Guards

/-!
# Checks of units in another order

Where the declarations of a program agree, the order of its units matters in one
respect: a token can be declared only after its type has been, in its own unit or in one
that comes before. In every order that keeps to this, the table is the same but for the
numbers of the types (`Table.reordered`), so that every function is analyzed as before.
The diagnostics come in another order of units then, which the reporter undoes
(`Table.reportOn_perm`).

There are two reasons for this, and they are independent. That each unit gives the same
diagnostics is a matter of the table, and is proved for one unit at a time in
`Proofs/Renumber`. That the report is the same is a matter of the reporter: it sorts,
and of diagnostics with one key it keeps the first. Which one is first could depend on
the order of the units, if diagnostics of two units could have one key. They cannot,
because a key has the place in it and units have names of their own; so the first with a
key is the first in its unit (`find?_flatMap_located`).

The equality is between reports. Where a check has none, because the body of a function
is malformed or does not settle, both have none; but which of several such functions is
named depends on the order. That is why `Program.check_reordered` speaks of `.ok report`
and is an equivalence.

`check_order_matters` shows that neither of the two conditions on tokens can be dropped.
-/

set_option autoImplicit false

namespace Custody

def UnitOutcome.report (outcome : UnitOutcome) : Report :=
  .of outcome.analyzed (Reporter.empty.pushAll outcome.diagnostics).finish

namespace Table

/-!
## The table

A table is read from the units in three rounds, one for declarations, one for guards and
one for contracts. Each has its own file, and `build_clean_iff` takes a table without
errors apart into the three.
-/

variable {p q : Program} {table : Table}

theorem build_clean_iff :
    build p = .ok table ∧ table.errors = [] ↔
      table.decls = (Declarations.ofProgram p).1 ∧ (Declarations.ofProgram p).2 = [] ∧
      Guards.ofUnits table.decls [] p.units = .ok (table.guards, []) ∧
      Contracts.addDecls table.decls .empty (functionsOf p)
        = .ok (table.contracts, []) ∧
      table.errors = [] := by
  rw [build_eq_ok_iff]
  constructor
  · rintro ⟨⟨guardErrors, contractErrors, hdecls, hguards, hcontracts, herrors⟩, hnone⟩
    rw [hnone, eq_comm, List.append_eq_nil_iff, List.append_eq_nil_iff] at herrors
    obtain ⟨⟨hdeclared, rfl⟩, rfl⟩ := herrors
    exact ⟨hdecls, hdeclared, hguards, hcontracts, hnone⟩
  · rintro ⟨hdecls, hdeclared, hguards, hcontracts, hnone⟩
    exact ⟨⟨[], [], hdecls, hguards, hcontracts, by rw [hnone, hdeclared]; rfl⟩, hnone⟩

/-- **In another order of the units, the table is the same but for the numbers**, if
tokens still follow their types and mean the same. -/
theorem reordered (hcoherent : p.Coherent) (hperm : p.units.Perm q.units)
    (hbuild : build p = .ok table) (hclean : table.errors = [])
    (hfollow : TokensFollow [] (SourceUnit.capDecls q.units))
    (hsame : Declarations.SameTokens p q) :
    ∃ table', build q = .ok table' ∧ table'.errors = [] ∧
      ∃ ρ, table.Renumbered ρ table' := by
  obtain ⟨hdecls, hdeclared, hguards, hcontracts, -⟩ := build_clean_iff.1 ⟨hbuild, hclean⟩
  have hdeclared' : (Declarations.ofProgram q).2 = [] :=
    Declarations.addUnits_errors_eq_nil (hcoherent.perm hperm) hfollow
  have hrenumbered :=
    Declarations.renumbered_ofProgram hcoherent hperm hsame hdeclared hdeclared'
  rw [← hdecls] at hrenumbered
  obtain ⟨guards, hguards', hguard⟩ :=
    Guards.ofUnits_reordered hrenumbered hcoherent hperm hguards
  obtain ⟨contracts, hcontracts', hcontract⟩ :=
    Contracts.addDecls_reordered hrenumbered hcoherent hperm hcontracts
  let table' : Table := ⟨(Declarations.ofProgram q).1, guards, contracts, []⟩
  have hbuild' : build q = .ok table' ∧ table'.errors = [] :=
    build_clean_iff.2 ⟨rfl, hdeclared', hguards', hcontracts', rfl⟩
  exact ⟨table', hbuild'.1, hbuild'.2, _, hrenumbered, hcontract, hguard⟩

/-!
## The report

What the reporter makes of the diagnostics of all units.
-/

variable {severity : Severity} {units units' : List SourceUnit}

theorem location_of_analyzeFunction {unit : String} {decl : FunctionDecl}
    {outcome : UnitOutcome}
    (h : table.analyzeFunction severity unit decl = .ok outcome) :
    ∀ d ∈ outcome.diagnostics, d.location.unit = unit := by
  unfold analyzeFunction at h
  split at h
  · cases h
    simp
  · split at h
    · cases h
      simp
    · obtain ⟨result, -, heq⟩ := bind_eq_ok_iff.1 h
      cases heq
      simp [Finding.diagnostic]

theorem location_of_analyzeUnit {unit : SourceUnit} {outcome : UnitOutcome}
    (h : table.analyzeUnit severity unit = .ok outcome) :
    ∀ d ∈ outcome.diagnostics, d.location.unit = unit.name := by
  obtain ⟨outcomes, houtcomes, heq⟩ := bind_eq_ok_iff.1 h
  cases heq
  intro d hd
  obtain ⟨outcome, houtcome, hmem⟩ := List.mem_flatMap.1 hd
  have hone :
      Except.ok outcome ∈ unit.functions.map
        (table.analyzeFunction severity unit.name) := by
    rw [mapM_eq_ok_iff.1 houtcomes]
    exact List.mem_map_of_mem houtcome
  obtain ⟨decl, -, hdecl⟩ := List.mem_map.1 hone
  exact location_of_analyzeFunction hdecl d hmem

/-- The report on units, where no declaration is faulty and only the analysis has
something to report. -/
def reportOn (table : Table) (severity : Severity) (units : List SourceUnit) :
    Except Malformed Report := do
  return (gather (← units.mapM (table.analyzeUnit severity))).report

/-- The first diagnostic with a key is to be found in the unit that the key is located
in. -/
theorem find?_flatMap_located {given : SourceUnit → List Diagnostic}
    (hnames : (units.map (·.name)).Nodup)
    (hlocated : ∀ unit ∈ units, ∀ d ∈ given unit, d.location.unit = unit.name)
    (key : Diagnostic.Key) :
    (units.flatMap given).find? (·.key = key) =
      (units.find? (·.name = key.location.unit)).bind fun unit =>
        (given unit).find? (·.key = key) := by
  have hnone : ∀ unit ∈ units, unit.name ≠ key.location.unit →
      (given unit).find? (·.key = key) = none := by
    intro unit hunit hname
    refine List.find?_eq_none.2 fun d hd hkey => hname ?_
    rw [← hlocated unit hunit d hd, ← of_decide_eq_true hkey]
    rfl
  induction units with
  | nil => rfl
  | cons unit rest ih =>
    obtain ⟨hfresh, hrest⟩ := List.nodup_cons.1 hnames
    obtain ⟨hunit, hothers⟩ := List.forall_mem_cons.1 hlocated
    obtain ⟨hfirst, hlater⟩ := List.forall_mem_cons.1 hnone
    rw [List.flatMap_cons, List.find?_append, ih hrest hothers hlater]
    -- At most one unit has the name, and the others have nothing under the key.
    by_cases hname : unit.name = key.location.unit
    · have habsent : rest.find? (·.name = key.location.unit) = none := by
        refine List.find?_eq_none.2 fun other hother hsame => hfresh ?_
        exact List.mem_map.2 ⟨other, hother, (of_decide_eq_true hsame).trans hname.symm⟩
      rw [habsent, List.find?_cons_of_pos (by simpa using hname)]
      simp
    · rw [hfirst hname, List.find?_cons_of_neg (by simpa using hname)]
      rfl

theorem report_gather_perm {given : SourceUnit → UnitOutcome}
    (hperm : units.Perm units') (hnames : (units.map (·.name)).Nodup)
    (hlocated : ∀ unit ∈ units, ∀ d ∈ (given unit).diagnostics,
      d.location.unit = unit.name) :
    (gather (units.map given)).report = (gather (units'.map given)).report := by
  have hanalyzed :
      (gather (units.map given)).analyzed = (gather (units'.map given)).analyzed := by
    have : LeftCommutative fun (outcome : UnitOutcome) (n : Nat) => outcome.analyzed + n :=
      ⟨fun _ _ _ => Nat.add_left_comm ..⟩
    exact (hperm.map given).foldr_eq 0
  have hnames' : (units'.map (·.name)).Nodup := (hperm.map _).nodup_iff.1 hnames
  have hagreeing : Agreeing (·.name) units := fun a ha b hb =>
    List.inj_on_of_nodup_map hnames ha hb
  unfold UnitOutcome.report
  rw [hanalyzed, Reporter.finish_congr (Reporter.distinct_empty.pushAll _)
    (Reporter.distinct_empty.pushAll _)]
  intro key
  simp only [Reporter.find?_pushAll, Reporter.empty, List.nil_append, gather,
    List.flatMap_map]
  rw [find?_flatMap_located hnames hlocated, hagreeing.find?_perm hperm,
    find?_flatMap_located hnames' fun unit hunit => hlocated unit (hperm.mem_iff.2 hunit)]

/-- **The report does not depend on the order of the units**, where the table is the
same for both. Each unit is analyzed by itself. -/
theorem reportOn_perm (hperm : units.Perm units') (hnames : (units.map (·.name)).Nodup)
    {report : Report} (h : table.reportOn severity units = .ok report) :
    table.reportOn severity units' = .ok report := by
  obtain ⟨outcomes, houtcomes, heq⟩ := bind_eq_ok_iff.1 h
  have hall : ∀ unit, ∃ outcome, unit ∈ units →
      table.analyzeUnit severity unit = .ok outcome := by
    intro unit
    by_cases hunit : unit ∈ units
    · have hmem : table.analyzeUnit severity unit ∈ outcomes.map .ok := by
        rw [← mapM_eq_ok_iff.1 houtcomes]
        exact List.mem_map_of_mem hunit
      obtain ⟨outcome, -, houtcome⟩ := List.mem_map.1 hmem
      exact ⟨outcome, fun _ => houtcome.symm⟩
    · exact ⟨default, fun h => absurd h hunit⟩
  -- What each unit gives, as a function: both orders map it over their units.
  choose given hgiven using hall
  have hrun : ∀ us : List SourceUnit, (∀ unit ∈ us, unit ∈ units) →
      us.mapM (table.analyzeUnit severity) = .ok (us.map given) := by
    intro us hus
    rw [mapM_eq_ok_iff, List.map_map]
    exact List.map_congr_left fun unit hunit => hgiven unit (hus unit hunit)
  have houtcomes' : outcomes = units.map given := by
    rw [hrun units fun _ => id] at houtcomes
    exact (Except.ok.inj houtcomes).symm
  have hreport := report_gather_perm hperm hnames fun unit hunit =>
    location_of_analyzeUnit (hgiven unit hunit)
  rw [reportOn, hrun units' fun unit => hperm.mem_iff.2, ok_bind, ← hreport, ← houtcomes']
  exact heq

end Table

namespace Program

variable {p q : Program} {table : Table}

theorem check_of_clean (hbuild : Table.build p = .ok table) (hclean : table.errors = [])
    (settings : Settings) :
    p.check settings =
      if settings.enabled then
        table.reportOn (.ofPolicy settings.treatAsFatal)
          (p.units.filter fun unit => settings.coverage = .all || unit.optedIn)
      else .ok (.of 0 []) := by
  unfold check
  cases settings.enabled with
  | false => rfl
  | true =>
    have hcovers : table.covers settings.coverage = fun unit =>
      settings.coverage = .all || unit.optedIn := by
      funext unit
      simp [Table.covers, Table.isClean, hclean]
    simp only [Bool.not_true, Bool.false_eq_true, if_false, if_true, hbuild, ok_bind,
      hcovers, hclean]
    rfl

/-- **The order of units matters only as far as tokens have to follow their types.**
Take a program whose declarations agree with each other and that has no declaration
error, and its units in another order. Without a declaration error, each token follows
its type there as well. If it does, and tokens mean the same, there is no declaration
error, and the program gets the same reports, or likewise none. Tokens do mean the same
if none has the name of another token type. -/
theorem check_reordered (hcoherent : p.Coherent) (hperm : p.units.Perm q.units)
    (hbuild : Table.build p = .ok table) (hclean : table.errors = []) :
    (∀ table', Table.build q = .ok table' → table'.errors = [] →
      TokensFollow [] (SourceUnit.capDecls q.units)) ∧
    (Declarations.TokensApart p → Declarations.SameTokens p q) ∧
    (TokensFollow [] (SourceUnit.capDecls q.units) → Declarations.SameTokens p q →
      (∃ table', Table.build q = .ok table' ∧ table'.errors = []) ∧
      ∀ settings report, q.check settings = .ok report ↔
        p.check settings = .ok report) := by
  refine ⟨?_, Declarations.sameTokens hcoherent hperm, ?_⟩
  · intro table' hbuild' hclean'
    obtain ⟨-, hdeclared, -⟩ := Table.build_clean_iff.1 ⟨hbuild', hclean'⟩
    exact Declarations.tokensFollow_of_addUnits hdeclared
  · intro hfollow hsame
    obtain ⟨table', hbuild', hclean', ρ, hrenumbered⟩ :=
      Table.reordered hcoherent hperm hbuild hclean hfollow hsame
    refine ⟨⟨table', hbuild', hclean'⟩, ?_⟩
    intro settings report
    rw [check_of_clean hbuild hclean, check_of_clean hbuild' hclean']
    split
    · -- First the table is exchanged, which leaves the units alone, and then the units
      -- are reordered with one table.
      have hreport : ∀ units, table'.reportOn (.ofPolicy settings.treatAsFatal) units =
          table.reportOn (.ofPolicy settings.treatAsFatal) units := by
        intro units
        simp only [Table.reportOn, funext (hrenumbered.analyzeUnit _)]
      rw [hreport]
      have hcovered := hperm.filter fun unit => settings.coverage = .all || unit.optedIn
      have hnames := hcoherent.units.sublist
        ((List.filter_sublist
          (p := fun unit => settings.coverage = .all || unit.optedIn)).map SourceUnit.name)
      have hnames' := (hcovered.map SourceUnit.name).nodup_iff.1 hnames
      exact ⟨Table.reportOn_perm hcovered.symm hnames', Table.reportOn_perm hcovered hnames⟩
    · rfl

def rcuUnit : SourceUnit := ⟨"rcu.c", true, [⟨"rcu", true⟩], [], [], [], []⟩

def readUnit : SourceUnit := ⟨"read.c", true, [], [⟨"rcu_read", "rcu"⟩], [], [], []⟩

/-- Promises to acquire the token, and does not. -/
def enterUnit : SourceUnit :=
  let enter :=
    FunctionDecl.mk "enter" false false [] ["__acquires(rcu_read)"]
      [] (some ⟨0, [⟨[], .leave none⟩]⟩)
  ⟨"enter.c", true, [], [], [], [], [enter]⟩

/-- Declares a type of locks, and misses one. -/
def lockUnit : SourceUnit :=
  let update := FunctionDecl.mk "update" false false [⟨"l", "spinlock_t *"⟩]
    ["__must_hold(l)"] [] none
  let tick := FunctionDecl.mk "tick" false false [⟨"l", "spinlock_t *"⟩] [] []
    (some ⟨0, [⟨[.simple none (.call "update" ["l"] none)], .leave none⟩]⟩)
  ⟨"lock.c", true, [⟨"spinlock_t", false⟩], [], [], [], [update, tick]⟩

/-- Units in another order, with a token behind its type in both, and two functions with
findings. -/
theorem check_reordered_lockUnit :
    ∃ report, check ⟨[enterUnit, rcuUnit, lockUnit, readUnit]⟩ {} = .ok report ∧
      check ⟨[lockUnit, enterUnit, rcuUnit, readUnit]⟩ {} = .ok report ∧
      report.summary.analyzed = 2 := by
  have hcheck :
      (check ⟨[lockUnit, enterUnit, rcuUnit, readUnit]⟩ {}).toOption.map
        (·.summary.analyzed) = some 2 := by
    decide +kernel
  have hclean :
      (Table.build ⟨[lockUnit, enterUnit, rcuUnit, readUnit]⟩).toOption.map (·.errors) =
        some [] := by
    decide +kernel
  obtain ⟨report, hreport, hanalyzed⟩ := Option.map_eq_some_iff.1 hcheck
  obtain ⟨table, hbuild, herrors⟩ := Option.map_eq_some_iff.1 hclean
  have hcoherent : Coherent ⟨[lockUnit, enterUnit, rcuUnit, readUnit]⟩ := by
    constructor <;> decide
  obtain ⟨-, hsame, hreordered⟩ :=
    check_reordered (q := ⟨[enterUnit, rcuUnit, lockUnit, readUnit]⟩) hcoherent
    (.trans (.swap ..) (.cons _ (.swap ..))) (toOption_eq_some_iff.1 hbuild) herrors
  have hcheck' := (hreordered (by decide) (hsame (by decide))).2 {} report
  exact ⟨report, hcheck'.2 (toOption_eq_some_iff.1 hreport),
    toOption_eq_some_iff.1 hreport, hanalyzed⟩

/-- Declares a type of tokens under the name of the token. -/
def clashUnit : SourceUnit := ⟨"clash.c", true, [⟨"rcu_read", true⟩], [], [], [], []⟩

/-- Acquires the token, releases something of type `rcu`, and releases the token. -/
def dropUnit : SourceUnit :=
  let call (callee : String) (args : List String) : Stmt :=
    .simple none (.call callee args none)
  let get := FunctionDecl.mk "get" false false [] ["__acquires(rcu_read)"] [] none
  let put := FunctionDecl.mk "put" false false [] ["__releases(rcu_read)"] [] none
  let drop := FunctionDecl.mk "drop" false false [⟨"r", "rcu *"⟩] ["__releases(r)"] [] none
  let probe := FunctionDecl.mk "probe" false false [] [] []
    (some ⟨0, [⟨[call "get" [], call "drop" ["opaque"], call "put" []], .leave none⟩]⟩)
  ⟨"drop.c", true, [], [], [], [], [get, put, drop, probe]⟩

/-- A token before its type is an error. And of a token and a token type of one name the
last counts, so that with all types declared in time, a call can release more in one
order than in another. -/
theorem check_order_matters :
    (Coherent ⟨[rcuUnit, readUnit]⟩ ∧
      (Table.build ⟨[rcuUnit, readUnit]⟩).toOption.map (·.errors) = some [] ∧
      (Table.build ⟨[readUnit, rcuUnit]⟩).toOption.map (·.errors.map (·.unit))
        = some ["read.c"]) ∧
    (Coherent ⟨[rcuUnit, readUnit, clashUnit, dropUnit]⟩ ∧
      ((Table.build ⟨[rcuUnit, readUnit, clashUnit, dropUnit]⟩).toOption.bind fun table =>
        (table.analyzeUnit .warning dropUnit).toOption.map fun outcome =>
          (table.errors, outcome.diagnostics.length)) = some ([], 0) ∧
      ((Table.build ⟨[clashUnit, rcuUnit, readUnit, dropUnit]⟩).toOption.bind fun table =>
        (table.analyzeUnit .warning dropUnit).toOption.map fun outcome =>
          (table.errors, outcome.diagnostics.length)) = some ([], 1)) := by
  refine ⟨⟨by constructor <;> decide, by decide +kernel, by decide +kernel⟩,
    by constructor <;> decide, ?_, ?_⟩ <;>
    decide +kernel

end Program

end Custody
