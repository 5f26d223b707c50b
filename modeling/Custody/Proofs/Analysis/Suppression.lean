import Custody.Analysis.Block

/-!
# Code without checks

Checks are off in two ways: inside exempt blocks, which nest like the statements, and
inside regions between markers, which follow the path and are counted in the
environment. Markers are obeyed everywhere, in exempt blocks too, so the count can
change there and has to be put back at the end of each block.

`suppressed_unchanged` says that such code has no effect but on the count. An exempt
block leaves the environment as it was, whatever stands in it; statements that run with
a region open all the time change nothing but the number of open regions; and a region
that is closed again leaves no trace at all. All that is ever found in such code is
about the markers themselves.

The induction is over statements and lists of statements at once, with the number of
exempt blocks around them and the number of open regions both arbitrary
(`passes_runStmt`, `passes_runStmts`).

## The count

The number of open regions is a natural number here (`Env.suppression`) and has no upper
end. With a counter of 32 bits all of this holds as long as fewer than `2 ^ 32` regions
are open at a time: to open one more would fail, or bring the count back to zero and
turn checks on inside the region. `Region` and `StaysOpen` follow the count from
statement to statement, so the largest number of open regions on the way can be read off
from the statements alone.

## Why `Silent` beside `StaysOpen`

What the induction needs is that each statement which is up to the checks finds them off
(`Silent`). That is weaker than a region being open all the time: the marker that closes
the last region finds one open and leaves none. A whole region is silent for this
reason, although it does not stay open (`Region.silent`).
-/

set_option autoImplicit false

namespace Custody

/-!
## The number of open regions

It depends on markers only, so that it can be followed through statements without
running them.
-/

/-- The number of open regions after a marker. One that closes where nothing is open
changes nothing. -/
def Marker.depthAfter (depth : Nat) : Marker → Nat
  | .disable => depth + 1
  | .enable => depth - 1

namespace Stmt

/-- The marker a statement is. What stands in an exempt block does not count. -/
def marker? : Stmt → Option Marker
  | .simple _ action => action.marker?
  | .exempt _ _ => none

/-- The number of open regions after a statement. An exempt block puts it back. -/
def depthAfter (depth : Nat) (stmt : Stmt) : Nat :=
  match stmt.marker? with
  | some marker => marker.depthAfter depth
  | none => depth

def depthThrough (depth : Nat) (stmts : List Stmt) : Nat := stmts.foldl depthAfter depth

/-- At least `floor` regions are open before, between and after statements. With a
`floor` of one or more, all of them are without checks. -/
def StaysOpen (floor : Nat) : Nat → List Stmt → Prop
  | depth, [] => floor ≤ depth
  | depth, stmt :: rest => floor ≤ depth ∧ StaysOpen floor (stmt.depthAfter depth) rest

/-- Whether a statement is up to the checks: it is no marker and no exempt block. -/
def isChecked : Stmt → Bool
  | .simple _ action => action.marker?.isNone
  | .exempt _ _ => false

/-- Every statement that is up to the checks finds them off. Whether a statement does
depends on the markers before it, so this follows the number of open regions. -/
def Silent (exempt : Nat) : Nat → List Stmt → Prop
  | _, [] => True
  | depth, stmt :: rest =>
    (stmt.isChecked = true → checksEnabled exempt depth = false) ∧
      Silent exempt (stmt.depthAfter depth) rest

theorem silent_of_exempt (exempt depth : Nat) (stmts : List Stmt) :
    Silent (exempt + 1) depth stmts := by
  induction stmts generalizing depth with
  | nil => trivial
  | cons stmt rest ih => exact ⟨fun _ => by simp [checksEnabled], ih _⟩

theorem StaysOpen.silent {floor exempt depth : Nat} {stmts : List Stmt} (hfloor : 0 < floor)
    (h : StaysOpen floor depth stmts) : Silent exempt depth stmts := by
  induction stmts generalizing depth with
  | nil => trivial
  | cons stmt rest ih =>
    refine ⟨fun _ => ?_, ih h.2⟩
    have hopen : depth ≠ 0 := by
      have hdepth := h.1
      omega
    simp [checksEnabled, hopen]

theorem isChecked_of_marker? {stmt : Stmt} {marker : Marker}
    (h : stmt.marker? = some marker) :
    stmt.isChecked = false := by
  cases stmt with
  | simple line action => simp_all [marker?, isChecked]
  | exempt line body => rfl

/-- A marker after silent statements keeps them silent, whether or not checks are on
again. -/
theorem Silent.concat {exempt depth : Nat} {stmts : List Stmt} {last : Stmt}
    {marker : Marker} (h : Silent exempt depth stmts)
    (hlast : last.marker? = some marker) : Silent exempt depth (stmts ++ [last]) := by
  induction stmts generalizing depth with
  | nil => exact ⟨fun hchecked => by simp [isChecked_of_marker? hlast] at hchecked, trivial⟩
  | cons stmt rest ih => exact ⟨h.1, ih h.2⟩

theorem depthThrough_concat (depth : Nat) (stmts : List Stmt) (last : Stmt) :
    depthThrough depth (stmts ++ [last]) = last.depthAfter (depthThrough depth stmts) := by
  simp [depthThrough]

end Stmt

/-- Statements between two markers that open and close a region, where `depth` regions
are open before. They never close more regions than they opened, and in the end have
closed all of these. -/
structure Region (depth : Nat) where
  opening : Stmt
  body : List Stmt
  closing : Stmt
  opens : opening.marker? = some .disable
  closes : closing.marker? = some .enable
  stays : Stmt.StaysOpen (depth + 1) (depth + 1) body
  ends : Stmt.depthThrough (depth + 1) body = depth + 1

namespace Region

variable {depth : Nat} (region : Region depth)

def stmts : List Stmt := region.opening :: (region.body ++ [region.closing])

theorem depthAfter_opening : region.opening.depthAfter depth = depth + 1 := by
  simp [Stmt.depthAfter, region.opens, Marker.depthAfter]

/-- The last marker may turn checks on again, so it is no part of what stays open. -/
theorem silent (exempt : Nat) : Stmt.Silent exempt depth region.stmts := by
  refine ⟨fun hchecked => ?_, ?_⟩
  · simp [Stmt.isChecked_of_marker? region.opens] at hchecked
  · rw [region.depthAfter_opening]
    exact (region.stays.silent (Nat.succ_pos depth)).concat region.closes

theorem depthThrough_stmts : Stmt.depthThrough depth region.stmts = depth := by
  calc Stmt.depthThrough depth region.stmts
    _ = Stmt.depthThrough (depth + 1) (region.body ++ [region.closing]) := by
      simp only [stmts, Stmt.depthThrough, List.foldl_cons, region.depthAfter_opening]
    _ = region.closing.depthAfter (depth + 1) := by
      rw [Stmt.depthThrough_concat, region.ends]
    _ = depth := by simp [Stmt.depthAfter, region.closes, Marker.depthAfter]

end Region

/-!
## What passes through

`Passes` says of a result what is left of the environment, as one equation. It is stated
with `restoreRegions`, which sets the count, so that results compose by setting it
again.
-/

/-- All that was found is about markers. -/
def OnlyMarkers (findings : List Finding) : Prop :=
  ∀ finding ∈ findings, finding.cause.kind = .unbalancedSuppression

theorem OnlyMarkers.append {a b : List Finding} (ha : OnlyMarkers a)
    (hb : OnlyMarkers b) : OnlyMarkers (a ++ b) := by
  intro finding hmem
  rcases List.mem_append.1 hmem with hmem | hmem
  · exact ha finding hmem
  · exact hb finding hmem

/-- Nothing happened to an environment but that there are now `depth` open regions, and
nothing was found but about markers. -/
structure Passes (env : Env) (depth : Nat) (result : Env × List Finding) : Prop where
  env : result.1 = env.restoreRegions depth
  findings : OnlyMarkers result.2

namespace Passes

variable {env : Env} {first second : Env × List Finding}

theorem suppression {depth : Nat} (h : Passes env depth first) :
    first.1.suppression = depth := by
  rw [h.env]
  rfl

theorem cons {stmt : Stmt} {rest : List Stmt}
    (hfirst : Passes env (stmt.depthAfter env.suppression) first)
    (hrest : Passes first.1 (Stmt.depthThrough first.1.suppression rest) second) :
    Passes env (Stmt.depthThrough env.suppression (stmt :: rest))
      (second.1, first.2 ++ second.2) := by
  refine ⟨?_, hfirst.findings.append hrest.findings⟩
  rw [hrest.env, hfirst.suppression, hfirst.env]
  rfl

theorem env_eq (h : Passes env env.suppression first) : first.1 = env := h.env

end Passes

namespace Context

theorem passes_runMarker (env : Env) (marker : Marker) :
    Passes env (marker.depthAfter env.suppression) (runMarker env marker) := by
  cases marker with
  | disable => exact ⟨rfl, by simp [OnlyMarkers, runMarker]⟩
  | enable =>
    unfold runMarker Env.leaveRegion?
    cases hdepth : env.suppression with
    | zero =>
      refine ⟨?_, by simp [OnlyMarkers, Finding.overall, Cause.kind]⟩
      show env = { env with suppression := 0 }
      rw [← hdepth]
    | succ depth => exact ⟨rfl, by simp [OnlyMarkers]⟩

theorem passes_runAction (ctx : Context) {exempt : Nat} {env : Env} (site : Site)
    (line : Option Nat) {action : Action}
    (h : (Stmt.simple line action).isChecked = true →
      checksEnabled exempt env.suppression = false) :
    Passes env ((Stmt.simple line action).depthAfter env.suppression)
      (ctx.runAction exempt site env action) := by
  unfold runAction
  cases hmarker : action.marker? with
  | some marker =>
    simp only [Stmt.depthAfter, Stmt.marker?, hmarker]
    exact passes_runMarker env marker
  | none =>
    have hoff := h (by simp [Stmt.isChecked, hmarker])
    simp only [Stmt.depthAfter, Stmt.marker?, hmarker, hoff, Bool.false_eq_true, if_false]
    exact ⟨rfl, by simp [OnlyMarkers]⟩

/-- The end of an exempt block, whose body changed nothing but the number of open
regions: this is put back. -/
theorem passes_exempt {ctx : Context} {exempt depth : Nat} {env : Env} {site : Site}
    {line : Option Nat} {body : List Stmt}
    (h : Passes env depth
      (ctx.runStmts (exempt + 1) { site with line := line.or site.line } env body)) :
    Passes env env.suppression (ctx.runStmt exempt site env (.exempt line body)) := by
  simp only [runStmt]
  split
  · rename_i hsame
    rw [h.suppression] at hsame
    rw [← hsame]
    exact h
  · refine ⟨?_, ?_⟩
    · rw [h.env]
      rfl
    · exact h.findings.append (by simp [OnlyMarkers, Finding.overall, Cause.kind])

mutual

theorem passes_runStmt (ctx : Context) {exempt : Nat} (site : Site) {env : Env}
    (stmt : Stmt)
    (h : stmt.isChecked = true → checksEnabled exempt env.suppression = false) :
    Passes env (stmt.depthAfter env.suppression) (ctx.runStmt exempt site env stmt) := by
  cases stmt with
  | simple line action =>
    simp only [runStmt]
    exact ctx.passes_runAction _ line h
  | exempt line body =>
    exact passes_exempt
      (passes_runStmts ctx _ body (Stmt.silent_of_exempt exempt env.suppression body))

theorem passes_runStmts (ctx : Context) {exempt : Nat} (site : Site) {env : Env}
    (stmts : List Stmt) (h : Stmt.Silent exempt env.suppression stmts) :
    Passes env (Stmt.depthThrough env.suppression stmts)
      (ctx.runStmts exempt site env stmts) := by
  cases stmts with
  | nil =>
    simp only [runStmts]
    exact ⟨rfl, by simp [OnlyMarkers]⟩
  | cons stmt rest =>
    have hfirst := passes_runStmt ctx site stmt h.1
    have hrest := h.2
    rw [← hfirst.suppression] at hrest
    simp only [runStmts]
    exact hfirst.cons (passes_runStmts ctx site rest hrest)

end

/-- An exempt block needs no region around it. -/
theorem passes_runExempt (ctx : Context) (exempt : Nat) (site : Site) (env : Env)
    (line : Option Nat) (body : List Stmt) :
    Passes env env.suppression (ctx.runStmt exempt site env (.exempt line body)) :=
  ctx.passes_runStmt site (.exempt line body) (by simp [Stmt.isChecked])

theorem passes_runFrom (ctx : Context) (block index : Nat) {env : Env} {stmts : List Stmt}
    (h : Stmt.Silent 0 env.suppression stmts) :
    Passes env (Stmt.depthThrough env.suppression stmts)
      (ctx.runFrom block index env stmts) := by
  induction stmts generalizing index env with
  | nil => exact ⟨rfl, by simp [OnlyMarkers, runFrom]⟩
  | cons stmt rest ih =>
    have hfirst := ctx.passes_runStmt ⟨block, index, none⟩ stmt h.1
    have hrest := h.2
    rw [← hfirst.suppression] at hrest
    exact hfirst.cons (ih (index + 1) hrest)

/-- **Code without checks has no effect.** An exempt block, whatever stands in it,
leaves the environment as it was. Statements that always run with a region open change
nothing but the number of open regions. A region whose statements close what they
opened, and nothing else, leaves the environment as it was. All that is found on the way
is about markers. -/
theorem suppressed_unchanged (ctx : Context) (env : Env) (exempt : Nat) (site : Site)
    (block index : Nat) :
    (∀ line body, (ctx.runStmt exempt site env (.exempt line body)).1 = env ∧
      OnlyMarkers (ctx.runStmt exempt site env (.exempt line body)).2) ∧
    (∀ stmts, Stmt.StaysOpen 1 env.suppression stmts →
      Passes env (Stmt.depthThrough env.suppression stmts)
        (ctx.runStmts exempt site env stmts) ∧
      Passes env (Stmt.depthThrough env.suppression stmts)
        (ctx.runFrom block index env stmts)) ∧
    ∀ region : Region env.suppression,
      ((ctx.runStmts exempt site env region.stmts).1 = env ∧
        OnlyMarkers (ctx.runStmts exempt site env region.stmts).2) ∧
      (ctx.runFrom block index env region.stmts).1 = env ∧
        OnlyMarkers (ctx.runFrom block index env region.stmts).2 := by
  refine ⟨?_, ?_, ?_⟩
  · intro line body
    have hpasses := ctx.passes_runExempt exempt site env line body
    exact ⟨hpasses.env_eq, hpasses.findings⟩
  · intro stmts hstays
    exact ⟨ctx.passes_runStmts site stmts (hstays.silent Nat.one_pos),
      ctx.passes_runFrom block index (hstays.silent Nat.one_pos)⟩
  · intro region
    have hlist := ctx.passes_runStmts site region.stmts (region.silent exempt)
    have hblock := ctx.passes_runFrom block index (region.silent 0)
    rw [region.depthThrough_stmts] at hlist hblock
    exact ⟨⟨hlist.env_eq, hlist.findings⟩, hblock.env_eq, hblock.findings⟩

def nestedCtx : Context :=
  ofDecl default "unit" { (default : FunctionDecl) with locals := [⟨"x", "int"⟩] }

def nestedRegion : Region 0 where
  opening := .simple none .suppressBegin
  body := [.exempt none [.simple none .suppressEnd, .simple none (.assign "x" "1")],
    .simple none .suppressBegin, .simple none (.assign "x" "1"), .simple none .suppressEnd]
  closing := .simple none (.call "enable_capability_analysis" [] none)
  opens := rfl
  closes := rfl
  stays := by
    simp [Stmt.StaysOpen, Stmt.depthAfter, Stmt.marker?, Action.marker?,
      Marker.depthAfter]
  ends := rfl

/-- With checks on, the assignment alone has an effect. -/
theorem suppressed_unchanged_nested :
    (nestedCtx.runFrom 0 0 .empty [.simple none (.assign "x" "1")]).1 ≠ .empty ∧
    (nestedCtx.runStmt 0 ⟨0, 0, none⟩ .empty (.exempt none nestedRegion.body)).1 = .empty ∧
    Stmt.StaysOpen 1 Env.empty.enterRegion.suppression nestedRegion.body ∧
    Passes Env.empty.enterRegion 1
      (nestedCtx.runFrom 0 0 Env.empty.enterRegion nestedRegion.body) ∧
    (nestedCtx.runFrom 0 0 .empty nestedRegion.stmts).1 = .empty := by
  obtain ⟨hexempt, -, hregion⟩ := suppressed_unchanged nestedCtx .empty 0 ⟨0, 0, none⟩ 0 0
  obtain ⟨-, hopen, -⟩ :=
    suppressed_unchanged nestedCtx Env.empty.enterRegion 0 ⟨0, 0, none⟩ 0 0
  refine ⟨?_, (hexempt none nestedRegion.body).1, nestedRegion.stays,
    (hopen _ nestedRegion.stays).2, ?_⟩
  · decide +kernel
  · exact (hregion nestedRegion).2.1

end Context

end Custody
