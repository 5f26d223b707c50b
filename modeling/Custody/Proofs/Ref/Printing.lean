import Custody.Expr.Lowering
import Custody.Proofs.Baseline.Fingerprint
import Custody.Proofs.Expr.Printing
import Custody.Report.Basic

/-!
# References that are printed

References have a printer of their own. What it writes is the printed form of an
expression (`Ref.toExpr`), so the parser reads that expression back, and where each name
stands for the object a reference may start from, the expression denotes the reference
again. Hence the text tells which reference it is.

Reports and baselines know a capability by this text only. Where no name is both a
variable and a global they do not take one capability for another.

That last condition is carried by `Vocabulary`, as a part of its definition, and is
needed: a variable and a global of one name are printed alike. Parameters and the holder
of a guarded member are left out (`isOver`). They occur in templates, and nothing is
found of a template before it is bound.

The proof takes a way around. That a printer is injective can be proved of it directly,
by comparing texts from the front, and then again for each change of its layout. Here
the parser does this, once for all expressions (`Proofs/Expr/Printing`), and what
remains is that an expression denotes what it should.
-/

set_option autoImplicit false

namespace Custody

namespace Ref

def toExpr : Ref → Expr
  | global name | var name => .ident name
  | self => .ident "self"
  | param index => .ident ("$" ++ toString index)
  | deref pointer => .deref pointer.toExpr
  | field base name => .field base.toExpr name

theorem isUnary_toExpr {ref : Ref} (h : ∀ pointer, ref ≠ deref pointer) :
    ref.toExpr.isUnary = false := by
  cases ref with
  | deref pointer => exact absurd rfl (h pointer)
  | global | var | self | param | field => rfl

theorem render_toExpr (ref : Ref) : ref.toExpr.render = ref.render := by
  fun_induction render ref with
  | case1 | case2 | case3 | case4 => rfl
  | case5 pointer ih =>
    change "*" ++ ("(" ++ (deref pointer).toExpr.render ++ ")") = _
    rw [ih, ← String.append_assoc, ← String.append_assoc]
    rfl
  | case6 base name ih =>
    change "*" ++ ("(" ++ (field base name).toExpr.render ++ ")") = _
    rw [ih, ← String.append_assoc, ← String.append_assoc]
    rfl
  | case7 pointer hderef hfield ih =>
    cases pointer with
    | deref inner => exact absurd rfl (hderef inner)
    | field base name => exact absurd rfl (hfield base name)
    | global | var | self | param => rfl
  | case8 pointer name ih =>
    change "(" ++ (deref pointer).toExpr.render ++ ")" ++ "->" ++ name = _
    have harrow : "(" ++ (deref pointer).render ++ ")" ++ "->" =
        "(" ++ (deref pointer).render ++ ")->" := by
      rw [String.append_assoc]
      rfl
    rw [ih, harrow]
  | case9 pointer name hderef ih =>
    rw [toExpr, toExpr, Expr.render, isUnary_toExpr hderef, ih]
    rfl
  | case10 base name _ hderef ih =>
    cases base with
    | deref pointer => exact absurd rfl (hderef pointer)
    | global | var | self | param | field => exact congrArg (· ++ "." ++ name) ih

end Ref

/-!
## Names and what they stand for

What names denote is fixed for the whole of a program here, as it is within one
function.
-/

/-- The names that references start from. No name is both a variable and a global. -/
structure Vocabulary where
  isVariable : String → Bool
  isGlobal : String → Bool
  apart : ∀ name, isVariable name = true → isGlobal name = false

/-- What a name stands for. -/
def Vocabulary.root (names : Vocabulary) (name : String) : Option Operand :=
  if names.isVariable name then some (.place (.var name))
  else if names.isGlobal name then some (.place (.global name))
  else none

namespace Ref

variable {names : Vocabulary} {ref other : Ref}

/-- The reference goes by dereferences and fields from a variable or a global, and its
names can be written. -/
def isOver (names : Vocabulary) : Ref → Bool
  | global name => names.isGlobal name && Token.isName name
  | var name => names.isVariable name && Token.isName name
  | self | param _ => false
  | deref pointer => pointer.isOver names
  | field base name => base.isOver names && Token.isName name

theorem solid_of_isName {name : String} (h : Token.isName name = true) :
    Text.Solid name := by
  intro hzero
  exact absurd (Token.isWordChar_of_isName h _ hzero) (by decide)

theorem isProper_toExpr (h : ref.isOver names = true) : ref.toExpr.isProper = true := by
  induction ref with
  | global name | var name => exact (Bool.and_eq_true_iff.1 h).2
  | self | param => cases h
  | deref pointer ih => exact ih h
  | field base name ih =>
    obtain ⟨hbase, hname⟩ := Bool.and_eq_true_iff.1 h
    exact Bool.and_eq_true_iff.2 ⟨ih hbase, hname⟩

theorem lower_toExpr (h : ref.isOver names = true) (allowIndex : Bool) :
    ref.toExpr.lower names.root allowIndex = .ok (.place ref) := by
  induction ref with
  | global name =>
    obtain ⟨hglobal, -⟩ := Bool.and_eq_true_iff.1 h
    have hvariable : names.isVariable name = false := by
      rw [Bool.eq_false_iff]
      intro hvariable
      rw [names.apart name hvariable] at hglobal
      cases hglobal
    simp [toExpr, Expr.lower, Vocabulary.root, hglobal, hvariable]
  | var name =>
    obtain ⟨hvariable, -⟩ := Bool.and_eq_true_iff.1 h
    simp [toExpr, Expr.lower, Vocabulary.root, hvariable]
  | self | param => cases h
  | deref pointer ih =>
    rw [toExpr, Expr.lower, ih h]
    rfl
  | field base name ih =>
    rw [toExpr, Expr.lower, ih (Bool.and_eq_true_iff.1 h).1]
    rfl

theorem parse_render_toExpr (h : ref.isOver names = true) :
    Expr.parse ref.render = .ok ref.toExpr := by
  rw [← render_toExpr]
  exact Expr.parse_render_of_isProper (isProper_toExpr h)

theorem eq_of_render (h : ref.isOver names = true) (hother : other.isOver names = true)
    (hrender : ref.render = other.render) : ref = other := by
  have hexpr : ref.toExpr = other.toExpr := by
    have hparse := parse_render_toExpr h
    rw [hrender, parse_render_toExpr hother] at hparse
    exact (Except.ok.inj hparse).symm
  -- The two may start from names of different sorts, which their expressions do not
  -- show: what is denoted shows it.
  have hlower := lower_toExpr h false
  rw [hexpr, lower_toExpr hother] at hlower
  exact (Operand.place.inj (Except.ok.inj hlower)).symm

theorem solid_render (h : ref.isOver names = true) : Text.Solid ref.render := by
  fun_induction render ref with
  | case1 name | case2 name => exact solid_of_isName (Bool.and_eq_true_iff.1 h).2
  | case3 | case4 => cases h
  | case5 pointer ih => exact (Text.Solid.append (by decide) (ih h)).append (by decide)
  | case6 base name ih => exact (Text.Solid.append (by decide) (ih h)).append (by decide)
  | case7 pointer _ _ ih => exact .append (by decide) (ih h)
  | case8 pointer name ih =>
    obtain ⟨hpointer, hname⟩ := Bool.and_eq_true_iff.1 h
    exact ((Text.Solid.append (by decide) (ih hpointer)).append (by decide)).append
      (solid_of_isName hname)
  | case9 pointer name _ ih =>
    obtain ⟨hpointer, hname⟩ := Bool.and_eq_true_iff.1 h
    exact ((ih hpointer).append (by decide)).append (solid_of_isName hname)
  | case10 base name _ _ ih =>
    obtain ⟨hbase, hname⟩ := Bool.and_eq_true_iff.1 h
    exact ((ih hbase).append (by decide)).append (solid_of_isName hname)

/-!
## Reports and baselines

A diagnostic has the text of its capability among the things it is compared by.
-/

/-- What is found of different capabilities has different keys and, in one function,
different identities. -/
theorem diagnostics_apart (h : ref.isOver names = true)
    (hother : other.isOver names = true) (hne : ref ≠ other) {d d' : Diagnostic}
    (hd : d.capability = some ref.render) (hd' : d'.capability = some other.render) :
    d.key ≠ d'.key ∧
      (d.location.unit = d'.location.unit → d.location.function = d'.location.function →
        d.identity ≠ d'.identity) := by
  have hcapability : d.capability ≠ d'.capability := by
    rw [hd, hd', ne_eq, Option.some.injEq]
    exact fun hrender => hne (eq_of_render h hother hrender)
  constructor
  · intro hkey
    exact hcapability (congrArg Diagnostic.Key.capability hkey)
  · intro hunit hfunction hidentity
    have hsolid : Text.Solid (d.capability.getD "") := by
      rw [hd]
      exact solid_render h
    have hsolid' : Text.Solid (d'.capability.getD "") := by
      rw [hd']
      exact solid_render hother
    obtain ⟨-, hsame, -⟩ :=
      (Diagnostic.identity_eq_iff hunit hfunction hsolid hsolid').1 hidentity
    rw [hd, hd'] at hsame hcapability
    exact hcapability (congrArg some hsame)

end Ref

theorem Reporter.has_push_of_ne {d : Diagnostic} {key : Diagnostic.Key}
    (h : d.key ≠ key) (reporter : Reporter) :
    (reporter.push d).has key = reporter.has key := by
  unfold push
  split
  · rfl
  · simp [has, h]

namespace Ref

variable {names : Vocabulary} {ref other : Ref}

/-- **The text of a reference tells which it is.** It can be parsed, and what it denotes
is the reference. Another reference has another text. So a report on one does not keep
what is found of the other from being reported, and what their fingerprints are made
from differs: if the fingerprints are equal, it is the digests that collide. -/
theorem render_identifies (h : ref.isOver names = true) :
    (∃ expr, Expr.parse ref.render = .ok expr ∧
      ∀ allowIndex, expr.lower names.root allowIndex = .ok (.place ref)) ∧
    ∀ other : Ref, other.isOver names = true → ref ≠ other →
      ref.render ≠ other.render ∧
      ∀ (finding finding' : Finding) (unit function : String) (severity : Severity),
        finding.cause.ref? = some ref → finding'.cause.ref? = some other →
        let d := finding.diagnostic unit function severity
        let d' := finding'.diagnostic unit function severity
        d.key ≠ d'.key ∧
        (∀ reporter : Reporter, (reporter.push d).has d'.key = reporter.has d'.key) ∧
        d.identity ≠ d'.identity ∧
        (d.fingerprint = d'.fingerprint ↔
          (Sha256.digest d.identity).take 8 = (Sha256.digest d'.identity).take 8) := by
  refine ⟨⟨ref.toExpr, parse_render_toExpr h, lower_toExpr h⟩, ?_⟩
  intro other hother hne
  refine ⟨fun hrender => hne (eq_of_render h hother hrender), ?_⟩
  intro finding finding' unit function severity hfinding hfinding' d d'
  have hd : d.capability = some ref.render := congrArg (Option.map render) hfinding
  have hd' : d'.capability = some other.render := congrArg (Option.map render) hfinding'
  obtain ⟨hkey, hidentity⟩ := diagnostics_apart h hother hne hd hd'
  exact ⟨hkey, Reporter.has_push_of_ne hkey, hidentity rfl rfl,
    Diagnostic.fingerprint_eq_iff⟩

def pointerNames : Vocabulary where
  isVariable := (· == "p")
  isGlobal := (· == "big")
  apart name h := by
    obtain rfl := beq_iff_eq.1 h
    decide

/-- The lock of what a pointer points to, and what the lock of a pointer's target points
to, if both are leaked. -/
theorem render_identifies_nested :
    let lock : Ref := .field (.deref (.deref (.var "p"))) "lock"
    let target : Ref := .deref (.field (.deref (.var "p")) "lock")
    let leak (ref : Ref) :=
      (Finding.mk none (.leaked "f" ref .heldExclusive) "").diagnostic "a.c" "f" .error
    lock.isOver pointerNames = true ∧ target.isOver pointerNames = true ∧
      lock.render = "(*p)->lock" ∧ target.render = "*(p->lock)" ∧
      (∃ expr, Expr.parse "(*p)->lock" = .ok expr ∧
        expr.lower pointerNames.root false = .ok (.place lock)) ∧
      (Reporter.empty.push (leak lock)).has (leak target).key = false ∧
      (leak lock).identity ≠ (leak target).identity := by
  intro lock target leak
  have hlock : lock.isOver pointerNames = true := by decide
  have htarget : target.isOver pointerNames = true := by decide
  obtain ⟨⟨expr, hparse, hlower⟩, hothers⟩ := render_identifies hlock
  obtain ⟨-, hfindings⟩ := hothers target htarget (by decide)
  obtain ⟨-, hreporter, hidentity, -⟩ :=
    hfindings ⟨none, .leaked "f" lock .heldExclusive, ""⟩
      ⟨none, .leaked "f" target .heldExclusive, ""⟩ "a.c" "f" .error
      rfl rfl
  exact ⟨hlock, htarget, by decide, by decide, ⟨expr, hparse, hlower false⟩,
    hreporter .empty, hidentity⟩

-- A variable that hides a global is printed like it.
example : (var "x").render = (global "x").render ∧ var "x" ≠ global "x" := by decide

end Ref

end Custody
