import Custody.Ref.Basic

/-!
# The order of references

References are ordered by their outermost step, in the order global, variable, self,
parameter, dereference, field, and then by the parts of that step from left to right. It
is a linear order, so references can be the keys of a `FinMap`.

The order is visible: an environment lists what it holds in this order, and findings
about several capabilities at one place come in it. That is why it is written out and
not derived from some encoding.

The laws are proved for `cmp` itself, by its own recursion, and not by comparing some
key of a simpler type. All the cases that matter are those of two equal outermost steps;
the others are decided by `rank`, which is why transitivity goes through the ranks
first.
-/

set_option autoImplicit false

namespace Custody.Ref

/-- The place of the outermost step among the six. -/
def rank : Ref → Nat
  | global _ => 0
  | var _ => 1
  | self => 2
  | param _ => 3
  | deref _ => 4
  | field _ _ => 5

def cmp : Ref → Ref → Ordering
  | global a, global b => compare a b
  | var a, var b => compare a b
  | self, self => .eq
  | param a, param b => compare a b
  | deref a, deref b => cmp a b
  | field a f, field b g => (cmp a b).then (compare f g)
  | a, b => compare a.rank b.rank

instance : Ord Ref := ⟨cmp⟩

theorem cmp_swap (a b : Ref) : cmp a b = (cmp b a).swap := by
  induction a generalizing b with
  | global a =>
    cases b with
    | global b => exact Std.OrientedOrd.eq_swap (α := String)
    | _ => rfl
  | var a =>
    cases b with
    | var b => exact Std.OrientedOrd.eq_swap (α := String)
    | _ => rfl
  | self => cases b <;> rfl
  | param a =>
    cases b with
    | param b => exact Std.OrientedOrd.eq_swap (α := Nat)
    | _ => rfl
  | deref a ih =>
    cases b with
    | deref b => exact ih b
    | _ => rfl
  | field a f ih =>
    cases b with
    | field b g =>
      have hfg : compare f g = (compare g f).swap := Std.OrientedOrd.eq_swap
      simp only [cmp, Ordering.swap_then, ← ih b, ← hfg]
    | _ => rfl

theorem cmp_self (a : Ref) : cmp a a = .eq := by
  induction a with
  | global a | var a => exact Std.ReflOrd.compare_self (α := String)
  | param a => exact Std.ReflOrd.compare_self (α := Nat)
  | self => rfl
  | deref a ih => exact ih
  | field a f ih =>
    have hf : compare f f = .eq := Std.ReflOrd.compare_self
    simp only [cmp, ih, hf, Ordering.then]

theorem eq_of_cmp {a b : Ref} (h : cmp a b = .eq) : a = b := by
  induction a generalizing b with
  | global a =>
    cases b with
    | global b => rw [Std.LawfulEqOrd.eq_of_compare (α := String) h]
    | _ => cases h
  | var a =>
    cases b with
    | var b => rw [Std.LawfulEqOrd.eq_of_compare (α := String) h]
    | _ => cases h
  | self =>
    cases b with
    | self => rfl
    | _ => cases h
  | param a =>
    cases b with
    | param b => rw [Std.LawfulEqOrd.eq_of_compare (α := Nat) h]
    | _ => cases h
  | deref a ih =>
    cases b with
    | deref b => rw [ih h]
    | _ => cases h
  | field a f ih =>
    cases b with
    | field b g =>
      obtain ⟨hab, hfg⟩ := Ordering.then_eq_eq.1 h
      rw [ih hab, Std.LawfulEqOrd.eq_of_compare hfg]
    | _ => cases h

/-! ## Transitivity

Along two comparisons the rank of the outermost step can only grow. Where it grows at
all it decides; where it does not, the three references have the same kind of step. -/

theorem cmp_of_rank_ne {a b : Ref} (h : a.rank ≠ b.rank) : cmp a b = compare a.rank b.rank := by
  cases a <;> cases b <;> first | rfl | exact absurd rfl h

theorem rank_le_of_cmp {a b : Ref} (h : (cmp a b).isLE = true) : a.rank ≤ b.rank := by
  rcases Nat.lt_trichotomy a.rank b.rank with hlt | heq | hgt
  · exact Nat.le_of_lt hlt
  · exact Nat.le_of_eq heq
  · rw [cmp_of_rank_ne (Nat.ne_of_gt hgt), Nat.compare_eq_gt.2 hgt] at h
    cases h

theorem isLE_cmp_of_rank_lt {a b : Ref} (h : a.rank < b.rank) : (cmp a b).isLE = true := by
  rw [cmp_of_rank_ne (Nat.ne_of_lt h), Nat.compare_eq_lt.2 h]
  rfl

/-- Along two comparisons the rank grows, or the three references have the same kind of
step. This leaves one case of transitivity for each constructor, where there are six
times six times six to begin with. -/
theorem rank_lt_or_eq {a b c : Ref} (hab : (cmp a b).isLE = true) (hbc : (cmp b c).isLE = true) :
    a.rank < c.rank ∨ a.rank = b.rank ∧ b.rank = c.rank := by
  have := rank_le_of_cmp hab
  have := rank_le_of_cmp hbc
  omega

/-- A lexicographic comparison is at most equal when its first part is less, or equal
with a second part that is at most equal. -/
theorem isLE_then_iff {o p : Ordering} :
    (o.then p).isLE = true ↔ o = .lt ∨ o = .eq ∧ p.isLE = true := by
  cases o <;> simp [Ordering.then, Ordering.isLE]

theorem lt_or_eq_of_isLE {o : Ordering} (h : o.isLE = true) : o = .lt ∨ o = .eq := by
  cases o
  · exact .inl rfl
  · exact .inr rfl
  · cases h

theorem cmp_trans {a b c : Ref} (hab : (cmp a b).isLE = true) (hbc : (cmp b c).isLE = true) :
    (cmp a c).isLE = true := by
  induction a generalizing b c with
  | global a =>
    rcases rank_lt_or_eq hab hbc with h | ⟨h₁, h₂⟩
    · exact isLE_cmp_of_rank_lt h
    cases b with
    | global b =>
      cases c with
      | global c => exact Std.TransOrd.isLE_trans (α := String) hab hbc
      | _ => cases h₂
    | _ => cases h₁
  | var a =>
    rcases rank_lt_or_eq hab hbc with h | ⟨h₁, h₂⟩
    · exact isLE_cmp_of_rank_lt h
    cases b with
    | var b =>
      cases c with
      | var c => exact Std.TransOrd.isLE_trans (α := String) hab hbc
      | _ => cases h₂
    | _ => cases h₁
  | self =>
    rcases rank_lt_or_eq hab hbc with h | ⟨h₁, h₂⟩
    · exact isLE_cmp_of_rank_lt h
    cases b with
    | self =>
      cases c with
      | self => rfl
      | _ => cases h₂
    | _ => cases h₁
  | param a =>
    rcases rank_lt_or_eq hab hbc with h | ⟨h₁, h₂⟩
    · exact isLE_cmp_of_rank_lt h
    cases b with
    | param b =>
      cases c with
      | param c => exact Std.TransOrd.isLE_trans (α := Nat) hab hbc
      | _ => cases h₂
    | _ => cases h₁
  | deref a ih =>
    rcases rank_lt_or_eq hab hbc with h | ⟨h₁, h₂⟩
    · exact isLE_cmp_of_rank_lt h
    cases b with
    | deref b =>
      cases c with
      | deref c => exact @ih b c hab hbc
      | _ => cases h₂
    | _ => cases h₁
  | field a f ih =>
    rcases rank_lt_or_eq hab hbc with h | ⟨h₁, h₂⟩
    · exact isLE_cmp_of_rank_lt h
    cases b with
    | field b g =>
      cases c with
      | field c k =>
        have hab := isLE_then_iff.1 hab
        have hbc := isLE_then_iff.1 hbc
        refine isLE_then_iff.2 ?_
        rcases hab with hab | ⟨hab, hfg⟩
        · -- The bases of the first pair differ, so the bases of the outer pair do.
          have hbc' : (cmp b c).isLE = true := by
            rcases hbc with h | ⟨h, _⟩ <;> rw [h] <;> rfl
          rcases lt_or_eq_of_isLE (ih (by rw [hab]; rfl) hbc') with h | h
          · exact .inl h
          · rw [← eq_of_cmp h, cmp_swap, hab] at hbc'
            cases hbc'
        · rw [eq_of_cmp hab]
          rcases hbc with hbc | ⟨hbc, hgk⟩
          · exact .inl hbc
          · exact .inr ⟨hbc, Std.TransOrd.isLE_trans hfg hgk⟩
      | _ => cases h₂
    | _ => cases h₁

instance : Std.OrientedOrd Ref := ⟨fun {a b} => cmp_swap a b⟩

instance : Std.TransOrd Ref := ⟨cmp_trans⟩

instance : Std.LawfulEqOrd Ref where
  compare_self := cmp_self _
  eq_of_compare := eq_of_cmp

end Custody.Ref
