import Mathlib.Data.List.Forall2

/-!
# Computations that may fail

When a chain of computations succeeds, and with what: the proofs about tables and checks
take `do` blocks apart with these, one step at a time, and never open `bind`.

Tables are built by functions that stop at the first error, and most of what is proved
about them starts from "it succeeded". `bind_eq_ok_iff` then gives the intermediate
results one after the other; for lists of computations `mapM_eq_ok_iff` turns success
into an equation between lists, which the library has lemmas for.

`GoAlike` is for two chains that are run side by side on inputs that correspond, and
that have to agree also in how they fail. An equation between them would not do: an
error quotes the expression it is about, and with other names for parameters that is
another text (`Proofs/Table/ParameterNames`).
-/

set_option autoImplicit false

namespace Custody

variable {ε α β : Type}

theorem bind_eq_ok_iff {x : Except ε α} {f : α → Except ε β} {b : β} :
    x >>= f = .ok b ↔ ∃ a, x = .ok a ∧ f a = .ok b := by
  cases x <;> simp [bind, Except.bind]

theorem map_eq_ok_iff {x : Except ε α} {f : α → β} {b : β} :
    x.map f = .ok b ↔ ∃ a, x = .ok a ∧ f a = b := by
  cases x <;> simp [Except.map]

theorem mapError_eq_ok_iff {ε' : Type} {x : Except ε α} {f : ε → ε'} {a : α} :
    x.mapError f = .ok a ↔ x = .ok a := by
  cases x <;> simp [Except.mapError]

theorem mapError_eq_error_iff {ε' : Type} {x : Except ε α} {f : ε → ε'} {error : ε'} :
    x.mapError f = .error error ↔ ∃ cause, x = .error cause ∧ f cause = error := by
  cases x <;> simp [Except.mapError]

theorem pure_eq_ok_iff {a b : α} : (pure a : Except ε α) = .ok b ↔ a = b := by
  simp [pure, Except.pure]

theorem ok_bind (a : α) (f : α → Except ε β) : (Except.ok a >>= f) = f a := rfl

theorem map_bind {γ : Type} (x : Except ε α) (f : α → Except ε β) (g : β → γ) :
    (x >>= f).map g = x >>= fun a => (f a).map g := by
  cases x <;> rfl

theorem toOption_bind (x : Except ε α) (f : α → Except ε β) :
    (x >>= f).toOption = x.toOption.bind fun a => (f a).toOption := by
  cases x <;> rfl

theorem toOption_mapError {ε' : Type} (x : Except ε α) (f : ε → ε') :
    (x.mapError f).toOption = x.toOption := by
  cases x <;> rfl

theorem toOption_eq_some_iff {x : Except ε α} {a : α} :
    x.toOption = some a ↔ x = .ok a := by
  cases x <;> simp [Except.toOption]

theorem mapM_eq_ok_iff {f : α → Except ε β} {as : List α} {bs : List β} :
    as.mapM f = .ok bs ↔ as.map f = bs.map .ok := by
  induction as generalizing bs with
  | nil => cases bs <;> simp [pure_eq_ok_iff]
  | cons a as ih =>
    cases bs with
    | nil => simp [-bind_pure_comp, List.mapM_cons, bind_eq_ok_iff, pure_eq_ok_iff]
    | cons b bs =>
      simp [-bind_pure_comp, List.mapM_cons, bind_eq_ok_iff, pure_eq_ok_iff, ih]

/-- A list of computations fails as the first that fails. Those before it succeed, and
nothing is said of those behind it, which are not run. -/
theorem mapM_eq_error_iff {f : α → Except ε β} {as : List α} {error : ε} :
    as.mapM f = .error error ↔
      ∃ before a after, as = before ++ a :: after ∧ f a = .error error ∧
        ∀ b ∈ before, ∃ c, f b = .ok c := by
  induction as with
  | nil => simp [pure, Except.pure]
  | cons a as ih =>
    rw [List.mapM_cons]
    cases ha : f a with
    -- The first computation fails, and no later one is run: `before` has to be empty.
    | error other =>
      constructor
      · rintro ⟨⟩
        exact ⟨[], a, as, rfl, ha, by simp⟩
      · rintro ⟨before, a', after, hsplit, hfails, hbefore⟩
        cases before with
        | nil =>
          obtain ⟨rfl, -⟩ := List.cons.inj hsplit
          obtain rfl := Except.error.inj (ha.symm.trans hfails)
          rfl
        | cons b before =>
          obtain ⟨rfl, -⟩ := List.cons.inj hsplit
          obtain ⟨c, hc⟩ := hbefore a (by simp)
          simp [ha] at hc
    | ok c =>
      have hrest :
          (Except.ok c >>= fun b => as.mapM f >>= fun bs => pure (b :: bs)) =
            .error error ↔
          as.mapM f = .error error := by
        cases as.mapM f <;> simp [bind, Except.bind, pure, Except.pure]
      rw [hrest, ih]
      constructor
      · rintro ⟨before, a', after, rfl, hfails, hbefore⟩
        refine ⟨a :: before, a', after, rfl, hfails, ?_⟩
        simpa [ha] using hbefore
      · rintro ⟨before, a', after, hsplit, hfails, hbefore⟩
        cases before with
        | nil =>
          obtain ⟨rfl, -⟩ := List.cons.inj hsplit
          simp [ha] at hfails
        | cons b before =>
          obtain ⟨rfl, rfl⟩ := List.cons.inj hsplit
          exact ⟨before, a', after, rfl, hfails, fun b hb => hbefore b (by simp [hb])⟩

theorem mapM_mapError {ε' : Type} (f : α → Except ε β) (g : ε → ε') (as : List α) :
    as.mapM (fun a => (f a).mapError g) = (as.mapM f).mapError g := by
  induction as with
  | nil => rfl
  | cons a as ih =>
    rw [List.mapM_cons, List.mapM_cons, ih]
    cases f a with
    | error error => rfl
    | ok b => cases as.mapM f <;> rfl

theorem mapM_map {γ : Type} (f : α → Except ε β) (g : β → γ) (as : List α) :
    as.mapM (fun a => (f a).map g) = (as.mapM f).map (List.map g) := by
  induction as with
  | nil => rfl
  | cons a as ih =>
    rw [List.mapM_cons, List.mapM_cons, ih]
    cases f a with
    | error error => rfl
    | ok b => cases as.mapM f <;> rfl

/-! ## Computations side by side -/

/-- Both succeed, with results that `S` relates, or both fail, with errors that `R`
relates. -/
inductive GoAlike {ε' β : Type} (R : ε → ε' → Prop) (S : α → β → Prop) :
    Except ε α → Except ε' β → Prop where
  | ok {a : α} {b : β} (h : S a b) : GoAlike R S (.ok a) (.ok b)
  | error {cause : ε} {cause' : ε'} (h : R cause cause') :
      GoAlike R S (.error cause) (.error cause')

namespace GoAlike

variable {ε' β : Type} {R : ε → ε' → Prop} {S : α → β → Prop} {x : Except ε α}
  {y : Except ε' β}

theorem bind {γ δ : Type} {T : γ → δ → Prop} {f : α → Except ε γ} {g : β → Except ε' δ}
    (h : GoAlike R S x y) (hnext : ∀ a b, S a b → GoAlike R T (f a) (g b)) :
    GoAlike R T (x >>= f) (y >>= g) := by
  cases h with
  | ok hresult => exact hnext _ _ hresult
  | error hcause => exact .error hcause

theorem bind_same {x : Except ε α} {y : Except ε' α} {γ δ : Type} {T : γ → δ → Prop}
    {f : α → Except ε γ} {g : α → Except ε' δ} (h : GoAlike R Eq x y)
    (hnext : ∀ a, GoAlike R T (f a) (g a)) :
    GoAlike R T (x >>= f) (y >>= g) := by
  refine h.bind ?_
  intro a _ hsame
  subst hsame
  exact hnext a

theorem mapError {η η' : Type} {Q : η → η' → Prop} {f : ε → η} {g : ε' → η'}
    (h : GoAlike R S x y)
    (hcause : ∀ cause cause', R cause cause' → Q (f cause) (g cause')) :
    GoAlike Q S (x.mapError f) (y.mapError g) := by
  cases h with
  | ok hresult => exact .ok hresult
  | error h => exact .error (hcause _ _ h)

theorem mono {R' : ε → ε' → Prop} {S' : α → β → Prop} (h : GoAlike R S x y)
    (hcause : ∀ cause cause', R cause cause' → R' cause cause')
    (hresult : ∀ a b, S a b → S' a b) :
    GoAlike R' S' x y := by
  cases h with
  | ok h => exact .ok (hresult _ _ h)
  | error h => exact .error (hcause _ _ h)

theorem exists_of_ok {a : α} (h : GoAlike R S (.ok a) y) : ∃ b, y = .ok b ∧ S a b := by
  cases h with
  | ok h => exact ⟨_, rfl, h⟩

end GoAlike

end Custody
