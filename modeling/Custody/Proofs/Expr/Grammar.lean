import Custody.Expr.Parser
import Custody.Proofs.Except

/-!
# The grammar of expressions

`Derives` is the grammar on its own, one rule for each alternative, with the repetition
in a postfixed expression as left recursion. The parser goes from left to right with a
loop in place of that recursion, and never takes back a selection it has read. It loses
nothing by this: what can follow a complete expression is a closing bracket or the end,
and neither begins a selection (`Ends`). So the parser reads exactly what the grammar
derives (`ofTokens_eq_ok_iff`), and since it gives one answer, the grammar is
unambiguous.

## Why the grammar has levels

One relation between tokens and expressions would derive `*p.f` in two ways. The three
levels are what makes a star in front apply to the whole of what follows it, and what
lets a selection be made only from something that is complete. They are an index of one
relation and not three relations, so that there is one induction.

## The two directions

That what is read is derived goes by induction on the steps of the parser, with what
`read` and the loop `select` do side by side. The other way the induction is on the
derivation, and what has to be known of a level differs: an expression is read as a
whole, while a postfixed one brings the parser into its loop and leaves it there
(`IsBase`), since more may follow. The number of steps is arbitrary as long as it
exceeds the tokens, so that no case has to say how many it uses.
-/

set_option autoImplicit false

namespace Custody.Expr

inductive Level where
  | expr
  | postfixed
  | primary

/-- What a token list derives at a level. The tokens are those of the expression and no
others; what comes after them plays no part. -/
inductive Derives : Level → List Token → Expr → Prop where
  | addrOf {tokens : List Token} {inner : Expr} :
      Derives .expr tokens inner → Derives .expr (.amp :: tokens) (.addrOf inner)
  | deref {tokens : List Token} {inner : Expr} :
      Derives .expr tokens inner → Derives .expr (.star :: tokens) (.deref inner)
  | postfixed {tokens : List Token} {e : Expr} :
      Derives .postfixed tokens e → Derives .expr tokens e
  | primary {tokens : List Token} {e : Expr} :
      Derives .primary tokens e → Derives .postfixed tokens e
  | arrow {tokens : List Token} {base : Expr} (name : String) :
      Derives .postfixed tokens base →
        Derives .postfixed (tokens ++ [.arrow, .ident name]) (.field (.deref base) name)
  | dot {tokens : List Token} {base : Expr} (name : String) :
      Derives .postfixed tokens base →
        Derives .postfixed (tokens ++ [.dot, .ident name]) (.field base name)
  | index {tokens inside : List Token} {base position : Expr} :
      Derives .postfixed tokens base → Derives .expr inside position →
        Derives .postfixed (tokens ++ .lbracket :: inside ++ [.rbracket])
          (.index base position)
  | ident (name : String) : Derives .primary [.ident name] (.ident name)
  | int (value : Int) : Derives .primary [.int value] (.int value)
  | paren {tokens : List Token} {inner : Expr} :
      Derives .expr tokens inner → Derives .primary (.lparen :: tokens ++ [.rparen]) inner

/-! ## What is read is derived -/

theorem expect_eq_ok_iff {wanted : Token} {tokens rest : List Token} :
    expect wanted tokens = .ok rest ↔ tokens = wanted :: rest := by
  cases tokens with
  | nil => simp [expect]
  | cons found tokens =>
    by_cases h : found = wanted
    · simp [expect, h]
    · simp [expect, h]

theorem fieldName_eq_ok_iff {name : String} {tokens rest : List Token} :
    fieldName tokens = .ok (name, rest) ↔ tokens = .ident name :: rest := by
  cases tokens with
  | nil => simp [fieldName]
  | cons found tokens => cases found <;> simp [fieldName]

/-- With so many steps, tokens are read only as what the grammar derives from them. It
is the hypothesis of the induction on steps, and names what is used up of the tokens. -/
def ReadsSoundly (steps : Nat) : Prop :=
  ∀ ⦃tokens rest e⦄, read steps tokens = .ok (e, rest) →
    ∃ used, tokens = used ++ rest ∧ Derives .expr used e

/-- With so many steps, the loop only extends the postfixed expression that comes before
it. -/
def SelectsSoundly (steps : Nat) : Prop :=
  ∀ ⦃base tokens rest e⦄, select steps base tokens = .ok (e, rest) →
    ∃ used, tokens = used ++ rest ∧ ∀ front, Derives .postfixed front base →
      Derives .postfixed (front ++ used) e

theorem ReadsSoundly.succ {steps : Nat} (hreads : ReadsSoundly steps)
    (hselects : SelectsSoundly steps) :
    ReadsSoundly (steps + 1) := by
  intro tokens rest e h
  cases tokens with
  | nil => simp [read] at h
  | cons token tokens =>
    -- A prefix is read as an expression of its own, and all else goes on with
    -- selections.
    cases token with
    | amp =>
      obtain ⟨⟨inner, left⟩, hinner, heq⟩ := bind_eq_ok_iff.1 h
      obtain ⟨rfl, rfl⟩ := Prod.mk.inj (pure_eq_ok_iff.1 heq)
      obtain ⟨used, rfl, hderives⟩ := hreads hinner
      exact ⟨_, rfl, .addrOf hderives⟩
    | star =>
      obtain ⟨⟨inner, left⟩, hinner, heq⟩ := bind_eq_ok_iff.1 h
      obtain ⟨rfl, rfl⟩ := Prod.mk.inj (pure_eq_ok_iff.1 heq)
      obtain ⟨used, rfl, hderives⟩ := hreads hinner
      exact ⟨_, rfl, .deref hderives⟩
    | ident name =>
      obtain ⟨used, rfl, hderives⟩ := hselects h
      exact ⟨_, rfl, .postfixed (hderives _ (.primary (.ident name)))⟩
    | int value =>
      obtain ⟨used, rfl, hderives⟩ := hselects h
      exact ⟨_, rfl, .postfixed (hderives _ (.primary (.int value)))⟩
    | lparen =>
      obtain ⟨⟨inner, left⟩, hinner, hafter⟩ := bind_eq_ok_iff.1 h
      obtain ⟨after, hclosed, hselect⟩ := bind_eq_ok_iff.1 hafter
      obtain rfl := expect_eq_ok_iff.1 hclosed
      obtain ⟨inside, rfl, hinside⟩ := hreads hinner
      obtain ⟨used, rfl, hderives⟩ := hselects hselect
      exact ⟨.lparen :: inside ++ [.rparen] ++ used, by simp,
        .postfixed (hderives _ (.primary (.paren hinside)))⟩
    | _ => simp [read] at h

theorem SelectsSoundly.succ {steps : Nat} (hreads : ReadsSoundly steps)
    (hselects : SelectsSoundly steps) :
    SelectsSoundly (steps + 1) := by
  intro base tokens rest e h
  -- where no selection begins, the loop is done
  have hdone : ∀ {tokens : List Token},
      Except.ok (ε := Reason) (base, tokens) = .ok (e, rest) →
      ∃ used, tokens = used ++ rest ∧
        ∀ front, Derives .postfixed front base → Derives .postfixed (front ++ used) e := by
    intro tokens heq
    cases heq
    exact ⟨[], rfl, fun front hfront => by rwa [List.append_nil]⟩
  cases tokens with
  | nil => exact hdone h
  | cons token tokens =>
    cases token with
    | arrow =>
      obtain ⟨⟨name, left⟩, hname, hselect⟩ := bind_eq_ok_iff.1 h
      obtain rfl := fieldName_eq_ok_iff.1 hname
      obtain ⟨used, rfl, hderives⟩ := hselects hselect
      refine ⟨.arrow :: .ident name :: used, rfl, ?_⟩
      intro front hfront
      simpa using hderives _ (.arrow name hfront)
    | dot =>
      obtain ⟨⟨name, left⟩, hname, hselect⟩ := bind_eq_ok_iff.1 h
      obtain rfl := fieldName_eq_ok_iff.1 hname
      obtain ⟨used, rfl, hderives⟩ := hselects hselect
      refine ⟨.dot :: .ident name :: used, rfl, ?_⟩
      intro front hfront
      simpa using hderives _ (.dot name hfront)
    | lbracket =>
      obtain ⟨⟨position, left⟩, hposition, hafter⟩ := bind_eq_ok_iff.1 h
      obtain ⟨after, hclosed, hselect⟩ := bind_eq_ok_iff.1 hafter
      obtain rfl := expect_eq_ok_iff.1 hclosed
      obtain ⟨inside, rfl, hinside⟩ := hreads hposition
      obtain ⟨used, rfl, hderives⟩ := hselects hselect
      refine ⟨.lbracket :: inside ++ .rbracket :: used, by simp, ?_⟩
      intro front hfront
      simpa using hderives _ (.index hfront hinside)
    | _ => exact hdone h

theorem reads_soundly (steps : Nat) : ReadsSoundly steps ∧ SelectsSoundly steps := by
  induction steps with
  | zero =>
    exact ⟨fun _ _ _ h => by simp [read] at h, fun _ _ _ _ h => by simp [select] at h⟩
  | succ steps ih => exact ⟨ih.1.succ ih.2, .succ ih.1 ih.2⟩

/-! ## What is derived is read

A complete expression is read where nothing after it could extend it. A postfixed one
can be extended: of it we know that the parser comes to its end and is in the loop then,
with steps left for what follows. -/

/-- No selection begins here. This is what follows a complete expression, and it is a
condition on one token. -/
def Ends (rest : List Token) : Prop :=
  ∀ token ∈ rest.head?, token ≠ .arrow ∧ token ≠ .dot ∧ token ≠ .lbracket

/-- The tokens are read as the expression, up to where it ends, whatever follows and
with any number of steps that is large enough. -/
def IsRead (tokens : List Token) (e : Expr) : Prop :=
  ∀ rest steps, Ends rest → tokens.length + rest.length < steps →
    read steps (tokens ++ rest) = .ok (e, rest)

/-- The tokens bring the parser into the loop, with the expression as what selections
are from, and with steps left for all that follows. -/
def IsBase (tokens : List Token) (e : Expr) : Prop :=
  ∀ rest steps, tokens.length + rest.length < steps →
    ∃ left, rest.length < left ∧ read steps (tokens ++ rest) = select left e rest

section

variable {tokens inside : List Token} {base e : Expr}

theorem select_of_ends {rest : List Token} {steps : Nat} (hends : Ends rest)
    (hsteps : 0 < steps) :
    select steps base rest = .ok (base, rest) := by
  cases steps with
  | zero => cases hsteps
  | succ steps =>
    cases rest with
    | nil => rfl
    | cons token rest =>
      obtain ⟨harrow, hdot, hbracket⟩ := hends token rfl
      cases token <;> first | contradiction | rfl

theorem IsBase.isRead (h : IsBase tokens e) : IsRead tokens e := by
  intro rest steps hends hsteps
  obtain ⟨left, hleft, hread⟩ := h rest steps hsteps
  rw [hread, select_of_ends hends (Nat.zero_lt_of_lt hleft)]

theorem IsRead.unary {token : Token} {wrap : Expr → Expr} (h : IsRead tokens e)
    (hread : ∀ steps tokens, read (steps + 1) (token :: tokens) = do
      let (inner, rest) ← read steps tokens
      return (wrap inner, rest)) :
    IsRead (token :: tokens) (wrap e) := by
  intro rest steps hends hsteps
  rw [List.length_cons] at hsteps
  cases steps with
  | zero => cases hsteps
  | succ steps =>
    have hinner := h rest steps hends (by omega)
    rw [List.cons_append, hread, hinner]
    rfl

theorem isBase_word {token : Token}
    (hread : ∀ steps tokens,
      read (steps + 1) (token :: tokens) = select steps e tokens) :
    IsBase [token] e := by
  intro rest steps hsteps
  rw [List.length_singleton] at hsteps
  cases steps with
  | zero => cases hsteps
  | succ steps => exact ⟨steps, by omega, hread steps rest⟩

theorem IsRead.paren (h : IsRead tokens e) : IsBase (.lparen :: tokens ++ [.rparen]) e := by
  intro rest steps hsteps
  simp only [List.length_append, List.length_cons, List.length_nil] at hsteps
  cases steps with
  | zero => cases hsteps
  | succ steps =>
    have hends : Ends (.rparen :: rest) := by simp [Ends]
    have hinner := h (.rparen :: rest) steps hends (by rw [List.length_cons]; omega)
    have hclosed : expect .rparen (.rparen :: rest) = .ok rest := expect_eq_ok_iff.2 rfl
    refine ⟨steps, by omega, ?_⟩
    simp only [List.cons_append, List.append_assoc, List.nil_append, read, hinner,
      ok_bind, hclosed]

theorem IsBase.select {selection : List Token} (h : IsBase tokens base)
    (hselect : ∀ left rest, selection.length + rest.length < left + 1 →
      Expr.select (left + 1) base (selection ++ rest) = Expr.select left e rest)
    (hsome : selection ≠ []) : IsBase (tokens ++ selection) e := by
  intro rest steps hsteps
  rw [List.length_append] at hsteps
  obtain ⟨left, hleft, hread⟩ :=
    h (selection ++ rest) steps (by rw [List.length_append]; omega)
  rw [List.length_append] at hleft
  have hlength := List.length_pos_iff.2 hsome
  cases left with
  | zero => cases hleft
  | succ left =>
    exact ⟨left, by omega, by rw [List.append_assoc, hread, hselect left rest hleft]⟩

theorem IsBase.index {position : Expr} (h : IsBase tokens base)
    (hinside : IsRead inside position) :
    IsBase (tokens ++ .lbracket :: inside ++ [.rbracket]) (.index base position) := by
  rw [List.append_assoc]
  refine h.select ?_ (by simp)
  intro left rest hleft
  simp only [List.cons_append, List.length_cons, List.length_append,
    List.length_nil] at hleft
  have hends : Ends (.rbracket :: rest) := by simp [Ends]
  have hposition := hinside (.rbracket :: rest) left hends (by rw [List.length_cons]; omega)
  have hclosed : expect .rbracket (.rbracket :: rest) = .ok rest := expect_eq_ok_iff.2 rfl
  simp only [List.cons_append, List.append_assoc, List.nil_append, Expr.select,
    hposition, ok_bind, hclosed]

/-- What the parser makes of the tokens of a level. Selections may follow after both of
the lower levels, so that these come to the same. -/
def Level.Accepts : Level → List Token → Expr → Prop
  | .expr => IsRead
  | .postfixed | .primary => IsBase

theorem Derives.accepts {level : Level} (h : Derives level tokens e) :
    level.Accepts tokens e := by
  induction h with
  | addrOf _ ih => exact ih.unary fun _ _ => rfl
  | deref _ ih => exact ih.unary fun _ _ => rfl
  | postfixed _ ih => exact ih.isRead
  | primary _ ih => exact ih
  | arrow name _ ih => exact ih.select (fun _ _ _ => rfl) (by simp)
  | dot name _ ih => exact ih.select (fun _ _ _ => rfl) (by simp)
  | index _ _ ihbase ihposition => exact ihbase.index ihposition
  | ident name => exact isBase_word fun _ _ => rfl
  | int value => exact isBase_word fun _ _ => rfl
  | paren _ ih => exact ih.paren

/-! ## Whole texts -/

theorem ofTokens_eq_ok_iff : ofTokens tokens = .ok e ↔ Derives .expr tokens e := by
  unfold ofTokens
  constructor
  · intro h
    obtain ⟨⟨found, rest⟩, hread, hrest⟩ := bind_eq_ok_iff.1 h
    obtain ⟨used, rfl, hderives⟩ := (reads_soundly _).1 hread
    cases rest with
    | nil =>
      obtain rfl := pure_eq_ok_iff.1 hrest
      rwa [List.append_nil]
    | cons token rest => cases hrest
  · intro h
    have hread := h.accepts [] (tokens.length + 1) (by simp [Ends]) (Nat.lt_succ_self _)
    rw [List.append_nil] at hread
    rw [hread]
    rfl

theorem parse_eq_ok_iff {input : String} :
    parse input = .ok e ↔
      ∃ tokens, Token.scan input.toList = .ok tokens ∧ Derives .expr tokens e := by
  unfold parse
  cases hscan : Token.scan input.toList with
  | error error => simp
  | ok tokens => simp [mapError_eq_ok_iff, ofTokens_eq_ok_iff]

theorem input_of_parse {input : String} {error : Error}
    (h : parse input = .error error) : error.input = input := by
  unfold parse at h
  split at h
  · cases h
    rfl
  · obtain ⟨reason, -, rfl⟩ := mapError_eq_error_iff.1 h
    rfl

theorem Derives.unique {e' : Expr} (h : Derives .expr tokens e)
    (h' : Derives .expr tokens e') : e = e' :=
  Except.ok.inj ((ofTokens_eq_ok_iff.2 h).symm.trans (ofTokens_eq_ok_iff.2 h'))

end

/-- **The parser accepts exactly the grammar.** A text is parsed as an expression iff it
has tokens and the grammar derives the expression from all of them. From the tokens of
an accepted text it derives no other expression. Every other text is refused, with an
error that quotes it. -/
theorem parse_iff_derives (input : String) :
    (∀ e, parse input = .ok e ↔
      ∃ tokens, Token.scan input.toList = .ok tokens ∧ Derives .expr tokens e) ∧
    (∀ tokens e, Derives .expr tokens e → ∃! e', Derives .expr tokens e') ∧
    ((∃ reason, parse input = .error ⟨input, reason⟩) ↔
      ∀ tokens, Token.scan input.toList = .ok tokens → ∀ e, ¬ Derives .expr tokens e) := by
  refine ⟨fun e => parse_eq_ok_iff, ?_, ?_⟩
  · intro tokens e h
    exact ⟨e, h, fun e' h' => h'.unique h⟩
  · constructor
    · rintro ⟨reason, hparse⟩ tokens hscan e hderives
      have hok := parse_eq_ok_iff.2 ⟨tokens, hscan, hderives⟩
      rw [hparse] at hok
      cases hok
    · intro hnone
      cases hparse : parse input with
      | error error =>
        refine ⟨error.reason, ?_⟩
        rw [← input_of_parse hparse]
      | ok e =>
        obtain ⟨tokens, hscan, hderives⟩ := parse_eq_ok_iff.1 hparse
        exact absurd hderives (hnone tokens hscan e)

/-- The star in front is applied last, and the parentheses keep the ampersand to the
name. -/
theorem parse_iff_derives_nested :
    parse "*(&s) ->buf[0x1F]" =
      .ok (.deref (.index (.field (.deref (.addrOf (.ident "s"))) "buf") (.int 31))) := by
  have hs : Derives .expr [.amp, .ident "s"] (.addrOf (.ident "s")) :=
    .addrOf (.postfixed (.primary (.ident "s")))
  have hindex : Derives .expr [.int 31] (.int 31) := .postfixed (.primary (.int 31))
  have hderives :=
    Derives.deref (.postfixed (.index (.arrow "buf" (.primary (.paren hs))) hindex))
  exact ((parse_iff_derives _).1 _).2 ⟨_, by decide +kernel, hderives⟩

end Custody.Expr
