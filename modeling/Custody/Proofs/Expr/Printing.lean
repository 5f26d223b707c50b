import Custody.Proofs.Expr.Grammar

/-!
# Expressions that are printed and read again

The printer works on characters and the parser on tokens, so a proof that they fit goes
through the tokens that an expression is printed as (`Expr.tokens`). The scanner cuts
the printed text into these, since wherever two pieces meet the second does not begin
with a character of a word (`Spells.append`). The grammar derives the expression from
them, since the printer puts parentheses around whatever binds looser than its
surroundings (`derives_tokens`).

What the printer is given has to have names and literals that can be written. The parser
returns no others.

The two halves do not know of each other. `Spells` is about characters and tokens, and
speaks of no expression; `derives_tokens` is about tokens and the grammar, and needs no
condition on names. A change of the layout concerns the first, and one of the
parentheses both, but in one case each.

`parse_render` is an equivalence. An expression with a name such as `a b` is printed,
and its text is read as something else or not at all, so the condition cannot be
weakened.
-/

set_option autoImplicit false

namespace Custody

namespace Token

/-- A letter or an underscore, and then letters, digits and underscores. -/
def isName (name : String) : Bool :=
  match name.toList with
  | [] => false
  | first :: rest => (first.isAlpha || first == '_') && rest.all fun c =>
    c.isAlphanum || c == '_'

/-- An integer that is not negative and fits a signed 64-bit word. -/
def isLiteral (value : Int) : Bool := 0 ≤ value && value ≤ 0x7FFFFFFFFFFFFFFF

/-- The words among the tokens are names and literals. -/
def isProper : Token → Bool
  | ident name => isName name
  | int value => isLiteral value
  | _ => true

/-!
## Texts that spell tokens

A text is scanned with what follows it, and the last word of the text may go on there.
The condition that it does not is put on what follows (`Apart`), so that texts can be
appended.
-/

/-- No word goes on here. A word can only be told from the text after it where this is
so. -/
def Apart (rest : List Char) : Prop := ∀ c ∈ rest.head?, isWordChar c = false

/-- The scanner finds the tokens in the text, whatever follows if only the last word
ends. -/
def Spells (text : List Char) (tokens : List Token) : Prop :=
  ∀ rest, Apart rest → scanFrom [] (text ++ rest) = (scanFrom [] rest).map (tokens ++ ·)

theorem scanFrom_word {text : List Char} (hword : ∀ c ∈ text, isWordChar c = true)
    (word rest : List Char) :
    scanFrom word (text ++ rest) = scanFrom (word ++ text) rest := by
  induction text generalizing word with
  | nil => rw [List.append_nil, List.nil_append]
  | cons c text ih =>
    obtain ⟨hc, htext⟩ := List.forall_mem_cons.1 hword
    have hdash : c ≠ '-' := by
      rintro rfl
      exact absurd hc (by decide)
    rw [List.cons_append, scanFrom, if_pos hc, ih htext, List.append_assoc,
      List.singleton_append]
    intro _ hc' _
    exact absurd hc' hdash

theorem scanFrom_of_apart {word rest : List Char} {ended : List Token}
    (hended : ofEndedWord word = .ok ended) (h : Apart rest) :
    scanFrom word rest = (scanFrom [] rest).map (ended ++ ·) := by
  have hnone : ofEndedWord [] = .ok [] := rfl
  fun_cases scanFrom word rest with
  | case1 => simp [hended, scanFrom, hnone, Except.map]
  | case2 rest =>
    simp only [hended, ok_bind, scanFrom, hnone]
    cases scanFrom [] rest <;> rfl
  | case3 c rest _ hc => simp [h c rfl] at hc
  | case4 c rest harrow hc =>
    rw [hended, ok_bind, scanFrom, if_neg hc, hnone, ok_bind]
    · split
      · cases scanFrom [] rest <;> rfl
      · split
        · cases scanFrom [] rest <;> rfl
        · rfl
    · exact harrow

section

variable {text : List Char} {tokens : List Token} {token : Token}

theorem spells_nil : Spells [] [] := by
  intro rest _
  rw [List.nil_append]
  cases scanFrom [] rest <;> rfl

theorem spells_word (hword : ∀ c ∈ text, isWordChar c = true)
    (htoken : ofWord text = .ok token) :
    Spells text [token] := by
  intro rest hrest
  have hended : ofEndedWord text = .ok [token] := by
    cases text with
    | nil => cases htoken
    | cons c text => simp [ofEndedWord, htoken, Except.map]
  rw [scanFrom_word hword, List.nil_append, scanFrom_of_apart hended hrest]

theorem Spells.symbol (h : Spells text tokens) {c : Char} (hc : ofSymbol? c = some token) :
    Spells (c :: text) (token :: tokens) := by
  intro rest hrest
  have hscan : ∀ text, scanFrom [] (c :: text) = (scanFrom [] text).map (token :: ·) := by
    intro text
    unfold ofSymbol? at hc
    split at hc <;> cases hc <;> rfl
  rw [List.cons_append, hscan, h rest hrest]
  cases scanFrom [] rest <;> rfl

theorem Spells.arrow (h : Spells text tokens) :
    Spells ('-' :: '>' :: text) (.arrow :: tokens) := by
  intro rest hrest
  have hscan :
      ∀ text, scanFrom [] ('-' :: '>' :: text) = (scanFrom [] text).map (.arrow :: ·) :=
    fun _ => rfl
  rw [List.cons_append, List.cons_append, hscan, h rest hrest]
  cases scanFrom [] rest <;> rfl

theorem Spells.append (h : Spells text tokens) {c : Char} {after : List Char}
    {others : List Token} (hafter : Spells (c :: after) others)
    (hc : isWordChar c = false) :
    Spells (text ++ c :: after) (tokens ++ others) := by
  intro rest hrest
  have happart : Apart (c :: after ++ rest) := by simpa [Apart] using hc
  rw [List.append_assoc, h _ happart, hafter rest hrest]
  cases scanFrom [] rest <;> simp [Except.map]

theorem Spells.scan (h : Spells text tokens) : scan text = .ok tokens := by
  have hall := h [] (by simp [Apart])
  rw [List.append_nil] at hall
  rw [Token.scan, hall]
  simp [scanFrom, ofEndedWord, Except.map]

end

/-!
## Words

A word is a name or a literal by its first character.
-/

theorem toNat_of_isAlpha {c : Char} (h : c.isAlpha = true) :
    65 ≤ c.toNat ∧ c.toNat ≤ 90 ∨ 97 ≤ c.toNat ∧ c.toNat ≤ 122 := by
  have hclass :
      c.isAlpha = (decide (65 ≤ c.val ∧ c.val ≤ 90) ||
        decide (97 ≤ c.val) && decide (c.val ≤ 122)) := rfl
  simp only [hclass, Bool.or_eq_true, Bool.and_eq_true, decide_eq_true_eq,
    UInt32.le_iff_toNat_le] at h
  exact h

theorem isDigit_of_isAlpha {c : Char} (h : c.isAlpha = true) : c.isDigit = false := by
  have hletter := toNat_of_isAlpha h
  rw [← Bool.not_eq_true, Char.isDigit_iff_toNat]
  simp only [Char.reduceToNat]
  omega

theorem begins_name_iff {c : Char} :
    (c.isAlpha || c == '_') = true ↔ isWordChar c = true ∧ c.isDigit = false := by
  by_cases hunderscore : c = '_'
  · subst hunderscore
    decide
  · simp only [isWordChar, Char.isAlphanum, Bool.or_eq_true, beq_iff_eq, hunderscore,
      or_false]
    constructor
    · intro halpha
      exact ⟨.inl halpha, isDigit_of_isAlpha halpha⟩
    · rintro ⟨halpha | hdigit, hother⟩
      · exact halpha
      · simp [hdigit] at hother

theorem isName_iff {name : String} :
    isName name = true ↔
      ∃ first rest, name.toList = first :: rest ∧ isWordChar first = true ∧
        first.isDigit = false ∧
        ∀ c ∈ rest, isWordChar c = true := by
  unfold isName
  split
  · next heq => simp [heq]
  · next first rest heq =>
    rw [Bool.and_eq_true, begins_name_iff]
    simp [heq, isWordChar, and_assoc]

theorem isWordChar_of_isDigit {c : Char} (h : c.isDigit = true) : isWordChar c = true := by
  simp [isWordChar, Char.isAlphanum, h]

theorem isWordChar_of_isName {name : String} (h : isName name = true) :
    ∀ c ∈ name.toList, isWordChar c = true := by
  obtain ⟨first, rest, heq, hfirst, -, hrest⟩ := isName_iff.1 h
  rw [heq, List.forall_mem_cons]
  exact ⟨hfirst, hrest⟩

theorem spells_name {name : String} (h : isName name = true) :
    Spells name.toList [.ident name] := by
  obtain ⟨first, rest, heq, -, hdigit, -⟩ := isName_iff.1 h
  refine spells_word (isWordChar_of_isName h) ?_
  rw [heq, ofWord, if_neg (by simp [hdigit]), ← heq, String.ofList_toList]

theorem numeralFrom_of_isDigit {digits : List Char} (h : ∀ c ∈ digits, c.isDigit = true)
    (start : Nat) :
    numeralFrom 10 start digits = some (Nat.ofDigitChars 10 digits start) := by
  induction digits generalizing start with
  | nil => rfl
  | cons c digits ih =>
    obtain ⟨hc, hdigits⟩ := List.forall_mem_cons.1 h
    have hvalue : c.toNat - '0'.toNat < 10 := by
      have hle := (Char.isDigit_iff_toNat.1 hc).2
      simp only [Char.reduceToNat] at hle ⊢
      omega
    rw [numeralFrom, digitValue?, if_pos hc, Nat.ofDigitChars_cons, ← ih hdigits,
      Nat.mul_comm 10 start]
    exact if_pos hvalue

theorem literalDigits_of_isDigit {text : List Char} (h : ∀ c ∈ text, c.isDigit = true) :
    literalDigits text = (10, text) := by
  unfold literalDigits
  split
  · exact absurd (h 'x' (by simp)) (by decide)
  · exact absurd (h 'X' (by simp)) (by decide)
  · have hkeep : text.reverse.dropWhile isSuffixChar = text.reverse := by
      cases hlast : text.reverse with
      | nil => rfl
      | cons c rest =>
        have hc : c.isDigit = true := h c (List.mem_reverse.1 (by simp [hlast]))
        refine List.dropWhile_cons_of_neg ?_
        intro hsuffix
        simp only [isSuffixChar, Bool.or_eq_true, beq_iff_eq] at hsuffix
        obtain ((rfl | rfl) | rfl) | rfl := hsuffix <;> exact absurd hc (by decide)
    rw [hkeep, List.reverse_reverse]

theorem isDigit_toDigits (n : Nat) : ∀ c ∈ Nat.toDigits 10 n, c.isDigit = true := fun _ =>
  Nat.isDigit_of_mem_toDigits (by decide) (by decide)

theorem literal?_toDigits {n : Nat} (h : n ≤ maxLiteral) :
    literal? (Nat.toDigits 10 n) = some n := by
  have hnumeral : numeral? 10 (Nat.toDigits 10 n) = some n := by
    rw [numeral?, if_neg (by simp), numeralFrom_of_isDigit (isDigit_toDigits n),
      Nat.ofDigitChars_toDigits (by decide) (by decide)]
  simp [literal?, literalDigits_of_isDigit (isDigit_toDigits n), hnumeral, h]

theorem exists_toDigits_of_isLiteral {value : Int} (h : isLiteral value = true) :
    ∃ n : Nat, value = n ∧ n ≤ maxLiteral ∧
      (toString value).toList = Nat.toDigits 10 n := by
  simp only [isLiteral, Bool.and_eq_true, decide_eq_true_eq] at h
  obtain ⟨n, rfl⟩ := Int.eq_ofNat_of_zero_le h.1
  refine ⟨n, rfl, ?_, Nat.toList_repr⟩
  simp only [maxLiteral]
  omega

theorem spells_literal {value : Int} (h : isLiteral value = true) :
    Spells (toString value).toList [.int value] := by
  obtain ⟨n, rfl, hle, htext⟩ := exists_toDigits_of_isLiteral h
  have hdigits := isDigit_toDigits n
  rw [htext]
  refine spells_word (fun c hc => isWordChar_of_isDigit (hdigits c hc)) ?_
  have hliteral := literal?_toDigits hle
  cases hword : Nat.toDigits 10 n with
  | nil => exact absurd hword Nat.toDigits_ne_nil
  | cons c rest =>
    rw [hword] at hliteral hdigits
    rw [ofWord, if_pos (hdigits c (by simp)), hliteral]

/-! ## What the scanner gives -/

theorem isProper_of_ofWord {word : List Char} (hword : ∀ c ∈ word, isWordChar c = true)
    {token : Token} (h : ofWord word = .ok token) : token.isProper = true := by
  unfold ofWord at h
  split at h
  · cases h
  · next first rest =>
    split at h
    · split at h
      · next n hliteral =>
        cases h
        have hle : n ≤ maxLiteral := by simpa using (Option.filter_eq_some_iff.1 hliteral).2
        simp only [maxLiteral] at hle
        simp only [isProper, isLiteral, Bool.and_eq_true, decide_eq_true_eq]
        omega
      · cases h
    · next hdigit =>
      cases h
      obtain ⟨hfirst, hrest⟩ := List.forall_mem_cons.1 hword
      exact isName_iff.2 ⟨first, rest, String.toList_ofList,
        hfirst, by simpa using hdigit, hrest⟩

theorem isProper_of_ofEndedWord {word : List Char}
    (hword : ∀ c ∈ word, isWordChar c = true) {tokens : List Token}
    (h : ofEndedWord word = .ok tokens) : ∀ token ∈ tokens, token.isProper = true := by
  unfold ofEndedWord at h
  split at h
  · cases h
    simp
  · obtain ⟨token, htoken, rfl⟩ := map_eq_ok_iff.1 h
    simpa using isProper_of_ofWord hword htoken

theorem isProper_of_ofSymbol? {c : Char} {token : Token}
    (h : ofSymbol? c = some token) : token.isProper = true := by
  unfold ofSymbol? at h
  split at h <;> cases h <;> rfl

theorem isProper_of_scanFrom {word text : List Char} {tokens : List Token}
    (hword : ∀ c ∈ word, isWordChar c = true) (h : scanFrom word text = .ok tokens) :
    ∀ token ∈ tokens, token.isProper = true := by
  -- The word that is carried along consists of word characters; that is what the scan
  -- keeps.
  fun_induction scanFrom word text generalizing tokens with
  | case1 word => exact isProper_of_ofEndedWord hword h
  | case2 word rest ih =>
    obtain ⟨ended, hended, h⟩ := bind_eq_ok_iff.1 h
    obtain ⟨others, hothers, h⟩ := bind_eq_ok_iff.1 h
    obtain rfl := pure_eq_ok_iff.1 h
    have hproper := isProper_of_ofEndedWord hword hended
    have hrest := ih (by simp) hothers
    simp only [List.forall_mem_append, List.forall_mem_cons]
    exact ⟨hproper, rfl, hrest⟩
  | case3 word c rest _ hc ih =>
    refine ih ?_ h
    rw [List.forall_mem_append, List.forall_mem_singleton]
    exact ⟨hword, hc⟩
  | case4 word c rest _ _ ih =>
    obtain ⟨ended, hended, h⟩ := bind_eq_ok_iff.1 h
    have hproper := isProper_of_ofEndedWord hword hended
    split at h
    · obtain ⟨others, hothers, h⟩ := bind_eq_ok_iff.1 h
      obtain rfl := pure_eq_ok_iff.1 h
      rw [List.forall_mem_append]
      exact ⟨hproper, ih (by simp) hothers⟩
    · split at h
      · next symbol hsymbol =>
        obtain ⟨others, hothers, h⟩ := bind_eq_ok_iff.1 h
        obtain rfl := pure_eq_ok_iff.1 h
        rw [List.forall_mem_append, List.forall_mem_cons]
        exact ⟨hproper, isProper_of_ofSymbol? hsymbol, ih (by simp) hothers⟩
      · cases h

end Token

namespace Expr

open Token (Spells isName isLiteral)

def isProper : Expr → Bool
  | ident name => isName name
  | int value => isLiteral value
  | addrOf inner | deref inner => inner.isProper
  | field base name => base.isProper && isName name
  | index base position => base.isProper && position.isProper

/-! ## What an expression is printed as -/

/-- Tokens with parentheses around them if `needed`. -/
def enclose (needed : Bool) (tokens : List Token) : List Token :=
  if needed then .lparen :: tokens ++ [.rparen] else tokens

/-- The tokens of a printed expression. The cases are those of `render`, with
parentheses where it has them. -/
def tokens : Expr → List Token
  | ident name => [.ident name]
  | int value => [.int value]
  | addrOf inner => .amp :: tokens inner
  | deref inner => .star :: enclose (!inner.isAtom) (tokens inner)
  | field (deref pointer) name =>
    enclose pointer.isUnary (tokens pointer) ++ [.arrow, .ident name]
  | field base name => enclose base.isUnary (tokens base) ++ [.dot, .ident name]
  | index base position =>
    enclose base.isUnary (tokens base) ++ .lbracket :: (tokens position ++ [.rbracket])

theorem spells_enclose {text : String} {tokens : List Token} (needed : Bool)
    (h : Spells text.toList tokens) :
    Spells (parenthesize needed text).toList (enclose needed tokens) := by
  cases needed with
  | false => exact h
  | true =>
    have hclosed : Spells (text.toList ++ [')']) (tokens ++ [.rparen]) :=
      h.append (Token.spells_nil.symbol rfl) (by decide)
    have htext : (parenthesize true text).toList = '(' :: (text.toList ++ [')']) := by
      simp [parenthesize]
    rw [htext]
    exact hclosed.symbol rfl

theorem spells_render {e : Expr} (h : e.isProper = true) :
    Spells e.render.toList e.tokens := by
  fun_induction render e with
  | case1 name => exact Token.spells_name h
  | case2 value => exact Token.spells_literal h
  | case3 inner ih =>
    rw [String.toList_append]
    exact (ih h).symbol rfl
  | case4 inner ih =>
    rw [String.toList_append]
    exact (spells_enclose _ (ih h)).symbol rfl
  | case5 pointer name ih =>
    simp only [isProper, Bool.and_eq_true] at h
    simp only [String.toList_append, List.append_assoc]
    exact (spells_enclose _ (ih h.1)).append (Token.spells_name h.2).arrow (by decide)
  | case6 base name hbase ih =>
    simp only [isProper, Bool.and_eq_true] at h
    simp only [String.toList_append, List.append_assoc]
    rw [tokens]
    · exact (spells_enclose _ (ih h.1)).append ((Token.spells_name h.2).symbol rfl)
        (by decide)
    · exact hbase
  | case7 base position ihbase ihposition =>
    simp only [isProper, Bool.and_eq_true] at h
    simp only [String.toList_append, List.append_assoc]
    have hclosed :=
      (ihposition h.2).append (Token.spells_nil.symbol (c := ']') rfl) (by decide)
    exact (spells_enclose _ (ihbase h.1)).append (hclosed.symbol rfl) (by decide)

theorem derives_enclose {e : Expr} {tokens : List Token} {needed : Bool}
    (hexpr : Derives .expr tokens e)
    (hbare : needed = false → Derives .postfixed tokens e) :
    Derives .postfixed (enclose needed tokens) e := by
  cases needed with
  | false => exact hbare rfl
  | true => exact .primary (.paren hexpr)

/-- An expression is derived from its tokens, and all but the unary ones can be selected
from as they stand. -/
theorem derives_tokens (e : Expr) :
    Derives .expr e.tokens e ∧ (e.isUnary = false → Derives .postfixed e.tokens e) := by
  -- of the forms that are not unary, the second part gives the first
  have hboth : ∀ {tokens : List Token} {e : Expr}, Derives .postfixed tokens e →
      Derives .expr tokens e ∧ (e.isUnary = false → Derives .postfixed tokens e) :=
    fun h => ⟨.postfixed h, fun _ => h⟩
  fun_induction tokens e with
  | case1 name => exact hboth (.primary (.ident name))
  | case2 value => exact hboth (.primary (.int value))
  | case3 inner ih => exact ⟨.addrOf ih.1, nofun⟩
  | case4 inner ih =>
    have hatom : (!inner.isAtom) = false → inner.isUnary = false := by
      cases inner <;> simp [isAtom, isUnary]
    exact ⟨.deref (.postfixed (derives_enclose ih.1 fun hbare => ih.2 (hatom hbare))),
      nofun⟩
  | case5 pointer name ih => exact hboth (.arrow name (derives_enclose ih.1 ih.2))
  | case6 base name _ ih => exact hboth (.dot name (derives_enclose ih.1 ih.2))
  | case7 base position ihbase ihposition =>
    refine hboth ?_
    have hindex := (derives_enclose ihbase.1 ihbase.2).index ihposition.1
    rwa [List.append_assoc] at hindex

theorem Derives.isProper {level : Level} {tokens : List Token} {e : Expr}
    (h : Derives level tokens e) (hproper : ∀ token ∈ tokens, token.isProper = true) :
    e.isProper = true := by
  induction h with
  | addrOf _ ih => exact ih (List.forall_mem_cons.1 hproper).2
  | deref _ ih => exact ih (List.forall_mem_cons.1 hproper).2
  | postfixed _ ih | primary _ ih => exact ih hproper
  | arrow name _ ih | dot name _ ih =>
    simp only [List.forall_mem_append, List.forall_mem_cons] at hproper
    obtain ⟨hbase, -, hname, -⟩ := hproper
    exact Bool.and_eq_true_iff.2 ⟨ih hbase, hname⟩
  | index _ _ ihbase ihposition =>
    simp only [List.forall_mem_append, List.forall_mem_cons] at hproper
    obtain ⟨⟨hbase, -, hposition⟩, -⟩ := hproper
    exact Bool.and_eq_true_iff.2 ⟨ihbase hbase, ihposition hposition⟩
  | ident name | int value => exact hproper _ (List.mem_singleton_self _)
  | paren _ ih =>
    simp only [List.forall_mem_append, List.forall_mem_cons] at hproper
    exact ih hproper.1.2

theorem parse_render_of_isProper {e : Expr} (h : e.isProper = true) :
    parse e.render = .ok e :=
  parse_eq_ok_iff.2 ⟨e.tokens, (spells_render h).scan, (derives_tokens e).1⟩

theorem isProper_of_parse {input : String} {e : Expr} (h : parse input = .ok e) :
    e.isProper = true := by
  obtain ⟨tokens, hscan, hderives⟩ := parse_eq_ok_iff.1 h
  exact hderives.isProper (Token.isProper_of_scanFrom (by simp) hscan)

/-- **Printing an expression and reading it again gives the expression**, if and only if
its words are names and literals. The expressions of this kind are exactly those that
some text is parsed as, so a text that is accepted can be replaced by its printed
form. -/
theorem parse_render (e : Expr) :
    (e.isProper = true ↔ parse e.render = .ok e) ∧
      (e.isProper = true ↔ ∃ input, parse input = .ok e) ∧
      ∀ input, parse input = .ok e → parse e.render = .ok e := by
  refine ⟨⟨parse_render_of_isProper, isProper_of_parse⟩, ⟨?_, ?_⟩, ?_⟩
  · intro h
    exact ⟨e.render, parse_render_of_isProper h⟩
  · rintro ⟨input, h⟩
    exact isProper_of_parse h
  · intro input h
    exact parse_render_of_isProper (isProper_of_parse h)

/-- The bases that need parentheses: a field through two pointers, an element of a
dereference, a field of an address. -/
theorem parse_render_nested :
    let e :=
      deref (index (deref (field (deref (deref (ident "p"))) "lock_0"))
        (field (addrOf (ident "_i")) "f"))
    e.render = "*((*((*p)->lock_0))[(&_i).f])" ∧ parse e.render = .ok e :=
  ⟨by decide +kernel, (parse_render _).1.1 (by decide +kernel)⟩

end Expr

end Custody
