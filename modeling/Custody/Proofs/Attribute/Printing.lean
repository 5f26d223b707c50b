import Custody.Attribute.Basic
import Custody.Proofs.Expr.Printing

/-!
# Attributes that are printed

`Attribute.written` puts printed expressions between the parentheses of an attribute.
Three cuts have to find them again: the first parenthesis ends the name, one at the end
is dropped, and commas outside brackets divide what remains. A printed expression is not
cut by the last of these, since it has no comma and closes the brackets it opens
(`Uncut`), and nothing is trimmed from it, since it has no blank.

`Form.Takes` says which lists of expressions a form takes, and what it makes of them. An
attribute is read as an annotation if and only if its form takes its arguments so
(`parse_written`).

`Uncut` is stated by what the loop over characters does, at any depth and with anything
in front of it and behind. That brackets are balanced would be the obvious condition,
and it would have to be shown of printed expressions and then used for the loop. Stated
like this it is shown by going along with the printer, piece by piece (`Compact.append`,
`Compact.enclosed`), and used as it is.
-/

set_option autoImplicit false

namespace Custody

/-! ## Blanks -/

namespace Text

theorem isBlank_eq_false {c : Char} (h : 0x20 < c.toNat ∧ c.toNat < 0x7F) :
    isBlank c = false := by
  rw [← Bool.not_eq_true]
  simp only [isBlank, blankRanges, List.any_cons, List.any_nil, Bool.or_eq_true,
    Bool.and_eq_true, decide_eq_true_eq, Bool.false_eq_true, or_false]
  omega

theorem dropWhile_isBlank {text : List Char} (h : ∀ c ∈ text.head?, isBlank c = false) :
    text.dropWhile isBlank = text := by
  cases text with
  | nil => rfl
  | cons c rest =>
    have hc := h c rfl
    exact List.dropWhile_cons_of_neg (by simp [hc])

theorem trimmed_eq_self {text : List Char} (hfirst : ∀ c ∈ text.head?, isBlank c = false)
    (hlast : ∀ c ∈ text.getLast?, isBlank c = false) : trimmed text = text := by
  rw [trimmed, dropBlanks, dropWhile_isBlank hfirst, dropFinalBlanks, dropWhile_isBlank,
    List.reverse_reverse]
  rwa [List.head?_reverse]

theorem trimmed_of_unblank {text : List Char} (h : ∀ c ∈ text, isBlank c = false) :
    trimmed text = text :=
  trimmed_eq_self (fun c hc => h c (List.mem_of_mem_head? hc)) (fun c hc =>
    h c (List.mem_of_mem_getLast? hc))

theorem trimmed_space (text : List Char) : trimmed (' ' :: text) = trimmed text := by
  have hspace : isBlank ' ' = true := by decide
  rw [trimmed, trimmed, dropBlanks, dropBlanks, List.dropWhile_cons_of_pos hspace]

end Text

/-! ## Texts in a list of arguments -/

theorem argumentsFrom_opening (depth : Int) (piece rest : List Char) {c : Char}
    (hc : c ∈ ['(', '[']) :
    argumentsFrom depth piece (c :: rest)
      = argumentsFrom (depth + 1) (piece ++ [c]) rest := by
  have hopens : (c == '(' || c == '[') = true := by simpa using hc
  rw [argumentsFrom, if_pos hopens]

theorem argumentsFrom_closing (depth : Int) (piece rest : List Char) {c : Char}
    (hc : c ∈ [')', ']']) :
    argumentsFrom depth piece (c :: rest) =
      argumentsFrom (depth - 1) (piece ++ [c]) rest := by
  simp only [List.mem_cons, List.not_mem_nil, or_false] at hc
  obtain rfl | rfl := hc <;> rfl

/-- A text that belongs to one argument wherever it stands: no comma in it divides, and
behind it as many brackets are open as before it. -/
def Uncut (text : List Char) : Prop :=
  ∀ depth piece rest,
    argumentsFrom depth piece (text ++ rest) = argumentsFrom depth (piece ++ text) rest

/-- A text that a list of arguments gives back as it is: no comma in it divides, and it
has no blanks that could be trimmed. -/
structure Compact (text : List Char) : Prop where
  uncut : Uncut text
  unblank : ∀ c ∈ text, Text.isBlank c = false

def isOrdinary (c : Char) : Bool := c ∉ ['(', '[', ')', ']', ','] && !Text.isBlank c

theorem isOrdinary_of_isWordChar {c : Char} (h : Token.isWordChar c = true) :
    isOrdinary c = true := by
  have hrange : 0x20 < c.toNat ∧ c.toNat < 0x7F := by
    simp only [Token.isWordChar, Char.isAlphanum, Bool.or_eq_true, beq_iff_eq] at h
    obtain (halpha | hdigit) | rfl := h
    · have hletter := Token.toNat_of_isAlpha halpha
      omega
    · rw [Char.isDigit_iff_toNat] at hdigit
      simp only [Char.reduceToNat] at hdigit
      omega
    · decide
  have hmeans : c ∉ ['(', '[', ')', ']', ','] := by
    intro hmem
    simp only [List.mem_cons, List.not_mem_nil, or_false] at hmem
    obtain rfl | rfl | rfl | rfl | rfl := hmem <;> exact absurd h (by decide)
  simp [isOrdinary, hmeans, Text.isBlank_eq_false hrange]

theorem compact_of_isOrdinary {text : List Char} (h : text.all isOrdinary = true) :
    Compact text := by
  rw [List.all_eq_true] at h
  refine ⟨?_, fun c hc => by simpa using (Bool.and_eq_true_iff.1 (h c hc)).2⟩
  induction text with
  | nil =>
    intro depth piece rest
    rw [List.nil_append, List.append_nil]
  | cons c text ih =>
    intro depth piece rest
    obtain ⟨hc, htext⟩ := List.forall_mem_cons.1 h
    have hstep :
        argumentsFrom depth piece (c :: (text ++ rest)) = argumentsFrom depth
          (piece ++ [c]) (text ++ rest) := by
      have hmeans := (Bool.and_eq_true_iff.1 hc).1
      simp only [List.mem_cons, List.not_mem_nil, or_false, not_or,
        decide_eq_true_eq] at hmeans
      simp [argumentsFrom, hmeans]
    rw [List.cons_append, hstep, ih htext, List.append_assoc, List.singleton_append]

namespace Compact

variable {text other : List Char}

theorem append (h : Compact text) (hother : Compact other) : Compact (text ++ other) := by
  constructor
  · intro depth piece rest
    rw [List.append_assoc, h.uncut, hother.uncut, List.append_assoc]
  · rw [List.forall_mem_append]
    exact ⟨h.unblank, hother.unblank⟩

/-- Brackets around a text are closed behind it. That they fit each other is not looked
at. -/
theorem enclosed (h : Compact text) {opening closing : Char}
    (hopening : opening ∈ ['(', '[']) (hclosing : closing ∈ [')', ']']) :
    Compact (opening :: (text ++ [closing])) := by
  constructor
  · intro depth piece rest
    calc argumentsFrom depth piece (opening :: (text ++ [closing]) ++ rest)
      _ = argumentsFrom (depth + 1) (piece ++ [opening]) (text ++ closing :: rest) := by
        rw [List.cons_append, argumentsFrom_opening _ _ _ hopening, List.append_assoc,
          List.singleton_append]
      _ = argumentsFrom depth (piece ++ opening :: (text ++ [closing])) rest := by
        rw [h.uncut, argumentsFrom_closing _ _ _ hclosing, Int.add_sub_cancel]
        simp
  · have hbrackets : ['(', '[', ')', ']'].all (!Text.isBlank ·) = true := by decide
    simp only [List.all_eq_true, Bool.not_eq_true'] at hbrackets
    rw [List.forall_mem_cons, List.forall_mem_append, List.forall_mem_singleton]
    refine ⟨hbrackets _ ?_, h.unblank, hbrackets _ ?_⟩
    · exact List.mem_append_left [')', ']'] hopening
    · exact List.mem_append_right ['(', '['] hclosing

end Compact

/-! ## Printed expressions among the arguments -/

namespace Expr

open Token (isName isLiteral)

theorem compact_name {name : String} (h : isName name = true) : Compact name.toList :=
  compact_of_isOrdinary (List.all_eq_true.2 fun c hc =>
    isOrdinary_of_isWordChar (Token.isWordChar_of_isName h c hc))

theorem compact_literal {value : Int} (h : isLiteral value = true) :
    Compact (toString value).toList := by
  obtain ⟨n, -, -, htext⟩ := Token.exists_toDigits_of_isLiteral h
  rw [htext]
  refine compact_of_isOrdinary (List.all_eq_true.2 fun c hc => ?_)
  exact isOrdinary_of_isWordChar
    (Token.isWordChar_of_isDigit (Token.isDigit_toDigits n c hc))

theorem compact_parenthesize {text : String} (needed : Bool) (h : Compact text.toList) :
    Compact (parenthesize needed text).toList := by
  cases needed with
  | false => exact h
  | true =>
    have htext : (parenthesize true text).toList = '(' :: (text.toList ++ [')']) := by
      simp [parenthesize]
    rw [htext]
    exact h.enclosed (by decide) (by decide)

theorem compact_render {e : Expr} (h : e.isProper = true) : Compact e.render.toList := by
  -- Each case puts compact pieces together. Brackets are printed in pairs, so that behind
  -- a piece as many are open as in front of it.
  fun_induction render e with
  | case1 name => exact compact_name h
  | case2 value => exact compact_literal h
  | case3 inner ih =>
    rw [String.toList_append]
    exact (compact_of_isOrdinary (by decide)).append (ih h)
  | case4 inner ih =>
    rw [String.toList_append]
    exact (compact_of_isOrdinary (by decide)).append (compact_parenthesize _ (ih h))
  | case5 pointer name ih =>
    simp only [isProper, Bool.and_eq_true] at h
    rw [String.toList_append, String.toList_append]
    exact ((compact_parenthesize _ (ih h.1)).append
      (compact_of_isOrdinary (by decide))).append (compact_name h.2)
  | case6 base name _ ih =>
    simp only [isProper, Bool.and_eq_true] at h
    rw [String.toList_append, String.toList_append]
    exact ((compact_parenthesize _ (ih h.1)).append
      (compact_of_isOrdinary (by decide))).append (compact_name h.2)
  | case7 base position ihbase ihposition =>
    simp only [isProper, Bool.and_eq_true] at h
    simp only [String.toList_append, List.append_assoc]
    have hindex : Compact ('[' :: (position.render.toList ++ [']'])) :=
      (ihposition h.2).enclosed (by decide) (by decide)
    exact (compact_parenthesize _ (ihbase h.1)).append hindex

/-- A printed expression is not empty, since the empty text is no expression. -/
theorem render_ne_nil {e : Expr} (h : e.isProper = true) : e.render.toList ≠ [] := by
  intro hnil
  have hparse := parse_render_of_isProper h
  rw [String.toList_eq_nil_iff.1 hnil] at hparse
  cases hparse

end Expr

theorem argumentsFrom_intercalate {text : List Char} {texts : List (List Char)}
    (htext : Uncut text) (htexts : ∀ text ∈ texts, Uncut text) (piece : List Char) :
    argumentsFrom 0 piece ([',', ' '].intercalate (text :: texts)) =
      (piece ++ text) :: texts.map (' ' :: ·) := by
  induction texts generalizing text piece with
  | nil =>
    rw [List.intercalate_singleton, ← List.append_nil text, htext]
    simp [argumentsFrom]
  | cons next texts ih =>
    obtain ⟨hnext, htexts⟩ := List.forall_mem_cons.1 htexts
    have hcomma : ∀ rest, argumentsFrom 0 (piece ++ text) ([',', ' '] ++ rest)
        = (piece ++ text) :: argumentsFrom 0 [' '] rest := fun _ => rfl
    rw [List.intercalate_cons_cons, List.append_assoc, htext, hcomma, ih hnext htexts]
    rfl

/-- **The arguments of a printed list are the texts it was made of.** They are printed
with a comma and a blank between them, and the blank is trimmed. -/
theorem splitArguments_intercalate {texts : List String}
    (h : ∀ text ∈ texts, Compact text.toList)
    (hnil : ∀ text ∈ texts, text.toList ≠ []) :
    splitArguments (", ".intercalate texts) = texts := by
  cases texts with
  | nil => rfl
  | cons first rest =>
    obtain ⟨hfirst, hrest⟩ := List.forall_mem_cons.1 h
    have hpieces : argumentsFrom 0 [] (", ".intercalate (first :: rest)).toList
        = first.toList :: rest.map (' ' :: ·.toList) := by
      rw [String.toList_intercalate, List.map_cons]
      have huncut : ∀ text ∈ rest.map String.toList, Uncut text :=
        List.forall_mem_map.2 fun text htext => (hrest text htext).uncut
      exact (argumentsFrom_intercalate hfirst.uncut huncut []).trans (by simp)
    have htrimmed : (first.toList :: rest.map (' ' :: ·.toList)).map Text.trimmed
        = first.toList :: rest.map String.toList := by
      rw [List.map_cons, Text.trimmed_of_unblank hfirst.unblank, List.map_map]
      refine congrArg _ (List.map_congr_left fun text htext => ?_)
      exact (Text.trimmed_space _).trans
        (Text.trimmed_of_unblank (hrest text htext).unblank)
    rw [splitArguments, hpieces, htrimmed]
    split
    · next hblank =>
      have hempty : first.toList = [] := (List.cons.inj hblank).1
      exact absurd hempty (hnil first List.mem_cons_self)
    · simp [Function.comp_def]

/-! ## What a form takes -/

namespace Attribute

/-- The expressions that spell the result on which a try-acquire succeeds. Any other
expression in its place is refused. -/
def successSpellings : Bool → List Expr
  | true => [.int 1, .ident "true"]
  | false => [.int 0, .ident "false"]

/-- What a form makes of the arguments it takes. One rule for each form, and two for
try-acquires, where the value may be left out in some spellings. -/
inductive Form.Takes : Form → List Expr → Annotation → Prop where
  | requires (mode : Mode) {args : List Expr} (h : args ≠ []) :
      Takes (.requires mode) args (.requires mode args)
  | excludes {args : List Expr} (h : args ≠ []) : Takes .excludes args (.excludes args)
  | acquires (mode : Mode) {args : List Expr} (h : args ≠ []) :
      Takes (.acquires mode) args (.acquires mode args)
  | releases (mode : Mode) {args : List Expr} (h : args ≠ []) :
      Takes (.releases mode) args (.releases mode args)
  | asserts (mode : Mode) {args : List Expr} (h : args ≠ []) :
      Takes (.asserts mode) args (.asserts mode args)
  /-- The success value, and then the capabilities. -/
  | onValue (mode : Mode) (valueRequired : Bool) {success : Bool} {value : Expr}
      {args : List Expr} (hvalue : value ∈ successSpellings success) (h : args ≠ []) :
      Takes (.tryAcquires mode valueRequired) (value :: args)
        (.tryAcquires mode success args)
  /-- A capability alone, where the success value may be left out. -/
  | onTrue (mode : Mode) (arg : Expr) :
      Takes (.tryAcquires mode false) [arg] (.tryAcquires mode true [arg])
  | returns (arg : Expr) : Takes .returns [arg] (.returns arg)
  | guardedBy (arg : Expr) : Takes .guardedBy [arg] (.guardedBy arg)
  | pointeeGuardedBy (arg : Expr) : Takes .pointeeGuardedBy [arg] (.pointeeGuardedBy arg)
  | noAnalysis (args : List Expr) : Takes .noAnalysis args .noAnalysis

section

variable {args : List Expr} {meaning : Annotation}

theorem exprs_render (h : ∀ arg ∈ args, arg.isProper = true) :
    exprs (args.map Expr.render) = .ok args := by
  rw [exprs, mapM_eq_ok_iff, List.map_map]
  refine List.map_congr_left fun arg harg => ?_
  exact mapError_eq_ok_iff.2 (Expr.parse_render_of_isProper (h arg harg))

theorem atLeastOne_render (h : ∀ arg ∈ args, arg.isProper = true)
    (make : List Expr → Annotation) :
    (atLeastOne (args.map Expr.render)).map make = .ok meaning ↔
      args ≠ [] ∧ make args = meaning := by
  cases args with
  | nil => simp [atLeastOne, Except.map]
  | cons first rest =>
    have hexprs := exprs_render h
    simp [atLeastOne, List.map_cons ▸ hexprs, Except.map]

theorem exactlyOne_render (h : ∀ arg ∈ args, arg.isProper = true)
    (make : Expr → Annotation) :
    (exactlyOne (args.map Expr.render)).map make = .ok meaning ↔
      ∃ arg, args = [arg] ∧ make arg = meaning := by
  match args with
  | [] => simp [exactlyOne, Except.map]
  | [arg] =>
    have hparse := Expr.parse_render_of_isProper (h arg (by simp))
    simp [exactlyOne, hparse, Except.map, Except.mapError]
  | _ :: _ :: _ => simp [exactlyOne, Except.map]

theorem mem_successSpellings {value : Expr} {success : Bool} :
    value ∈ successSpellings success ↔ value.asInt? = some success.toInt := by
  cases value with
  | ident name =>
    by_cases htrue : name = "true"
    · cases success <;> simp [successSpellings, Expr.asInt?, htrue]
    · by_cases hfalse : name = "false" <;> cases success <;>
        simp [successSpellings, Expr.asInt?, htrue, hfalse]
  | int | addrOf | deref | field | index =>
    cases success <;> simp [successSpellings, Expr.asInt?]

theorem successValue_render {value : Expr} (h : value.isProper = true) {success : Bool} :
    successValue value.render = .ok success ↔ value ∈ successSpellings success := by
  have hparse : (Expr.parse value.render).toOption.bind Expr.asInt? = value.asInt? := by
    rw [Expr.parse_render_of_isProper h]
    rfl
  rw [successValue, hparse, mem_successSpellings]
  split
  · next hzero => cases success <;> simp [hzero]
  · next hone => cases success <;> simp [hone]
  · next hzero hone =>
    cases success with
    | false => simpa using hzero
    | true => simpa using hone

theorem attempt_render (h : ∀ arg ∈ args, arg.isProper = true) (mode : Mode)
    (valueRequired : Bool) :
    ((attempt valueRequired (args.map Expr.render)).map fun (success, caps) =>
      .tryAcquires mode success caps)
      = .ok meaning ↔ Form.Takes (.tryAcquires mode valueRequired) args meaning := by
  -- By the number of arguments, as `attempt` has it: one alone is a capability, and in
  -- front of others it is the success value.
  match args with
  | [] =>
    constructor
    · rintro ⟨⟩
    · rintro ⟨⟩
  | [arg] =>
    cases valueRequired with
    | true =>
      constructor
      · rintro ⟨⟩
      · rintro ⟨⟩
        contradiction
    | false =>
      have hexprs : exprs [arg.render] = .ok [arg] := exprs_render h
      have hattempt : attempt false [arg.render] = .ok (true, [arg]) := by
        simp [attempt, hexprs, Except.map]
      rw [List.map_singleton, hattempt]
      constructor
      · rintro ⟨⟩
        exact .onTrue mode arg
      · rintro ⟨⟩
        · contradiction
        · rfl
  | value :: next :: rest =>
    obtain ⟨hvalue, hrest⟩ := List.forall_mem_cons.1 h
    have hattempt : attempt valueRequired ((value :: next :: rest).map Expr.render)
        = (successValue value.render).map (·, next :: rest) := by
      have hexprs := exprs_render hrest
      rw [List.map_cons] at hexprs
      rw [List.map_cons, List.map_cons, attempt, hexprs]
      · cases successValue value.render <;> rfl
      · simp
    rw [hattempt]
    constructor
    · intro hok
      obtain ⟨pair, hpair, rfl⟩ := map_eq_ok_iff.1 hok
      obtain ⟨success, hsuccess, rfl⟩ := map_eq_ok_iff.1 hpair
      exact .onValue mode valueRequired ((successValue_render hvalue).1 hsuccess)
        (List.cons_ne_nil next rest)
    · rintro ⟨⟩
      next success hspelled _ =>
      rw [(successValue_render hvalue).2 hspelled]
      rfl

theorem read_render (h : ∀ arg ∈ args, arg.isProper = true) (form : Form) :
    form.read (args.map Expr.render) = .ok meaning ↔ form.Takes args meaning := by
  -- the forms that take any number of capabilities, and those that take one
  have hlist : ∀ {form : Form} {make : List Expr → Annotation},
      (args ≠ [] → form.Takes args (make args)) →
        (form.Takes args meaning → args ≠ [] ∧ make args = meaning) →
      ((atLeastOne (args.map Expr.render)).map make = .ok meaning ↔
        form.Takes args meaning) := by
    intro form make htakes hmade
    rw [atLeastOne_render h]
    refine ⟨?_, hmade⟩
    rintro ⟨hargs, rfl⟩
    exact htakes hargs
  have hsingle : ∀ {form : Form} {make : Expr → Annotation},
      (∀ arg, form.Takes [arg] (make arg)) →
      (form.Takes args meaning → ∃ arg, args = [arg] ∧ make arg = meaning) →
      ((exactlyOne (args.map Expr.render)).map make = .ok meaning ↔
        form.Takes args meaning) := by
    intro form make htakes hmade
    rw [exactlyOne_render h]
    refine ⟨?_, hmade⟩
    rintro ⟨arg, rfl, rfl⟩
    exact htakes arg
  cases form with
  | requires mode => exact hlist (.requires mode) fun | .requires _ hargs => ⟨hargs, rfl⟩
  | excludes => exact hlist .excludes fun | .excludes hargs => ⟨hargs, rfl⟩
  | acquires mode => exact hlist (.acquires mode) fun | .acquires _ hargs => ⟨hargs, rfl⟩
  | releases mode => exact hlist (.releases mode) fun | .releases _ hargs => ⟨hargs, rfl⟩
  | tryAcquires mode valueRequired => exact attempt_render h mode valueRequired
  | asserts mode => exact hlist (.asserts mode) fun | .asserts _ hargs => ⟨hargs, rfl⟩
  | returns => exact hsingle .returns fun | .returns arg => ⟨arg, rfl, rfl⟩
  | noAnalysis =>
    constructor
    · rintro ⟨⟩
      exact .noAnalysis args
    · rintro ⟨⟩
      rfl
  | guardedBy => exact hsingle .guardedBy fun | .guardedBy arg => ⟨arg, rfl, rfl⟩
  | pointeeGuardedBy =>
    exact hsingle .pointeeGuardedBy fun | .pointeeGuardedBy arg => ⟨arg, rfl, rfl⟩

end

/-! ## Attributes as text -/

def written (name : String) (args : List Expr) : String :=
  name ++ "(" ++ ", ".intercalate (args.map Expr.render) ++ ")"

theorem dropClosing_append (text : List Char) : dropClosing (text ++ [')']) = text := by
  simp [dropClosing]

/-- The name ends at the first parenthesis, and the last parenthesis is the one that
closes it, whatever stands between them. -/
theorem split_enclosed {name : String} (h : Token.isName name = true) (args : String) :
    split (name ++ "(" ++ args ++ ")") = (name, args) := by
  have hname := Expr.compact_name h
  have htext : (name ++ "(" ++ args ++ ")").toList = name.toList
      ++ '(' :: (args.toList ++ [')']) := by simp
  have htrimmed : Text.trimmed (name.toList ++ '(' :: (args.toList ++ [')']))
      = name.toList ++ '(' :: (args.toList ++ [')']) := by
    refine Text.trimmed_eq_self ?_ ?_
    · obtain ⟨first, rest, heq, -⟩ := Token.isName_iff.1 h
      rw [heq] at hname ⊢
      simpa using hname.unblank first List.mem_cons_self
    · have hlast : Text.isBlank ')' = false := by decide
      simpa [List.getLast?_append, List.getLast?_cons] using hlast
  have hbefore : ∀ c ∈ name.toList, (c != '(') = true := by
    intro c hc
    rw [bne_iff_ne]
    rintro rfl
    exact absurd (Token.isWordChar_of_isName h _ hc) (by decide)
  simp only [split, htext, htrimmed]
  rw [List.takeWhile_append_of_pos hbefore, List.dropWhile_append_of_pos hbefore]
  simp [dropClosing_append, Text.trimmed_of_unblank hname.unblank]

theorem isName_of_mem_spellings {name : String} {form : Form}
    (h : (name, form) ∈ Form.spellings) :
    Token.isName name = true := by
  have hall : ∀ entry ∈ Form.spellings, Token.isName entry.1 = true := by decide +kernel
  exact hall _ h

theorem ofName?_of_mem_spellings {name : String} {form : Form}
    (h : (name, form) ∈ Form.spellings) :
    Form.ofName? name = some form := by
  have hall : ∀ entry ∈ Form.spellings, Form.ofName? entry.1 = some entry.2 := by
    decide +kernel
  exact hall _ h

theorem splitArguments_render {args : List Expr} (h : ∀ arg ∈ args, arg.isProper = true) :
    splitArguments (", ".intercalate (args.map Expr.render)) = args.map Expr.render :=
  splitArguments_intercalate (List.forall_mem_map.2 fun arg harg =>
    Expr.compact_render (h arg harg))
    (List.forall_mem_map.2 fun arg harg => Expr.render_ne_nil (h arg harg))

end Attribute

namespace Annotation

open Attribute (Form written)

/-- **An attribute that is written is read as what its form makes of its arguments**,
and one whose form does not take its arguments is not read as an annotation. -/
theorem parse_written {name : String} {form : Form}
    (hname : (name, form) ∈ Form.spellings) {args : List Expr}
    (hargs : ∀ arg ∈ args, arg.isProper = true) (meaning : Annotation) :
    parse (written name args) = .ok (some meaning) ↔ form.Takes args meaning := by
  rw [← Attribute.read_render hargs form]
  simp only [parse, written,
    Attribute.split_enclosed (Attribute.isName_of_mem_spellings hname),
    Attribute.ofName?_of_mem_spellings hname, Attribute.splitArguments_render hargs]
  cases form.read (args.map Expr.render) <;> simp

/-- The value is an identifier, the first capability ends with a bracket and the last
with a parenthesis. -/
theorem parse_written_nested :
    let args : List Expr := [.index (.addrOf (.ident "f")) (.index (.ident "a") (.int 0)),
      .deref (.field (.deref (.ident "g")) "lock")]
    written "__try_acquires_shared_cap" (.ident "false" :: args)
        = "__try_acquires_shared_cap(false, (&f)[a[0]], *(g->lock))" ∧
      parse (written "__try_acquires_shared_cap" (.ident "false" :: args))
        = .ok (some (.tryAcquires .shared false args)) :=
  ⟨by decide +kernel, (parse_written (by decide +kernel) (by decide +kernel) _).2
    (.onValue .shared true (by decide) (by decide))⟩

end Annotation

end Custody
