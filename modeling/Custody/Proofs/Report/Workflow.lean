import Custody.Report.Printer
import Mathlib.Data.List.Basic

/-!
# Workflow commands

A workflow command is read up to the end of its line, and its reader turns the escapes
`%0A`, `%0D` and `%25` back into characters. So a text that is put into a command must
not break the line, and must be the same after it was read.

`escape` handles each character once. It is also what three replacements on the whole
text make, one after the other, if that of the percent sign comes first
(`escape_eq_replace`); later it would hit the escapes that are there by then.

The reader is not part of the program, so it is defined here, as it is specified: from
left to right, each escape once, and whatever is no escape for itself. It accepts every
text. That it gives back what was escaped therefore says that escaping is injective, and
more, since it says how to undo it.
-/

set_option autoImplicit false

namespace Custody.Workflow

/-! ## Reading -/

/-- Characters as they are read: each escape stands for its character, from left to
right, and what is no escape for itself. -/
def unescapeChars : List Char → List Char
  | '%' :: '2' :: '5' :: rest => '%' :: unescapeChars rest
  | '%' :: '0' :: 'D' :: rest => '\r' :: unescapeChars rest
  | '%' :: '0' :: 'A' :: rest => '\n' :: unescapeChars rest
  | c :: rest => c :: unescapeChars rest
  | [] => []

def unescape (text : String) : String := String.ofList (unescapeChars text.toList)

theorem unescapeChars_cons {c : Char} (h : c ≠ '%') (rest : List Char) :
    unescapeChars (c :: rest) = c :: unescapeChars rest := by
  rw [unescapeChars] <;> rintro _ rfl <;> exact absurd rfl h

/-! ## Escaping -/

theorem escapeChar_cases (c : Char) :
    c = '%' ∧ escapeChar c = ['%', '2', '5'] ∨ c = '\r' ∧ escapeChar c = ['%', '0', 'D'] ∨
      c = '\n' ∧ escapeChar c = ['%', '0', 'A'] ∨ c ≠ '%' ∧ c ≠ '\r' ∧ c ≠ '\n' ∧
      escapeChar c = [c] := by
  unfold escapeChar
  split_ifs with hpercent hreturn hfeed
  · exact .inl ⟨hpercent, rfl⟩
  · exact .inr (.inl ⟨hreturn, rfl⟩)
  · exact .inr (.inr (.inl ⟨hfeed, rfl⟩))
  · exact .inr (.inr (.inr ⟨hpercent, hreturn, hfeed, rfl⟩))

theorem toList_escape (text : String) :
    (escape text).toList = text.toList.flatMap escapeChar :=
  String.toList_ofList

theorem unescapeChars_escapeChar (c : Char) (rest : List Char) :
    unescapeChars (escapeChar c ++ rest) = c :: unescapeChars rest := by
  obtain ⟨rfl, hchar⟩ | ⟨rfl, hchar⟩ | ⟨rfl, hchar⟩ | ⟨hpercent, -, -, hchar⟩ :=
    escapeChar_cases c
  · rw [hchar]
    rfl
  · rw [hchar]
    rfl
  · rw [hchar]
    rfl
  · rw [hchar]
    exact unescapeChars_cons hpercent rest

theorem unescape_escape (text : String) : unescape (escape text) = text := by
  have hchars : ∀ chars : List Char, unescapeChars (chars.flatMap escapeChar) = chars := by
    intro chars
    induction chars with
    | nil => rfl
    | cons c rest ih => rw [List.flatMap_cons, unescapeChars_escapeChar, ih]
  rw [unescape, toList_escape, hchars, String.ofList_toList]

/-! ## Replacing -/

def replace (c : Char) (new text : String) : String :=
  String.ofList (text.toList.flatMap fun other => if other = c then new.toList else [other])

theorem escape_eq_replace (text : String) :
    escape text = replace '\n' "%0A" (replace '\r' "%0D" (replace '%' "%25" text)) := by
  simp only [escape, replace, String.toList_ofList, List.flatMap_assoc]
  congr 2
  funext c
  obtain ⟨rfl, hchar⟩ | ⟨rfl, hchar⟩ | ⟨rfl, hchar⟩ |
      ⟨hpercent, hreturn, hfeed, hchar⟩ := escapeChar_cases c
  · rw [hchar]
    rfl
  · rw [hchar]
    rfl
  · rw [hchar]
    rfl
  · simp only [hchar, if_neg hpercent, if_neg hreturn, if_neg hfeed, List.flatMap_singleton]

/-!
## Lines

All parts of a command are escaped, or are names and numbers.
-/

/-- A text that does not break the line. -/
def OneLine (text : String) : Prop := '\r' ∉ text.toList ∧ '\n' ∉ text.toList

instance (text : String) : Decidable (OneLine text) :=
  inferInstanceAs (Decidable ('\r' ∉ text.toList ∧ '\n' ∉ text.toList))

theorem OneLine.append {a b : String} (ha : OneLine a) (hb : OneLine b) :
    OneLine (a ++ b) := by
  simp only [OneLine, String.toList_append, List.mem_append, not_or]
  exact ⟨⟨ha.1, hb.1⟩, ha.2, hb.2⟩

theorem oneLine_escape (text : String) : OneLine (escape text) := by
  have hchar : ∀ c, '\r' ∉ escapeChar c ∧ '\n' ∉ escapeChar c := by
    intro c
    obtain ⟨-, hchar⟩ | ⟨-, hchar⟩ | ⟨-, hchar⟩ | ⟨-, hreturn, hfeed, hchar⟩ :=
      escapeChar_cases c
    · rw [hchar]
      decide
    · rw [hchar]
      decide
    · rw [hchar]
      decide
    · rw [hchar, List.mem_singleton, List.mem_singleton]
      exact ⟨Ne.symm hreturn, Ne.symm hfeed⟩
  simp only [OneLine, toList_escape, List.mem_flatMap, not_exists, not_and]
  exact ⟨fun c _ => (hchar c).1, fun c _ => (hchar c).2⟩

theorem oneLine_toString (n : Nat) : OneLine (toString n) := by
  have hdigits : ∀ c ∈ (toString n).toList, c.isDigit = true := by
    intro c hc
    rw [Nat.toString_eq_repr, Nat.toList_repr] at hc
    exact Nat.isDigit_of_mem_toDigits (by decide) (by decide) hc
  exact ⟨fun h => absurd (hdigits _ h) (by decide), fun h =>
    absurd (hdigits _ h) (by decide)⟩

theorem oneLine_kindName (kind : Kind) : OneLine kind.name := by
  cases kind <;> decide

theorem oneLine_severityName (severity : Severity) : OneLine severity.name := by
  cases severity <;> decide

/-- **Escaping loses nothing and keeps a command on one line.** An escaped text has no
line break, is read as the text that was escaped, and is what the three replacements
make of it; and the command for a diagnostic has no line break, whatever the diagnostic
says and whether or not warnings are denied. -/
theorem escape_lossless :
    (∀ text, OneLine (escape text) ∧ unescape (escape text) = text ∧
      escape text = replace '\n' "%0A" (replace '\r' "%0D" (replace '%' "%25" text))) ∧
    ∀ (d : Diagnostic) (denyWarnings : Bool), OneLine (d.workflowCommand denyWarnings) := by
  refine ⟨fun text =>
    ⟨oneLine_escape text, unescape_escape text, escape_eq_replace text⟩,
    fun d denyWarnings => ?_⟩
  -- The texts of the diagnostic are escaped; the rest is names, a number and literals.
  have hlevel := oneLine_severityName (if denyWarnings then .error else d.severity)
  have hunit := oneLine_escape d.location.unit
  have hline := oneLine_toString (d.location.line.getD 1)
  have hkind := oneLine_kindName d.kind
  obtain ⟨hcolons, hfile, hat, htitle⟩ :
      OneLine "::" ∧ OneLine " file=" ∧ OneLine ",line=" ∧ OneLine ",col=1,title=" := by
    decide
  exact ((((((((hcolons.append hlevel).append hfile).append hunit).append hat).append
    hline).append htitle).append hkind).append hcolons).append (oneLine_escape _)

end Custody.Workflow
