import Custody.Proofs.Except
import Custody.Proofs.FinMap
import Custody.Table.Declarations
import Mathlib.Data.List.Nodup

/-!
# Declared capability types and tokens

The capability types and tokens of all units are declared in one pass, unit by unit and
in each unit types first. What the pass leaves is described here by the list of
declarations it has come by (`Describes`): a type is known if it has been declared, and
a token stands for what the last declaration of its name says. One declaration keeps
that, and so does the pass.

The pass has no problem exactly if no type is declared in two kinds and every token
stands after its type.

## Why one list of declarations

Types and tokens are declared by different functions, in two loops inside a loop over
units. But they are not independent. A token needs its type, and a token type is a token
too, so that the two write to one map and the later one counts. `CapDecl` puts them into
one list in the order of the pass, and `addUnits_eq_nil_iff` makes the three loops one
fold over it. What is proved by induction on the list is then proved of the pass.

## Why nothing is said of numbers

`Describes` gives the types as a set, and asks that each occurs once. The numbers follow
from the order of declarations and are of no interest by themselves; two registries with
the same types, in any order, are as good as each other
(`Proofs/UnitOrder/Declarations`).
-/

set_option autoImplicit false

namespace Custody

/-!
## Registries

A registry is a list, and the number of a type is its place. Types are only ever
appended, so that numbers which were given stay.
-/

namespace Registry

variable {registry : Registry} {name : String} {id : CapId}

/-- Every type has one number. It is kept by every declaration, and is what makes
`lookup` and `name` inverse to each other. -/
def Distinct (registry : Registry) : Prop := (registry.types.map (·.1)).Nodup

theorem getElem?_of_lookup (h : registry.lookup name = some id) :
    ∃ kind, registry.types[id.index]? = some (name, kind) := by
  obtain ⟨index, hindex, rfl⟩ := Option.map_eq_some_iff.1 h
  obtain ⟨hlt, hname, -⟩ := List.findIdx?_eq_some_iff_getElem.1 hindex
  exact ⟨registry.types[index].2,
    by rw [List.getElem?_eq_getElem hlt, ← of_decide_eq_true hname]⟩

theorem lookup_of_getElem? (hdistinct : registry.Distinct) {kind : CapKind}
    (h : registry.types[id.index]? = some (name, kind)) :
    registry.lookup name = some id := by
  obtain ⟨hlt, hentry⟩ := List.getElem?_eq_some_iff.1 h
  refine Option.map_eq_some_iff.2
    ⟨id.index, List.findIdx?_eq_some_iff_getElem.2 ⟨hlt, by simp [hentry], ?_⟩, rfl⟩
  intro earlier hearlier
  have hne := List.pairwise_iff_getElem.1 hdistinct earlier id.index
    (by simp; omega) (by simpa using hlt) hearlier
  simpa [hentry] using hne

theorem name_of_lookup (h : registry.lookup name = some id) : registry.name id = name := by
  obtain ⟨kind, hentry⟩ := getElem?_of_lookup h
  simp [Registry.name, hentry]

theorem mem_of_lookup (h : registry.lookup name = some id) :
    (name, registry.kind id) ∈ registry.types := by
  obtain ⟨kind, hentry⟩ := getElem?_of_lookup h
  simpa [Registry.kind, hentry] using List.mem_of_getElem? hentry

theorem lookup_of_mem (hdistinct : registry.Distinct) {kind : CapKind}
    (h : (name, kind) ∈ registry.types) :
    ∃ id, registry.lookup name = some id ∧ registry.kind id = kind := by
  obtain ⟨index, hindex⟩ := List.mem_iff_getElem?.1 h
  exact ⟨⟨index⟩, lookup_of_getElem? hdistinct hindex, by simp [Registry.kind, hindex]⟩

theorem lookup_eq_none_iff :
    registry.lookup name = none ↔ ∀ kind, (name, kind) ∉ registry.types := by
  simp only [lookup, Option.map_eq_none_iff, List.findIdx?_eq_none_iff,
    decide_eq_false_iff_not]
  constructor
  · intro h kind hmem
    exact h _ hmem rfl
  · rintro h ⟨other, kind⟩ hmem rfl
    exact h kind hmem

theorem lookup_append (h : registry.lookup name = some id) (added : String × CapKind) :
    lookup ⟨registry.types ++ [added]⟩ name = some id := by
  obtain ⟨index, hindex, rfl⟩ := Option.map_eq_some_iff.1 h
  simp [lookup, List.findIdx?_append, hindex]

theorem Distinct.append (h : registry.Distinct) (hnew : registry.lookup name = none)
    (kind : CapKind) :
    Distinct ⟨registry.types ++ [(name, kind)]⟩ := by
  rw [Distinct, List.map_append, List.map_singleton, List.nodup_append]
  refine ⟨h, List.nodup_singleton _, ?_⟩
  intro other hmem added hadded hsame
  obtain ⟨⟨found, old⟩, hentry, hfound⟩ := List.mem_map.1 hmem
  have hname : found = name := hfound.trans (hsame.trans (List.mem_singleton.1 hadded))
  exact lookup_eq_none_iff.1 hnew old (hname ▸ hentry)

/-- All that declaring a type can do: find it with the same kind, or put it at the end.
From here on `declare` is not unfolded. -/
theorem declare_eq_ok_iff {kind : CapKind} {result : CapId × Registry} :
    registry.declare name kind = .ok result ↔
      (registry.lookup name = some result.1 ∧ registry.kind result.1 = kind ∧
        result.2 = registry) ∨
      (registry.lookup name = none ∧
        result = (⟨registry.types.length⟩, ⟨registry.types ++ [(name, kind)]⟩)) := by
  obtain ⟨id, after⟩ := result
  unfold declare
  cases hlookup : registry.lookup name with
  | none => simp [eq_comm]
  | some found =>
    by_cases hkind : registry.kind found = kind
    · simp only [hkind, if_true, Except.ok.injEq, Prod.mk.injEq, Option.some.injEq,
        reduceCtorEq, false_and, or_false]
      constructor
      · rintro ⟨rfl, rfl⟩
        exact ⟨rfl, hkind, rfl⟩
      · rintro ⟨rfl, -, rfl⟩
        exact ⟨rfl, rfl⟩
    · simp only [hkind, if_false, reduceCtorEq, false_iff, Option.some.injEq, false_and,
        or_false, not_and]
      rintro rfl h
      exact absurd h hkind

end Registry

/-! ## The pass over the declarations -/

inductive CapDecl where
  | type (decl : CapTypeDecl)
  | token (decl : TokenDecl)
deriving DecidableEq

def CapTypeDecl.kind (decl : CapTypeDecl) : CapKind :=
  if decl.isToken then .token else .struct

/-- The capability type whose object a declaration says that a name is. A token type is
a token of its own name. -/
def CapDecl.meaning? (name : String) : CapDecl → Option String
  | type decl => if decl.isToken && decl.name = name then some decl.name else none
  | token decl => if decl.name = name then some decl.capability else none

/-- The declarations of units, in the order of the pass. -/
def SourceUnit.capDecls (units : List SourceUnit) : List CapDecl :=
  units.flatMap fun unit => unit.capTypes.map .type ++ unit.tokens.map .token

/-- The capability type of a token, by the last declaration of its name. It is told by
name and not by number, so that it can be compared between orders of the units. -/
def tokenType? (declared : List CapDecl) (name : String) : Option String :=
  (declared.filterMap (·.meaning? name)).getLast?

namespace Declarations

variable {decls after : Declarations}

def addCapDecl (decls : Declarations) : CapDecl → Except Problem Declarations
  | .type decl => decls.addCapType decl
  | .token decl => decls.addToken decl

theorem addAll_eq_nil_iff {α : Type}
    {add : Declarations → α → Except Problem Declarations} {name : α → String}
    {unit : String} {items : List α} :
    addAll add name unit decls items = (after, []) ↔
      items.foldlM add decls = .ok after := by
  induction items generalizing decls with
  | nil => simp [addAll, pure_eq_ok_iff]
  | cons item rest ih =>
    rw [addAll, List.foldlM_cons]
    cases add decls item with
    | ok mid => exact ih
    | error problem => simp [bind, Except.bind]

theorem addCapabilities_eq_nil_iff {unit : SourceUnit} :
    addCapabilities decls unit = (after, []) ↔
      (unit.capTypes.map CapDecl.type ++ unit.tokens.map CapDecl.token).foldlM
        addCapDecl decls = .ok after := by
  rw [List.foldlM_append, bind_eq_ok_iff, List.foldlM_map]
  simp only [List.foldlM_map, addCapDecl]
  constructor
  · intro h
    obtain ⟨hafter, herrors⟩ := Prod.mk.inj h
    obtain ⟨htypes, htokens⟩ := List.append_eq_nil_iff.1 herrors
    exact ⟨_, addAll_eq_nil_iff.1 (Prod.ext rfl htypes),
      addAll_eq_nil_iff.1 (Prod.ext hafter htokens)⟩
  · rintro ⟨mid, htypes, htokens⟩
    rw [addCapabilities, addAll_eq_nil_iff.2 htypes]
    simp only [addAll_eq_nil_iff.2 htokens, List.nil_append]

/-- The pass has no problem if every declaration has none. The pass itself goes on after
a problem, and collects them; the fold stops, and this is where the two agree. -/
theorem addUnits_eq_nil_iff {units : List SourceUnit} :
    addUnits decls units = (after, []) ↔
      (SourceUnit.capDecls units).foldlM addCapDecl decls = .ok after := by
  induction units generalizing decls with
  | nil => simp [addUnits, SourceUnit.capDecls, pure_eq_ok_iff]
  | cons unit rest ih =>
    rw [SourceUnit.capDecls, List.flatMap_cons, List.foldlM_append, bind_eq_ok_iff]
    constructor
    · intro h
      obtain ⟨hafter, herrors⟩ := Prod.mk.inj h
      obtain ⟨hfirst, hrest⟩ := List.append_eq_nil_iff.1 herrors
      exact ⟨_, addCapabilities_eq_nil_iff.1 (Prod.ext rfl hfirst),
        ih.1 (Prod.ext hafter hrest)⟩
    · rintro ⟨mid, hfirst, hrest⟩
      rw [addUnits, addCapabilities_eq_nil_iff.2 hfirst]
      simp only [ih.2 hrest, List.nil_append]

/-- What declarations of types and tokens have left, and nothing else. That the type of
a token is known (`known`) is kept besides, since the map of tokens would not show if it
was not. -/
structure Describes (decls : Declarations) (declared : List CapDecl) : Prop where
  distinct : decls.registry.Distinct
  types : ∀ name kind, (name, kind) ∈ decls.registry.types ↔
    ∃ decl, CapDecl.type decl ∈ declared ∧ decl.name = name ∧ decl.kind = kind
  tokens : ∀ name, decls.tokens.get? name
    = (tokenType? declared name).bind decls.registry.lookup
  known : ∀ name type, tokenType? declared name = some type →
    ∃ id, decls.registry.lookup type = some id
  structs : decls.structs = ∅
  globals : decls.globals = ∅

theorem describes_empty : empty.Describes [] where
  distinct := List.nodup_nil
  types := by simp [empty, Registry.empty]
  tokens := by simp [empty, tokenType?]
  known := by simp [tokenType?]
  structs := rfl
  globals := rfl

theorem tokenType?_append (declared : List CapDecl) (decl : CapDecl) (name : String) :
    tokenType? (declared ++ [decl]) name = (decl.meaning? name).or
      (tokenType? declared name) := by
  rw [tokenType?, List.filterMap_append, List.getLast?_append]
  cases h : decl.meaning? name <;> simp [List.filterMap, h, tokenType?]

variable {declared rest : List CapDecl}

theorem Describes.withType (h : decls.Describes declared) {decl : CapTypeDecl}
    {id : CapId} {registry : Registry} (hdistinct : registry.Distinct)
    (htypes : ∀ name kind, (name, kind) ∈ registry.types ↔
      (name, kind) ∈ decls.registry.types ∨ decl.name = name ∧ decl.kind = kind)
    (hstays : ∀ name id, decls.registry.lookup name = some id →
      registry.lookup name = some id)
    (hid : registry.lookup decl.name = some id) :
    Describes
      { decls with
        registry
        tokens := if decl.isToken then decls.tokens.insert decl.name id else decls.tokens }
      (declared ++ [.type decl]) where
  distinct := hdistinct
  types := by
    intro name kind
    rw [htypes, h.types]
    simp [or_and_right, exists_or]
  tokens := by
    intro name
    -- Tokens declared before keep their numbers, as types that were known keep theirs.
    have hold :
        (tokenType? declared name).bind registry.lookup = decls.tokens.get? name := by
      rw [h.tokens]
      cases htype : tokenType? declared name with
      | none => rfl
      | some type =>
        obtain ⟨found, hfound⟩ := h.known name type htype
        simp [hfound, hstays type found hfound]
    rw [tokenType?_append]
    cases htoken : decl.isToken with
    | false => simp [CapDecl.meaning?, htoken, hold]
    | true =>
      by_cases hname : decl.name = name
      · simp [CapDecl.meaning?, htoken, ← hname, hid]
      · simp [CapDecl.meaning?, htoken, hname, Ne.symm hname, hold]
  known := by
    intro name type htype
    rw [tokenType?_append, Option.or_eq_some_iff] at htype
    rcases htype with hnew | ⟨-, hold⟩
    · simp only [CapDecl.meaning?] at hnew
      split at hnew
      · exact ⟨id, by rw [← Option.some.inj hnew]; exact hid⟩
      · cases hnew
    · obtain ⟨found, hfound⟩ := h.known name type hold
      exact ⟨found, hstays type found hfound⟩
  structs := h.structs
  globals := h.globals

theorem Describes.addCapType (h : decls.Describes declared) {decl : CapTypeDecl}
    (hadd : decls.addCapType decl = .ok after) :
    after.Describes (declared ++ [.type decl]) := by
  unfold Declarations.addCapType at hadd
  cases hdeclare : decls.registry.declare decl.name decl.kind with
  | error existing =>
    simp only [CapTypeDecl.kind] at hdeclare
    simp [hdeclare] at hadd
  | ok result =>
    have hafter : after = { decls with
        registry := result.2
        tokens :=
          if decl.isToken then decls.tokens.insert decl.name result.1
          else decls.tokens } := by
      simp only [CapTypeDecl.kind] at hdeclare
      simp only [hdeclare, Except.ok.injEq] at hadd
      exact hadd.symm
    rw [hafter]
    rcases Registry.declare_eq_ok_iff.1 hdeclare with ⟨hlookup, hkind, hsame⟩ |
      ⟨hlookup, hnew⟩
    · -- Declared before with the same kind: the registry stays, and has the type
      -- already.
      rw [hsame]
      refine h.withType h.distinct ?_ (fun _ _ hfound => hfound) hlookup
      intro name kind
      refine ⟨.inl, ?_⟩
      rintro (hmem | ⟨rfl, rfl⟩)
      · exact hmem
      · rw [← hkind]
        exact Registry.mem_of_lookup hlookup
    · -- A new type goes to the end, where its number is the length so far.
      have hdistinct := h.distinct.append hlookup decl.kind
      rw [hnew]
      refine h.withType hdistinct ?_ (fun _ _ hfound => Registry.lookup_append hfound _) ?_
      · intro name kind
        simp [eq_comm]
      · have hlast :
            (decls.registry.types ++
              [(decl.name, decl.kind)])[decls.registry.types.length]? =
              some (decl.name, decl.kind) := by simp
        exact Registry.lookup_of_getElem? hdistinct hlast

theorem Describes.addToken (h : decls.Describes declared) {decl : TokenDecl}
    (hadd : decls.addToken decl = .ok after) :
    after.Describes (declared ++ [.token decl]) := by
  unfold Declarations.addToken at hadd
  split at hadd
  · rename_i id hlookup
    split at hadd
    · obtain rfl := Except.ok.inj hadd
      refine ⟨h.distinct, ?_, ?_, ?_, h.structs, h.globals⟩
      · intro name kind
        simp [h.types]
      · intro name
        rw [tokenType?_append]
        by_cases hname : decl.name = name
        · simp [CapDecl.meaning?, hname, hlookup]
        · simp [CapDecl.meaning?, hname, Ne.symm hname, h.tokens]
      · intro name type htype
        rw [tokenType?_append, Option.or_eq_some_iff] at htype
        rcases htype with hnew | ⟨-, hold⟩
        · simp only [CapDecl.meaning?] at hnew
          split at hnew
          · exact ⟨id, by rw [← Option.some.inj hnew]; exact hlookup⟩
          · cases hnew
        · exact h.known name type hold
    · cases hadd
  · cases hadd

theorem Describes.run (h : decls.Describes declared)
    (hadd : rest.foldlM addCapDecl decls = .ok after) :
    after.Describes (declared ++ rest) := by
  induction rest generalizing decls declared with
  | nil =>
    obtain rfl := pure_eq_ok_iff.1 hadd
    simpa using h
  | cons decl rest ih =>
    rw [List.foldlM_cons, bind_eq_ok_iff] at hadd
    obtain ⟨mid, hfirst, hrest⟩ := hadd
    have hmid : mid.Describes (declared ++ [decl]) := by
      cases decl with
      | type decl => exact h.addCapType hfirst
      | token decl => exact h.addToken hfirst
    simpa using ih hmid hrest

/-! ## When the pass has no problem -/

theorem Describes.exists_addCapType (h : decls.Describes declared) {decl : CapTypeDecl}
    (hagrees : ∀ other, CapDecl.type other ∈ declared → other.name = decl.name →
      other = decl) :
    ∃ after, decls.addCapType decl = .ok after := by
  have hdeclare : ∃ result, decls.registry.declare decl.name decl.kind = .ok result := by
    cases hlookup : decls.registry.lookup decl.name with
    | none => exact ⟨_, Registry.declare_eq_ok_iff.2 (.inr ⟨hlookup, rfl⟩)⟩
    | some id =>
      obtain ⟨other, hother, hname, hkind⟩ :=
        (h.types _ _).1 (Registry.mem_of_lookup hlookup)
      rw [hagrees other hother hname] at hkind
      exact ⟨(id, decls.registry),
        Registry.declare_eq_ok_iff.2 (.inl ⟨hlookup, hkind.symm, rfl⟩)⟩
  obtain ⟨result, hresult⟩ := hdeclare
  simp only [CapTypeDecl.kind] at hresult
  simp only [Declarations.addCapType, hresult]
  exact ⟨_, rfl⟩

theorem Describes.exists_addToken_iff (h : decls.Describes declared) {decl : TokenDecl} :
    (∃ after, decls.addToken decl = .ok after) ↔
      ∃ type, CapDecl.type type ∈ declared ∧ type.name = decl.capability ∧
        type.isToken = true := by
  have hkind : ∀ type : CapTypeDecl, type.kind = .token ↔ type.isToken = true := by
    intro type
    cases htoken : type.isToken <;> simp [CapTypeDecl.kind, htoken]
  unfold Declarations.addToken
  constructor
  · rintro ⟨after, hafter⟩
    split at hafter
    · rename_i id hlookup
      split at hafter
      · rename_i htoken
        have hmem := Registry.mem_of_lookup hlookup
        rw [htoken, h.types] at hmem
        obtain ⟨type, htype, hname, htoken⟩ := hmem
        exact ⟨type, htype, hname, (hkind type).1 htoken⟩
      · cases hafter
    · cases hafter
  · rintro ⟨type, htype, hname, htoken⟩
    have hmem :=
      (h.types decl.capability .token).2 ⟨type, htype, hname, (hkind type).2 htoken⟩
    obtain ⟨id, hlookup, hid⟩ := Registry.lookup_of_mem h.distinct hmem
    simp only [hlookup, hid, if_true]
    exact ⟨_, rfl⟩

end Declarations

/-- Every token stands after a declaration of its type, where the types `seen` have been
declared before. This is a recursion on the list rather than a statement about
positions, since it is proved and decided along the pass. -/
def TokensFollow : List CapTypeDecl → List CapDecl → Prop
  | _, [] => True
  | seen, .type decl :: rest => TokensFollow (decl :: seen) rest
  | seen, .token decl :: rest =>
    (∃ type ∈ seen, type.name = decl.capability ∧ type.isToken = true) ∧
      TokensFollow seen rest

instance :
    (seen : List CapTypeDecl) → (declared : List CapDecl) →
      Decidable (TokensFollow seen declared)
  | _, [] => inferInstanceAs (Decidable True)
  | seen, .type decl :: rest => instDecidableTokensFollow (decl :: seen) rest
  | seen, .token decl :: rest =>
    have := instDecidableTokensFollow seen rest
    inferInstanceAs (Decidable
      ((∃ type ∈ seen, type.name = decl.capability ∧ type.isToken = true) ∧ _))

namespace Declarations

variable {decls after : Declarations} {declared rest : List CapDecl}
  {seen : List CapTypeDecl}

theorem Describes.tokensFollow (h : decls.Describes declared)
    (hseen : ∀ decl, CapDecl.type decl ∈ declared ↔ decl ∈ seen)
    (hrun : rest.foldlM addCapDecl decls = .ok after) : TokensFollow seen rest := by
  induction rest generalizing decls declared seen with
  | nil => trivial
  | cons decl rest ih =>
    rw [List.foldlM_cons, bind_eq_ok_iff] at hrun
    obtain ⟨mid, hfirst, hrest⟩ := hrun
    cases decl with
    | type decl => exact ih (h.addCapType hfirst) (by simp [hseen, or_comm]) hrest
    | token decl =>
      obtain ⟨type, htype, hmatches⟩ := h.exists_addToken_iff.1 ⟨mid, hfirst⟩
      exact ⟨⟨type, (hseen type).1 htype, hmatches⟩,
        ih (h.addToken hfirst) (by simp [hseen]) hrest⟩

theorem Describes.exists_run (h : decls.Describes declared)
    (hseen : ∀ decl, CapDecl.type decl ∈ declared ↔ decl ∈ seen)
    (hagree : ∀ a b, CapDecl.type a ∈ declared ++ rest →
      CapDecl.type b ∈ declared ++ rest → a.name = b.name → a = b)
    (hfollow : TokensFollow seen rest) :
    ∃ after, rest.foldlM addCapDecl decls = .ok after := by
  induction rest generalizing decls declared seen with
  | nil => exact ⟨decls, rfl⟩
  | cons decl rest ih =>
    have hstep : ∃ mid, decls.addCapDecl decl = .ok mid := by
      cases decl with
      | type decl =>
        exact h.exists_addCapType fun other hother hname =>
          hagree other decl (by simp [hother]) (by simp) hname
      | token decl =>
        obtain ⟨⟨type, htype, hmatches⟩, -⟩ := hfollow
        exact h.exists_addToken_iff.2 ⟨type, (hseen type).2 htype, hmatches⟩
    obtain ⟨mid, hmid⟩ := hstep
    rw [List.foldlM_cons, hmid, ok_bind]
    rw [List.append_cons] at hagree
    cases decl with
    | type decl => exact ih (h.addCapType hmid) (by simp [hseen, or_comm]) hagree hfollow
    | token decl => exact ih (h.addToken hmid) (by simp [hseen]) hagree hfollow.2

end Declarations

end Custody
