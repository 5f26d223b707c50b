import Custody.Proofs.Keyed
import Custody.Proofs.Renumber.Table
import Custody.Proofs.Table.Capabilities
import Mathlib.Data.List.Perm.Subperm

/-!
# Declarations of units in another order

Declarations are shared between the units of a program. Where those of one name are the
same in all units, another order of the units changes the numbers of capability types
and nothing else, provided that every token still stands after its type and means the
same. A name can be that of a token type and of a token of another type; the later of
the two declarations counts, so that such a token can mean something else in another
order.

## What is assumed of a program

`Program.Coherent` asks that declarations of one name agree, as those do that units get
from common headers. Without it the order does matter, since of structures and globals
the first declaration counts. Of functions it asks no more than what contracts are read
from, parameters and attributes: bodies may differ, and functions that are known to one
unit only are free.

`SameTokens` and `TokensFollow` are the two things that coherence does not give. The
first follows from `TokensApart`, which can be decided on one program without comparing
it to another.

## Where the renumbering comes from

`Registry.translate` sends a number through its name: from `a` to the name, and from the
name to `b`. Numbers that `a` does not know stay as they are. That this is injective on
all numbers, and not just on those in use, is where it is needed that both registries
have equally many types.
-/

set_option autoImplicit false

namespace Custody

/-! ## Programs whose declarations agree -/

section Agreeing

variable {α : Type}

/-- Items of one name are one item. Repetitions are allowed: a header that many units
include is declared in each of them. -/
def Agreeing (name : α → String) (items : List α) : Prop :=
  ∀ a ∈ items, ∀ b ∈ items, name a = name b → a = b

instance [DecidableEq α] (name : α → String) (items : List α) :
    Decidable (Agreeing name items) :=
  inferInstanceAs (Decidable (∀ a ∈ items, ∀ b ∈ items, name a = name b → a = b))

variable {name : α → String} {items items' : List α}

theorem Agreeing.perm (h : Agreeing name items) (hperm : items.Perm items') :
    Agreeing name items' :=
  fun a ha b hb => h a (hperm.mem_iff.2 ha) b (hperm.mem_iff.2 hb)

theorem Agreeing.find?_perm (h : Agreeing name items) (hperm : items.Perm items')
    (wanted : String) :
    items.find? (name · = wanted) = items'.find? (name · = wanted) :=
  find?_key_congr h (fun _ => hperm.mem_iff) wanted

end Agreeing

/-- The units have names of their own, and what they declare under one name is the same;
of functions that are known to all units, parameters and attributes are. -/
structure Program.Coherent (program : Program) : Prop where
  units : (program.units.map (·.name)).Nodup
  capTypes : Agreeing (·.name) (program.units.flatMap (·.capTypes))
  tokens : Agreeing (·.name) (program.units.flatMap (·.tokens))
  structs : Agreeing (·.name) (program.units.flatMap (·.structs))
  globals : Agreeing (·.name) (program.units.flatMap (·.globals))
  functions : ∀ a ∈ program.units.flatMap (·.functions),
    ∀ b ∈ program.units.flatMap (·.functions),
    a.isStatic = false → b.isStatic = false → a.name = b.name →
      a.params = b.params ∧ a.attributes = b.attributes

theorem Program.Coherent.perm {p q : Program} (h : p.Coherent)
    (hperm : p.units.Perm q.units) : q.Coherent where
  units := (hperm.map _).nodup_iff.1 h.units
  capTypes := h.capTypes.perm (hperm.flatMap_right _)
  tokens := h.tokens.perm (hperm.flatMap_right _)
  structs := h.structs.perm (hperm.flatMap_right _)
  globals := h.globals.perm (hperm.flatMap_right _)
  functions := by
    intro a ha b hb
    have hfunctions := hperm.flatMap_right (·.functions)
    exact h.functions a (hfunctions.mem_iff.2 ha) b (hfunctions.mem_iff.2 hb)

/-!
## The renumbering between two registries

Two registries with the same types differ in the numbers only, and the renumbering can
be computed from them.
-/

namespace Registry

variable {a b : Registry}

/-- The number in `b` of the type with a number in `a`. Numbers that `a` has not given
stay as they are, so that this is a function on all of them. -/
def translate (a b : Registry) (id : CapId) : CapId :=
  match a.types[id.index]? with
  | some (name, _) => (b.lookup name).getD id
  | none => id

/-- Both have the same types, each once. That they have them in different orders is why
there is something to translate. -/
structure Alike (a b : Registry) : Prop where
  left : a.Distinct
  right : b.Distinct
  types : a.types.Perm b.types

theorem Alike.lookup (h : a.Alike b) (name : String) :
    b.lookup name = (a.lookup name).map (translate a b) := by
  cases hlookup : a.lookup name with
  | none =>
    rw [Option.map_none, lookup_eq_none_iff]
    intro kind hmem
    exact lookup_eq_none_iff.1 hlookup kind (h.types.mem_iff.2 hmem)
  | some id =>
    obtain ⟨kind, hentry⟩ := getElem?_of_lookup hlookup
    obtain ⟨id', hlookup', -⟩ :=
      lookup_of_mem h.right (h.types.mem_iff.1 (List.mem_of_getElem? hentry))
    simp [translate, hentry, hlookup']

theorem Alike.name_translate (h : a.Alike b) {name : String} {id : CapId}
    (hlookup : a.lookup name = some id) :
    b.name (translate a b id) = a.name id := by
  rw [name_of_lookup hlookup]
  exact name_of_lookup (by rw [h.lookup, hlookup, Option.map_some])

theorem Alike.translate_cases (h : a.Alike b) (id : CapId) :
    (∃ name, a.lookup name = some id ∧ b.lookup name = some (translate a b id)) ∨
      (a.types.length ≤ id.index ∧ translate a b id = id) := by
  cases hentry : a.types[id.index]? with
  | none => exact .inr ⟨List.getElem?_eq_none_iff.1 hentry, by simp [translate, hentry]⟩
  | some entry =>
    have hlookup : a.lookup entry.1 = some id := lookup_of_getElem? h.left hentry
    exact .inl ⟨entry.1, hlookup, by rw [h.lookup, hlookup, Option.map_some]⟩

theorem Alike.injective (h : a.Alike b) : Function.Injective (translate a b) := by
  have hlt : ∀ {name : String} {id : CapId}, b.lookup name = some id →
      id.index < a.types.length := by
    intro name id hlookup
    obtain ⟨kind, hentry⟩ := getElem?_of_lookup hlookup
    rw [h.types.length_eq]
    exact (List.getElem?_eq_some_iff.1 hentry).1
  intro x y hxy
  rcases h.translate_cases x with ⟨name, hx, hx'⟩ | ⟨hx, hx'⟩ <;>
    rcases h.translate_cases y with ⟨name', hy, hy'⟩ | ⟨hy, hy'⟩
  · rw [hxy] at hx'
    obtain rfl : name = name' := (name_of_lookup hx').symm.trans (name_of_lookup hy')
    exact Option.some.inj (hx.symm.trans hy)
  · have := hlt hx'
    rw [hxy, hy'] at this
    omega
  · have := hlt hy'
    rw [← hxy, hx'] at this
    omega
  · rw [← hx', hxy, hy']

/-- The renumbering from one registry to the other. -/
def Alike.renumbering (h : a.Alike b) : CapId ↪ CapId := ⟨translate a b, h.injective⟩

end Registry

/-!
## Structures and globals

Of several declarations the first counts, which is what `find?` gives. The maps are
compared through their answers.
-/

namespace Declarations

def fieldTypes (decl : StructDecl) : FinMap String CType :=
  FinMap.ofList (decl.fields.map fun field => (field.name, CType.parse field.type))

variable {decls : Declarations}

theorem get?_addStruct (decl : StructDecl) (name : String) :
    (decls.addStruct decl).structs.get? name =
      (decls.structs.get? name).or
        (if decl.name = name then some (fieldTypes decl) else none) := by
  unfold addStruct
  by_cases hname : decl.name = name
  · subst hname
    cases hget : decls.structs.get? decl.name <;> simp [FinMap.contains, hget, fieldTypes]
  · split <;> simp [Ne.symm hname]

theorem get?_addGlobal (decl : MemberDecl) (name : String) :
    (decls.addGlobal decl).globals.get? name =
      (decls.globals.get? name).or
        (if decl.name = name then some (CType.parse decl.type) else none) := by
  unfold addGlobal
  by_cases hname : decl.name = name
  · subst hname
    cases hget : decls.globals.get? decl.name <;> simp [FinMap.contains, hget]
  · split <;> simp [Ne.symm hname]

theorem get?_addStructs (structs : List StructDecl) (name : String) :
    (structs.foldl addStruct decls).structs.get? name =
      (decls.structs.get? name).or ((structs.find? (·.name = name)).map fieldTypes) := by
  induction structs generalizing decls with
  | nil => simp
  | cons decl rest ih =>
    rw [List.foldl_cons, ih, get?_addStruct, List.find?_cons]
    by_cases hname : decl.name = name <;> simp [hname]

theorem get?_addGlobals (globals : List MemberDecl) (name : String) :
    (globals.foldl addGlobal decls).globals.get? name =
      (decls.globals.get? name).or
        ((globals.find? (·.name = name)).map (CType.parse ·.type)) := by
  induction globals generalizing decls with
  | nil => simp
  | cons decl rest ih =>
    rw [List.foldl_cons, ih, get?_addGlobal, List.find?_cons]
    by_cases hname : decl.name = name <;> simp [hname]

theorem addStructs_frame (structs : List StructDecl) :
    structs.foldl addStruct decls =
      { decls with structs := (structs.foldl addStruct decls).structs } := by
  induction structs generalizing decls with
  | nil => rfl
  | cons decl rest ih =>
    rw [List.foldl_cons, ih]
    unfold addStruct
    split <;> rfl

theorem addGlobals_frame (globals : List MemberDecl) :
    globals.foldl addGlobal decls =
      { decls with globals := (globals.foldl addGlobal decls).globals } := by
  induction globals generalizing decls with
  | nil => rfl
  | cons decl rest ih =>
    rw [List.foldl_cons, ih]
    unfold addGlobal
    split <;> rfl

/-- The declarations `after` are `decls` and the members of units; of those of one name
the first counts. -/
structure WithMembers (decls : Declarations) (units : List SourceUnit)
    (after : Declarations) : Prop where
  registry : after.registry = decls.registry
  tokens : after.tokens = decls.tokens
  structs : ∀ name, after.structs.get? name =
    (decls.structs.get? name).or
      (((units.flatMap (·.structs)).find? (·.name = name)).map fieldTypes)
  globals : ∀ name, after.globals.get? name =
    (decls.globals.get? name).or
      (((units.flatMap (·.globals)).find? (·.name = name)).map (CType.parse ·.type))

theorem withMembers_addMembers (decls : Declarations) (unit : SourceUnit) :
    decls.WithMembers [unit] (decls.addMembers unit) where
  registry := by rw [addMembers, addGlobals_frame, addStructs_frame]
  tokens := by rw [addMembers, addGlobals_frame, addStructs_frame]
  structs name := by
    rw [addMembers, addGlobals_frame, List.flatMap_singleton]
    exact get?_addStructs unit.structs name
  globals name := by
    rw [addMembers, get?_addGlobals, addStructs_frame, List.flatMap_singleton]

theorem withMembers_foldl (decls : Declarations) (units : List SourceUnit) :
    decls.WithMembers units (units.foldl addMembers decls) := by
  induction units generalizing decls with
  | nil => constructor <;> simp
  | cons unit rest ih =>
    have hunit := withMembers_addMembers decls unit
    have hrest := ih (decls.addMembers unit)
    constructor
    · exact hrest.registry.trans hunit.registry
    · exact hrest.tokens.trans hunit.tokens
    · intro name
      rw [List.foldl_cons, hrest.structs, hunit.structs, List.flatMap_cons,
        List.find?_append]
      simp [Option.map_or, Option.or_assoc]
    · intro name
      rw [List.foldl_cons, hrest.globals, hunit.globals, List.flatMap_cons,
        List.find?_append]
      simp [Option.map_or, Option.or_assoc]

/-!
## Both orders

Everything from here on is about a program and another one with its units in another
order, neither of which has an error in its declarations of types and tokens.
-/

/-- What the names of tokens mean does not depend on which program of the two declares
them. -/
def SameTokens (p q : Program) : Prop :=
  ∀ name, tokenType? (SourceUnit.capDecls p.units) name =
    tokenType? (SourceUnit.capDecls q.units) name

variable {p q : Program}

theorem describes_addUnits {units : List SourceUnit} (h : (addUnits empty units).2 = []) :
    (addUnits empty units).1.Describes (SourceUnit.capDecls units) := by
  have hrun := addUnits_eq_nil_iff.1 (Prod.ext rfl h : addUnits empty units = (_, []))
  simpa using describes_empty.run hrun

theorem alike (hperm : p.units.Perm q.units) (hp : (addUnits empty p.units).2 = [])
    (hq : (addUnits empty q.units).2 = []) :
    (addUnits empty p.units).1.registry.Alike (addUnits empty q.units).1.registry := by
  have hdp := describes_addUnits hp
  have hdq := describes_addUnits hq
  refine ⟨hdp.distinct, hdq.distinct, ?_⟩
  rw [List.perm_ext_iff_of_nodup (.of_map _ hdp.distinct) (.of_map _ hdq.distinct)]
  rintro ⟨name, kind⟩
  have hdeclared : (SourceUnit.capDecls p.units).Perm (SourceUnit.capDecls q.units) :=
    hperm.flatMap_right _
  simp only [hdp.types, hdq.types, hdeclared.mem_iff]

/-- In another order of the units the declarations have other numbers, and are otherwise
the same. The renumbering is the one computed from the two registries. -/
theorem renumbered_ofProgram (hcoherent : p.Coherent) (hperm : p.units.Perm q.units)
    (hsame : SameTokens p q) (hp : (addUnits empty p.units).2 = [])
    (hq : (addUnits empty q.units).2 = []) :
    (ofProgram p).1.Renumbered (alike hperm hp hq).renumbering (ofProgram q).1 := by
  have halike := alike hperm hp hq
  have hdp := describes_addUnits hp
  have hdq := describes_addUnits hq
  have hmp : (addUnits empty p.units).1.WithMembers p.units (ofProgram p).1 :=
    withMembers_foldl _ p.units
  have hmq : (addUnits empty q.units).1.WithMembers q.units (ofProgram q).1 :=
    withMembers_foldl _ q.units
  constructor
  · intro name
    rw [hmq.registry, hmp.registry]
    exact halike.lookup name
  · intro name
    rw [hmq.tokens, hmp.tokens, hdq.tokens, hdp.tokens, ← hsame name]
    cases tokenType? (SourceUnit.capDecls p.units) name with
    | none => rfl
    | some type => exact halike.lookup type
  · intro name id hid
    rw [hmp.tokens, hdp.tokens] at hid
    obtain ⟨type, -, hlookup⟩ := Option.bind_eq_some_iff.1 hid
    rw [hmq.registry, hmp.registry]
    exact halike.name_translate hlookup
  · apply FinMap.ext_get?
    intro name
    rw [hmq.structs, hmp.structs, hdq.structs, hdp.structs,
      hcoherent.structs.find?_perm (hperm.flatMap_right _)]
  · apply FinMap.ext_get?
    intro name
    rw [hmq.globals, hmp.globals, hdq.globals, hdp.globals,
      hcoherent.globals.find?_perm (hperm.flatMap_right _)]

/-!
## When tokens mean the same

The last declaration of a name as a token counts. So it is enough that all of them say
the same, and the only ones that may not are a token type and a token of its name.
-/

/-- A token that has the name of a token type is of that type. This can be decided for a
program, without looking for what its tokens are in the end. -/
def TokensApart (program : Program) : Prop :=
  ∀ type ∈ program.units.flatMap (·.capTypes), ∀ token ∈ program.units.flatMap (·.tokens),
    type.isToken = true → type.name = token.name → token.capability = token.name

instance (program : Program) : Decidable (TokensApart program) :=
  inferInstanceAs (Decidable (∀ type ∈ program.units.flatMap (·.capTypes),
    ∀ token ∈ program.units.flatMap (·.tokens),
    type.isToken = true → type.name = token.name → token.capability = token.name))

theorem mem_capDecls_type {units : List SourceUnit} {decl : CapTypeDecl} :
    CapDecl.type decl ∈ SourceUnit.capDecls units ↔ decl ∈ units.flatMap (·.capTypes) := by
  simp [SourceUnit.capDecls]

theorem mem_capDecls_token {units : List SourceUnit} {decl : TokenDecl} :
    CapDecl.token decl ∈ SourceUnit.capDecls units ↔ decl ∈ units.flatMap (·.tokens) := by
  simp [SourceUnit.capDecls]

/-- Where all declarations of a name say the same, it does not matter which is the
last. -/
theorem tokenType?_perm {declared declared' : List CapDecl}
    (hperm : declared.Perm declared') {name : String}
    (hagree : ∀ a ∈ declared, ∀ b ∈ declared, ∀ s t, a.meaning? name = some s →
      b.meaning? name = some t → s = t) :
    tokenType? declared name = tokenType? declared' name := by
  have hmeanings := hperm.filterMap (·.meaning? name)
  cases hlast : tokenType? declared name with
  | none =>
    rw [tokenType?, List.getLast?_eq_none_iff] at hlast
    rw [hlast] at hmeanings
    rw [tokenType?, List.nil_perm.1 hmeanings]
    rfl
  | some type =>
    have hmem := hmeanings.mem_iff.1 (List.mem_of_getLast? hlast)
    cases hlast' : tokenType? declared' name with
    | none =>
      rw [tokenType?, List.getLast?_eq_none_iff] at hlast'
      rw [hlast'] at hmem
      cases hmem
    | some type' =>
      obtain ⟨a, ha, hsays⟩ := List.mem_filterMap.1 (List.mem_of_getLast? hlast)
      obtain ⟨b, hb, hsays'⟩ := List.mem_filterMap.1 (List.mem_of_getLast? hlast')
      rw [hagree a ha b (hperm.mem_iff.2 hb) type type' hsays hsays']

theorem sameTokens (hcoherent : p.Coherent) (hperm : p.units.Perm q.units)
    (hapart : TokensApart p) :
    SameTokens p q := by
  intro name
  refine tokenType?_perm (hperm.flatMap_right _) ?_
  -- a token of the name of a token type says what the type says
  have hmixed : ∀ type token s t, CapDecl.type type ∈ SourceUnit.capDecls p.units →
      CapDecl.token token ∈ SourceUnit.capDecls p.units →
        (CapDecl.type type).meaning? name = some s →
      (CapDecl.token token).meaning? name = some t → s = t := by
    intro type token s t htype htoken hs ht
    simp only [CapDecl.meaning?, Option.ite_none_right_eq_some, Bool.and_eq_true,
      decide_eq_true_eq, Option.some.injEq] at hs ht
    obtain ⟨⟨hisToken, hname⟩, rfl⟩ := hs
    obtain ⟨rfl, rfl⟩ := ht
    rw [hapart type (mem_capDecls_type.1 htype) token
      (mem_capDecls_token.1 htoken) hisToken hname, hname]
  have hself : ∀ type s, (CapDecl.type type).meaning? name = some s → s = name := by
    intro type s hs
    simp only [CapDecl.meaning?, Option.ite_none_right_eq_some, Bool.and_eq_true,
      decide_eq_true_eq, Option.some.injEq] at hs
    exact hs.2.symm.trans hs.1.2
  intro a ha b hb s t hs ht
  cases a with
  | type type =>
    cases b with
    | type other => exact (hself type s hs).trans (hself other t ht).symm
    | token token => exact hmixed type token s t ha hb hs ht
  | token token =>
    cases b with
    | type type => exact (hmixed type token t s hb ha ht hs).symm
    | token other =>
      simp only [CapDecl.meaning?, Option.ite_none_right_eq_some,
        Option.some.injEq] at hs ht
      rw [← hs.2, ← ht.2,
        hcoherent.tokens token (mem_capDecls_token.1 ha) other (mem_capDecls_token.1 hb)
        (hs.1.trans ht.1.symm)]

/-! ## When there is no problem -/

theorem tokensFollow_of_addUnits {units : List SourceUnit}
    (h : (addUnits empty units).2 = []) :
    TokensFollow [] (SourceUnit.capDecls units) := by
  have hrun := addUnits_eq_nil_iff.1 (Prod.ext rfl h : addUnits empty units = (_, []))
  exact describes_empty.tokensFollow (by simp) hrun

theorem addUnits_errors_eq_nil (hcoherent : p.Coherent)
    (hfollow : TokensFollow [] (SourceUnit.capDecls p.units)) :
    (addUnits empty p.units).2 = [] := by
  have hagree : ∀ a b, CapDecl.type a ∈ [] ++ SourceUnit.capDecls p.units →
      CapDecl.type b ∈ [] ++ SourceUnit.capDecls p.units → a.name = b.name → a = b := by
    intro a b ha hb
    exact hcoherent.capTypes a (mem_capDecls_type.1 ha) b (mem_capDecls_type.1 hb)
  obtain ⟨after, hafter⟩ := describes_empty.exists_run (by simp) hagree hfollow
  rw [addUnits_eq_nil_iff.2 hafter]

end Declarations

end Custody
