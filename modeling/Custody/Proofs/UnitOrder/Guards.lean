import Custody.Proofs.Table.Reading
import Custody.Proofs.UnitOrder.Contracts

/-!
# Guards of units in another order

Of the structures of one name only the first has its attributes read, and every
declaration of a global has. As these declarations are the same, the attributes that are
read for one member are the same list in every order of the units; only the units that
bear them change (`bearers_reordered`).

The list of all guards is another one in another order, and only what `find?` says of it
is compared. That is all that `Table.Renumbered` asks for. A lookup for one member only
sees the bearers of that member (`find?_flatMap_guards`), and so everything is reduced
to lists that are equal, and not merely permutations of each other.

Bearers carry the unit they stand in, for reports. `Bearer.anywhere` takes it off, and
`outcome?` gives what is left of the result when places are taken off: the guards, and
the problems by themselves. Where nothing is reported, nothing is lost by that
(`outcome?_eq_nil_iff`).
-/

set_option autoImplicit false

namespace Custody.Guards

/-! ## What bearers give -/

namespace Bearer

/-- The bearer without its unit, which counts for reports only. -/
def anywhere (bearer : Bearer) : Bearer := { bearer with unit := "" }

/-- The guards that a bearer puts on its member and the problems with its attributes,
unless one of them is fatal. -/
def outcome? (decls : Declarations) (bearer : Bearer) : Option (Guards × List Problem) :=
  (bearer.read decls).toOption.map (Prod.map id (List.map (·.problem)))

def guards (decls : Declarations) (bearer : Bearer) : Guards :=
  ((bearer.outcome? decls).map (·.1)).getD []

theorem outcome?_anywhere (decls : Declarations) (bearer : Bearer) :
    bearer.anywhere.outcome? decls = bearer.outcome? decls := by
  obtain ⟨unit, item, scope, member, attributes⟩ := bearer
  simp only [outcome?, anywhere, read]
  induction attributes with
  | nil => rfl
  | cons written rest ih =>
    simp only [ofMember]
    cases ofAttribute decls scope member written with
    | error error => rfl
    | ok first =>
      simp only [Except.mapError, ok_bind]
      cases hrest : ofMember decls unit item scope member rest <;>
        cases hrest' : ofMember decls "" item scope member rest <;> rw [hrest, hrest'] at ih
      · rfl
      · cases ih
      · cases ih
      · simp_all [Except.toOption, bind, Except.bind, pure, Except.pure, Prod.ext_iff,
          Function.comp_def]

variable {decls decls' : Declarations} {ρ : CapId ↪ CapId}

theorem outcome?_renumber (h : decls.Renumbered ρ decls') (bearer : Bearer) :
    bearer.outcome? decls' = (bearer.outcome? decls).map (Prod.map (renumber ρ) id) := by
  simp only [outcome?, read, ofMember_renumber h]
  cases ofMember decls bearer.unit bearer.item bearer.scope bearer.member
    bearer.attributes <;> rfl

theorem guards_renumber (h : decls.Renumbered ρ decls') (bearer : Bearer) :
    bearer.guards decls' = renumber ρ (bearer.guards decls) := by
  simp only [guards, outcome?_renumber h]
  cases bearer.outcome? decls <;> rfl

theorem guards_anywhere (bearer : Bearer) :
    bearer.anywhere.guards decls = bearer.guards decls := by
  simp only [guards, outcome?_anywhere]

theorem member_of_mem_guards {bearer : Bearer} {guarded : Member × Guard}
    (h : guarded ∈ bearer.guards decls) :
    guarded.1 = bearer.member := by
  unfold guards outcome? at h
  cases hread : bearer.read decls with
  | error error => simp [hread, Except.toOption] at h
  | ok found =>
    simp only [hread, Except.toOption, Option.map_some, Option.getD_some, Prod.map_fst,
      id] at h
    exact (exists_of_ofMember hread h).1

theorem outcome?_eq_nil_iff {bearer : Bearer} {found : Guards} :
    bearer.outcome? decls = some (found, []) ↔ bearer.read decls = .ok (found, []) := by
  unfold outcome?
  cases hread : bearer.read decls with
  | error error => simp [Except.toOption]
  | ok result => simp [Except.toOption, Prod.ext_iff]

end Bearer

variable {decls : Declarations}

theorem gather_eq_nil_iff {bearers : List Bearer} {guards : Guards} :
    gather (Bearer.read decls) bearers = .ok (guards, []) ↔
      (∀ bearer ∈ bearers, ∃ found, bearer.outcome? decls = some (found, [])) ∧
        guards = bearers.flatMap (Bearer.guards decls) := by
  induction bearers generalizing guards with
  | nil => simp [gather, eq_comm]
  | cons bearer rest ih =>
    simp only [gather, bind_eq_ok_iff, pure_eq_ok_iff, List.forall_mem_cons,
      List.flatMap_cons]
    constructor
    · rintro ⟨⟨first, errors⟩, hfirst, ⟨more, errors'⟩, hmore, heq⟩
      obtain ⟨rfl, hnone⟩ := Prod.mk.inj heq
      obtain ⟨rfl, rfl⟩ := List.append_eq_nil_iff.1 hnone
      obtain ⟨hrest, rfl⟩ := ih.1 hmore
      have hfound := Bearer.outcome?_eq_nil_iff.2 hfirst
      refine ⟨⟨⟨first, hfound⟩, hrest⟩, ?_⟩
      simp [Bearer.guards, hfound]
    · rintro ⟨⟨⟨first, hfound⟩, hrest⟩, rfl⟩
      refine ⟨(first, []), Bearer.outcome?_eq_nil_iff.1 hfound, _, ih.2 ⟨hrest, rfl⟩, ?_⟩
      simp [Bearer.guards, hfound, followedBy]

/-!
## The bearers of one member

Structures that were seen in an earlier unit are passed over, with a list of their names
that is carried along; the lemmas here say what the bearers are without that list.
-/

theorem filter_freshStructs (seen : List String) (structs : List StructDecl)
    (name : String) :
    (freshStructs seen structs).1.filter (·.name = name) =
      if name ∈ seen then [] else (structs.find? (·.name = name)).toList := by
  induction structs generalizing seen with
  | nil => simp [freshStructs]
  | cons struct rest ih =>
    rw [freshStructs, List.find?_cons]
    by_cases hseen : struct.name ∈ seen
    · rw [if_pos hseen, ih]
      by_cases hname : struct.name = name
      · simp [← hname, hseen]
      · simp [hname]
    · rw [if_neg hseen, List.filter_cons, ih]
      by_cases hname : struct.name = name
      · simp [← hname, hseen]
      · simp [hname, Ne.symm hname]

theorem mem_seen_freshStructs (seen : List String) (structs : List StructDecl)
    (name : String) :
    name ∈ (freshStructs seen structs).2 ↔ name ∈ seen ∨ ∃ struct ∈ structs,
    struct.name = name := by
  induction structs generalizing seen with
  | nil => simp [freshStructs]
  | cons struct rest ih =>
    rw [freshStructs]
    by_cases hseen : struct.name ∈ seen
    · rw [if_pos hseen, ih]
      simp only [List.exists_mem_cons_iff]
      constructor
      · exact Or.imp_right .inr
      · rintro (h | rfl | h)
        · exact .inl h
        · exact .inl hseen
        · exact .inr h
    · rw [if_neg hseen, ih]
      simp only [List.mem_cons]
      grind

theorem filter_fields (unit : String) (structs : List StructDecl) (struct field : String) :
    ((structs.flatMap fun decl => decl.fields.map (Bearer.ofField unit decl)).filter
        (·.member = .field struct field)).map Bearer.anywhere =
      (structs.filter (·.name = struct)).flatMap fun decl =>
        (decl.fields.map (Bearer.ofField "" decl)).filter
          (·.member = .field struct field) := by
  induction structs with
  | nil => rfl
  | cons decl rest ih =>
    rw [List.flatMap_cons, List.filter_append, List.map_append, ih]
    by_cases hname : decl.name = struct
    · rw [List.filter_cons_of_pos (by simpa using hname), List.flatMap_cons]
      congr 1
      rw [List.filter_map, List.filter_map, List.map_map]
      rfl
    · have hnone :
          (decl.fields.map (Bearer.ofField unit decl)).filter
            (·.member = .field struct field) = [] := by
        simp only [List.filter_eq_nil_iff, List.mem_map]
        rintro _ ⟨member, -, rfl⟩
        simp [Bearer.ofField, Member.ofQualified, hname]
      rw [List.filter_cons_of_neg (by simpa using hname), hnone, List.map_nil,
        List.nil_append]

theorem bearers_field (seen : List String) (units : List SourceUnit)
    (struct field : String) :
    ((bearers seen units).filter (·.member = .field struct field)).map Bearer.anywhere =
      if struct ∈ seen then []
      else ((units.flatMap (·.structs)).find? (·.name = struct)).toList.flatMap fun decl =>
        (decl.fields.map (Bearer.ofField "" decl)).filter
          (·.member = .field struct field) := by
  induction units generalizing seen with
  | nil => simp [bearers]
  | cons unit rest ih =>
    have hglobals :
        (unit.globals.map (Bearer.ofGlobal unit.name)).filter
          (·.member = .field struct field) = [] := by
      simp [List.filter_eq_nil_iff, Bearer.ofGlobal]
    rw [bearers, List.filter_append, List.filter_append, hglobals, List.append_nil,
      List.map_append, ih, filter_fields,
      filter_freshStructs, List.flatMap_cons, List.find?_append]
    -- The first structure of the name counts: it was met before, is in this unit, or
    -- comes later.
    by_cases hseen : struct ∈ seen
    · have hlater := (mem_seen_freshStructs seen unit.structs struct).2 (.inl hseen)
      simp [hseen, hlater]
    · cases hfound : unit.structs.find? (·.name = struct) with
      | some decl =>
        have hdecl : ∃ struct' ∈ unit.structs, struct'.name = struct :=
          ⟨decl, List.mem_of_find?_eq_some hfound, by simpa using List.find?_some hfound⟩
        have hlater := (mem_seen_freshStructs seen unit.structs struct).2 (.inr hdecl)
        simp [hseen, hlater]
      | none =>
        have hlater : struct ∉ (freshStructs seen unit.structs).2 := by
          rw [mem_seen_freshStructs]
          rintro (h | ⟨decl, hdecl, hname⟩)
          · exact hseen h
          · exact List.find?_eq_none.1 hfound decl hdecl (by simpa using hname)
        simp [hseen, hlater]

theorem bearers_global (seen : List String) (units : List SourceUnit) (name : String) :
    ((bearers seen units).filter (·.member = .global name)).map Bearer.anywhere =
      ((units.flatMap (·.globals)).filter (·.name = name)).map (Bearer.ofGlobal "") := by
  induction units generalizing seen with
  | nil => simp [bearers]
  | cons unit rest ih =>
    have hfields : ((freshStructs seen unit.structs).1.flatMap
        (fun struct => struct.fields.map (Bearer.ofField unit.name struct))).filter
          (·.member = .global name) = [] := by
      simp only [List.filter_eq_nil_iff, List.mem_flatMap, List.mem_map]
      rintro _ ⟨struct, -, field, -, rfl⟩
      simp [Bearer.ofField, Member.ofQualified]
    rw [bearers, List.filter_append, List.filter_append, hfields, List.nil_append,
      List.map_append, ih, List.flatMap_cons, List.filter_append, List.map_append]
    congr 1
    simp [List.filter_map, Function.comp_def, Bearer.ofGlobal, Bearer.anywhere]

/-! ## The units in another order -/

variable {p q : Program}

/-- Up to their units, the bearers of one member are the same list in every order of the
units. -/
theorem bearers_reordered (hcoherent : p.Coherent) (hperm : p.units.Perm q.units)
    (member : Member) :
    ((bearers [] p.units).filter (·.member = member)).map Bearer.anywhere =
      ((bearers [] q.units).filter (·.member = member)).map Bearer.anywhere := by
  cases member with
  | field struct field =>
    rw [bearers_field, bearers_field, hcoherent.structs.find?_perm (hperm.flatMap_right _)]
  | global name =>
    rw [bearers_global, bearers_global]
    refine Contracts.eq_of_perm_of_forall_eq (((hperm.flatMap_right _).filter _).map _) ?_
    intro a ha b hb
    obtain ⟨decl, hdecl, rfl⟩ := List.mem_map.1 ha
    obtain ⟨decl', hdecl', rfl⟩ := List.mem_map.1 hb
    simp only [List.mem_filter, decide_eq_true_eq] at hdecl hdecl'
    rw [hcoherent.globals decl hdecl.1 decl' hdecl'.1 (hdecl.2.trans hdecl'.2.symm)]

/-- The guard of a member comes from its own bearers, whatever their units. So it is the
same in every order that keeps the bearers of a member in order. -/
theorem find?_flatMap_guards (bearers : List Bearer) (member : Member) (pointee : Bool) :
    find? (bearers.flatMap (Bearer.guards decls)) member pointee =
      find? (((bearers.filter (·.member = member)).map Bearer.anywhere).flatMap
        (Bearer.guards decls)) member pointee := by
  suffices hfilter :
      ∀ keep : Member × Guard → Bool, (∀ guarded, keep guarded → guarded.1 = member) →
      (bearers.flatMap (Bearer.guards decls)).filter keep =
        (((bearers.filter (·.member = member)).map Bearer.anywhere).flatMap
          (Bearer.guards decls)).filter keep by
    unfold find?
    rw [hfilter]
    simp +contextual
  intro keep hkeep
  induction bearers with
  | nil => rfl
  | cons bearer rest ih =>
    rw [List.flatMap_cons, List.filter_append, ih]
    by_cases hmember : bearer.member = member
    · rw [List.filter_cons_of_pos (by simpa using hmember), List.map_cons,
        List.flatMap_cons, List.filter_append, Bearer.guards_anywhere]
    · have hnone : (bearer.guards decls).filter keep = [] := by
        refine List.filter_eq_nil_iff.2 fun guarded hguarded hkept => hmember ?_
        rw [← Bearer.member_of_mem_guards hguarded, hkeep guarded hkept]
      rw [List.filter_cons_of_neg (by simpa using hmember), hnone, List.nil_append]

/-- **In another order of the units, the guards are the same but for the numbers**, and
nothing is reported either. -/
theorem ofUnits_reordered {ρ : CapId ↪ CapId} {decls' : Declarations}
    (hdecls : decls.Renumbered ρ decls') (hcoherent : p.Coherent)
    (hperm : p.units.Perm q.units) {guards : Guards}
    (h : ofUnits decls [] p.units = .ok (guards, [])) :
    ∃ guards', ofUnits decls' [] q.units = .ok (guards', []) ∧
      ∀ member pointee, guards'.find? member pointee = (guards.find? member pointee).map
        (Guard.renumber ρ) := by
  simp only [ofUnits_eq, gather_eq_nil_iff] at h ⊢
  obtain ⟨hclean, rfl⟩ := h
  refine ⟨_, ⟨?_, rfl⟩, ?_⟩
  · intro bearer hbearer
    -- the bearer has a twin in the first order, that differs in its unit only
    have htwin :
        bearer.anywhere ∈ ((bearers [] p.units).filter (·.member = bearer.member)).map
          Bearer.anywhere := by
      rw [bearers_reordered hcoherent hperm]
      exact List.mem_map_of_mem (List.mem_filter.2 ⟨hbearer, by simp⟩)
    obtain ⟨twin, hmem, hsame⟩ := List.mem_map.1 htwin
    obtain ⟨found, hfound⟩ := hclean twin (List.mem_filter.1 hmem).1
    refine ⟨renumber ρ found, ?_⟩
    rw [Bearer.outcome?_renumber hdecls, ← Bearer.outcome?_anywhere, ← hsame,
      Bearer.outcome?_anywhere, hfound]
    rfl
  · intro member pointee
    rw [find?_flatMap_guards, find?_flatMap_guards (bearers [] p.units),
      bearers_reordered hcoherent hperm, ← find?_renumber]
    congr 1
    simp only [renumber, List.map_flatMap]
    refine List.flatMap_congr fun bearer _ => ?_
    exact Bearer.guards_renumber hdecls bearer

end Custody.Guards
