import Custody.FinMap
import Mathlib.Data.List.Induction
import Mathlib.Data.List.Nodup
import Mathlib.Data.List.Perm.Subperm

/-!
# What a finite map answers

`FinMap` keeps its entries in one list, in increasing order of their keys. Nothing
outside this file should have to know that: here every operation is given by what `get?`
says of its result, and `ext_get?` says that this is all there is to know about a map.

The proofs go through `lookup_eq_some_iff`: in an increasing list a key has at most one
entry, so looking a key up and finding its entry in the list are the same thing.

`get?_insert`, `get?_erase`, `get?_mapValues` and `get?_agreeing` are simp lemmas. With
them, an equation between maps that were built by different operations is proved by
`ext_get?`, a case split on whether keys are equal, and `simp` (`mapValues_insert` is an
example). `get?_merge` has to ask that nothing comes of nothing, since a merge only ever
looks at keys that one of the maps has, and is used by name.
-/

set_option autoImplicit false

namespace Custody.FinMap

open Std (TransOrd LawfulEqOrd)

variable {κ ν : Type} [Ord κ]

/-! ## Entries and answers -/

section Entries

variable [TransOrd κ] [LawfulEqOrd κ]

omit [TransOrd κ] in
theorem ne_of_lt {a b : κ} (h : compare a b = .lt) : a ≠ b := by
  rintro rfl
  rw [Std.ReflOrd.compare_self] at h
  cases h

omit [TransOrd κ] in
theorem ne_of_gt {a b : κ} (h : compare a b = .gt) : a ≠ b := by
  rintro rfl
  rw [Std.ReflOrd.compare_self] at h
  cases h

omit [TransOrd κ] in
theorem not_mem_of_lt {list : List (κ × ν)} {e : κ × ν}
    (h : ∀ e' ∈ list, compare e.1 e'.1 = .lt) : e ∉ list :=
  fun hmem => ne_of_lt (h e hmem) rfl

theorem lookup_eq_some_iff {list : List (κ × ν)}
    (h : list.Pairwise (fun a b => compare a.1 b.1 = .lt)) {key : κ} {value : ν} :
    lookup key list = some value ↔ (key, value) ∈ list := by
  induction list with
  | nil => simp [lookup]
  | cons head rest ih =>
    obtain ⟨k, v⟩ := head
    obtain ⟨hk, hrest⟩ := List.pairwise_cons.1 h
    simp only [lookup, List.mem_cons, Prod.mk.injEq]
    split
    · rename_i hlt
      -- `key` comes before `k`, hence before every key of the list.
      have hrest : (key, value) ∉ rest :=
        not_mem_of_lt fun e he => Std.TransCmp.lt_trans hlt (hk e he)
      simp [ne_of_lt hlt, hrest]
    · rename_i heq
      obtain rfl : key = k := LawfulEqOrd.eq_of_compare heq
      have hrest : (key, value) ∉ rest := not_mem_of_lt hk
      simp [hrest, eq_comm]
    · rename_i hgt
      simp [ih hrest, ne_of_gt hgt]

theorem get?_eq_some_iff {m : FinMap κ ν} {key : κ} {value : ν} :
    m.get? key = some value ↔ (key, value) ∈ m.entries :=
  lookup_eq_some_iff m.increasing

theorem mem_keys_iff {m : FinMap κ ν} {key : κ} : key ∈ m.keys ↔ m.contains key = true := by
  rw [keys, List.mem_map, contains, Option.isSome_iff_exists]
  constructor
  · rintro ⟨⟨k, value⟩, hmem, rfl⟩
    exact ⟨value, get?_eq_some_iff.2 hmem⟩
  · rintro ⟨value, hvalue⟩
    exact ⟨(key, value), get?_eq_some_iff.1 hvalue, rfl⟩

omit [TransOrd κ] in
theorem nodup_keys (m : FinMap κ ν) : m.keys.Nodup :=
  List.pairwise_map.2 (m.increasing.imp ne_of_lt)

theorem le_of_head? {m : FinMap κ ν} {first key : κ} {value value' : ν}
    (hfirst : m.entries.head? = some (first, value)) (hkey : m.get? key = some value') :
    (compare first key).isLE = true := by
  have hmem := get?_eq_some_iff.1 hkey
  obtain ⟨rest, hrest⟩ := List.head?_eq_some_iff.1 hfirst
  have hincreasing := m.increasing
  rw [hrest] at hmem hincreasing
  rcases List.mem_cons.1 hmem with heq | hmem
  · cases heq
    rw [Std.ReflOrd.compare_self]
    rfl
  · rw [(List.pairwise_cons.1 hincreasing).1 _ hmem]
    rfl

theorem eq_of_mem_iff {as bs : List (κ × ν)}
    (has : as.Pairwise (fun a b => compare a.1 b.1 = .lt))
    (hbs : bs.Pairwise (fun a b => compare a.1 b.1 = .lt))
    (h : ∀ e, e ∈ as ↔ e ∈ bs) : as = bs := by
  induction as generalizing bs with
  | nil =>
    cases bs with
    | nil => rfl
    | cons b bs => exact absurd ((h b).2 List.mem_cons_self) List.not_mem_nil
  | cons a as ih =>
    obtain ⟨ha, has⟩ := List.pairwise_cons.1 has
    cases bs with
    | nil => exact absurd ((h a).1 List.mem_cons_self) List.not_mem_nil
    | cons b bs =>
      obtain ⟨hb, hbs'⟩ := List.pairwise_cons.1 hbs
      -- Each head is an entry of the other list; if they differed, each would come
      -- before the other.
      have hab : a = b := by
        rcases List.mem_cons.1 ((h a).1 List.mem_cons_self) with hab | hmem
        · exact hab
        · rcases List.mem_cons.1 ((h b).2 List.mem_cons_self) with hba | hmem'
          · exact hba.symm
          · exact absurd rfl (ne_of_lt (Std.TransCmp.lt_trans (ha b hmem') (hb a hmem)))
      subst hab
      have htails : ∀ e, e ∈ as ↔ e ∈ bs := by
        intro e
        constructor
        · intro he
          rcases List.mem_cons.1 ((h e).1 (List.mem_cons_of_mem _ he)) with rfl | hmem
          · exact absurd he (not_mem_of_lt ha)
          · exact hmem
        · intro he
          rcases List.mem_cons.1 ((h e).2 (List.mem_cons_of_mem _ he)) with rfl | hmem
          · exact absurd he (not_mem_of_lt hb)
          · exact hmem
      rw [ih has hbs' htails]

/-- **A map is what it answers.** The entries are in increasing order, so there is one
list for each set of them. -/
theorem ext_get? {a b : FinMap κ ν} (h : ∀ key, a.get? key = b.get? key) : a = b := by
  refine eq_of_entries (eq_of_mem_iff a.increasing b.increasing fun e => ?_)
  obtain ⟨key, value⟩ := e
  rw [← get?_eq_some_iff, ← get?_eq_some_iff, h]

end Entries

/-!
## What each operation answers

`insert` and `merge` are proved by recursion on the lists. The other operations keep or
replace entries one by one, so that membership says it all.
-/

@[simp] theorem get?_empty (key : κ) : (∅ : FinMap κ ν).get? key = none := rfl

section Operations

variable [TransOrd κ] [LawfulEqOrd κ] [DecidableEq κ]

theorem lookup_insertEntry (key k : κ) (value : ν) (list : List (κ × ν)) :
    lookup k (insertEntry key value list) = if k = key then some value
      else lookup k list := by
  -- The cases are those of two comparisons, of the new key and of the key looked for
  -- with the first in the list; where both go on, the list is shorter.
  induction list with
  | nil =>
    simp only [insertEntry, lookup]
    split
    · rename_i hlt; rw [if_neg (ne_of_lt hlt)]
    · rename_i heq; rw [if_pos (LawfulEqOrd.eq_of_compare heq)]
    · rename_i hgt; rw [if_neg (ne_of_gt hgt)]
  | cons head rest ih =>
    obtain ⟨k', v⟩ := head
    simp only [insertEntry]
    split
    · rename_i hkey
      simp only [lookup]
      split
      · rename_i hlt
        rw [if_neg (ne_of_lt hlt), Std.TransCmp.lt_trans hlt hkey]
      · rename_i heq
        rw [if_pos (LawfulEqOrd.eq_of_compare heq)]
      · rename_i hgt
        rw [if_neg (ne_of_gt hgt)]
    · rename_i hkey
      obtain rfl : key = k' := LawfulEqOrd.eq_of_compare hkey
      simp only [lookup]
      split
      · rename_i hlt; rw [if_neg (ne_of_lt hlt)]
      · rename_i heq; rw [if_pos (LawfulEqOrd.eq_of_compare heq)]
      · rename_i hgt; rw [if_neg (ne_of_gt hgt)]
    · rename_i hkey
      simp only [lookup]
      split
      · rename_i hlt
        have hlt' : compare k key = .lt :=
          Std.TransCmp.lt_trans hlt (Std.OrientedCmp.gt_iff_lt.1 hkey)
        rw [if_neg (ne_of_lt hlt')]
      · rename_i heq
        obtain rfl : k = k' := LawfulEqOrd.eq_of_compare heq
        rw [if_neg (ne_of_gt hkey).symm]
      · exact ih

@[simp] theorem get?_insert (m : FinMap κ ν) (key k : κ) (value : ν) :
    (m.insert key value).get? k = if k = key then some value else m.get? k :=
  lookup_insertEntry key k value m.entries

/-- The last of several values for a key counts, since each insertion replaces the value
that is there. -/
theorem get?_ofList (list : List (κ × ν)) (key : κ) :
    (ofList list).get? key = (list.reverse.find? (·.1 = key)).map (·.2) := by
  induction list using List.reverseRecOn with
  | nil => rfl
  | append_singleton list last ih =>
    have hlast : ofList (list ++ [last]) = (ofList list).insert last.1 last.2 :=
      List.foldl_concat ..
    rw [hlast, get?_insert, ih, List.reverse_concat, List.find?_cons]
    by_cases hkey : last.1 = key
    · simp [hkey]
    · have hother : key ≠ last.1 := Ne.symm hkey
      simp [hkey, hother]

theorem contains_ofList {list : List (κ × ν)} {key : κ} :
    (ofList list).contains key = true ↔ key ∈ list.map (·.1) := by
  simp only [contains, get?_ofList, Option.isSome_map, List.find?_isSome,
    List.mem_reverse, decide_eq_true_eq, List.mem_map]

omit [DecidableEq κ] in
theorem size_insert_le (m : FinMap κ ν) (key : κ) (value : ν) :
    (m.insert key value).size ≤ m.size + 1 := by
  show (insertEntry key value m.entries).length ≤ m.entries.length + 1
  induction m.entries with
  | nil => exact Nat.le_refl _
  | cons head rest ih =>
    obtain ⟨k, v⟩ := head
    simp only [insertEntry]
    split
    · exact Nat.le_refl _
    · exact Nat.le_succ _
    · exact Nat.succ_le_succ ih

omit [DecidableEq κ] in
theorem get?_filter (m : FinMap κ ν) (keep : κ → ν → Bool) (key : κ) :
    (m.filter keep).get? key = (m.get? key).filter (keep key) := by
  ext value
  rw [get?_eq_some_iff, Option.filter_eq_some_iff, get?_eq_some_iff]
  exact List.mem_filter

@[simp] theorem get?_erase (m : FinMap κ ν) (key k : κ) :
    (m.erase key).get? k = if k = key then none else m.get? k := by
  rw [erase, get?_filter]
  by_cases h : k = key
  · subst h
    simp [Std.ReflOrd.compare_self]
  · have hne : (compare k key != .eq) = true :=
      bne_iff_ne.2 fun heq => h (LawfulEqOrd.eq_of_compare heq)
    cases m.get? k <;> simp [h, hne]

theorem erase_eq_self_iff {m : FinMap κ ν} {key : κ} :
    m.erase key = m ↔ m.contains key = false := by
  constructor
  · intro h
    rw [← h, contains, get?_erase, if_pos rfl]
    rfl
  · intro h
    have hnone : m.get? key = none := by simpa [contains] using h
    refine ext_get? fun k => ?_
    rw [get?_erase]
    by_cases hk : k = key
    · rw [if_pos hk, hk, hnone]
    · rw [if_neg hk]

omit [TransOrd κ] [LawfulEqOrd κ] [DecidableEq κ] in
@[simp] theorem erase_empty (key : κ) : (∅ : FinMap κ ν).erase key = ∅ := rfl

omit [DecidableEq κ] in
@[simp] theorem get?_mapValues {μ : Type} (m : FinMap κ ν) (f : κ → ν → μ) (key : κ) :
    (m.mapValues f).get? key = (m.get? key).map (f key) := by
  ext value
  rw [get?_eq_some_iff, Option.map_eq_some_iff]
  simp only [mapValues, List.mem_map, Prod.mk.injEq, Prod.exists]
  constructor
  · rintro ⟨k, v, hmem, rfl, rfl⟩
    exact ⟨v, get?_eq_some_iff.2 hmem, rfl⟩
  · rintro ⟨v, hv, rfl⟩
    exact ⟨key, v, get?_eq_some_iff.1 hv, rfl, rfl⟩

/-! ### Merges -/

omit [TransOrd κ] [LawfulEqOrd κ] [DecidableEq κ] in
theorem lookup_eq_none_of_lt {list : List (κ × ν)} {key : κ}
    (h : ∀ e ∈ list, compare key e.1 = .lt) : lookup key list = none := by
  cases list with
  | nil => rfl
  | cons head rest => simp [lookup, h head List.mem_cons_self]

theorem lookup_cons_of_lt {key k : κ} {value : ν} {rest : List (κ × ν)}
    (h : ∀ e ∈ rest, compare key e.1 = .lt) :
    lookup k ((key, value) :: rest) = if k = key then some value else lookup k rest := by
  simp only [lookup]
  split
  · rename_i hlt
    rw [if_neg (ne_of_lt hlt)]
    exact (lookup_eq_none_of_lt fun e he => Std.TransCmp.lt_trans hlt (h e he)).symm
  · rename_i heq; rw [if_pos (LawfulEqOrd.eq_of_compare heq)]
  · rename_i hgt; rw [if_neg (ne_of_gt hgt)]

theorem lookup_consValue {key k : κ} {value : Option ν} {rest : List (κ × ν)}
    (h : ∀ e ∈ rest, compare key e.1 = .lt) :
    lookup k (consValue key value rest) = if k = key then value else lookup k rest := by
  cases value with
  | some value => exact lookup_cons_of_lt h
  | none =>
    by_cases hk : k = key
    · subst hk
      simpa [consValue] using lookup_eq_none_of_lt h
    · simp [consValue, hk]

section Merge

variable {μ : Type} {f : Option ν → Option ν → Option μ}

omit [TransOrd κ] [LawfulEqOrd κ] [DecidableEq κ] in
theorem lt_of_mem_mergeEntries {key : κ} {as bs : List (κ × ν)}
    (has : ∀ e ∈ as, compare key e.1 = .lt) (hbs : ∀ e ∈ bs, compare key e.1 = .lt) :
    ∀ e ∈ mergeEntries f as bs, compare key e.1 = .lt := by
  intro e he
  rcases mem_mergeEntries as bs e he with h | h
  · obtain ⟨e', he', heq⟩ := List.mem_map.1 h
    rw [← heq]
    exact has e' he'
  · obtain ⟨e', he', heq⟩ := List.mem_map.1 h
    rw [← heq]
    exact hbs e' he'

theorem lookup_mergeEntries (hf : f none none = none) {as bs : List (κ × ν)}
    (has : as.Pairwise (fun a b => compare a.1 b.1 = .lt))
    (hbs : bs.Pairwise (fun a b => compare a.1 b.1 = .lt)) (k : κ) :
    lookup k (mergeEntries f as bs) = f (lookup k as) (lookup k bs) := by
  induction as generalizing bs with
  | nil =>
    induction bs with
    | nil => simp [mergeEntries, lookup, hf]
    | cons head rest ih =>
      obtain ⟨key, b⟩ := head
      obtain ⟨hkey, hrest⟩ := List.pairwise_cons.1 hbs
      have hcons : mergeEntries f [] ((key, b) :: rest)
          = consValue key (f none (some b)) (mergeEntries f [] rest) := by
        cases hv : f none (some b) <;> simp [mergeEntries, consValue, hv]
      rw [hcons, lookup_consValue (lt_of_mem_mergeEntries (by simp) hkey), ih hrest,
        lookup_cons_of_lt hkey]
      by_cases hk : k = key <;> simp [hk, lookup]
  | cons head as ih =>
    obtain ⟨key, a⟩ := head
    obtain ⟨hkey, has⟩ := List.pairwise_cons.1 has
    rw [lookup_cons_of_lt hkey]
    -- The second induction follows the entries of `bs` whose keys come before `key`.
    induction bs with
    | nil =>
      simp only [mergeEntries, mergeEntry]
      rw [lookup_consValue (lt_of_mem_mergeEntries hkey (by simp)), ih has .nil]
      by_cases hk : k = key <;> simp [hk, lookup]
    | cons head rest ihb =>
      obtain ⟨k', b⟩ := head
      obtain ⟨hk', hrest⟩ := List.pairwise_cons.1 hbs
      simp only [mergeEntries, mergeEntry]
      split
      · rename_i hlt
        have hafter : ∀ e ∈ (k', b) :: rest, compare key e.1 = .lt := by
          intro e he
          rcases List.mem_cons.1 he with rfl | he
          · exact hlt
          · exact Std.TransCmp.lt_trans hlt (hk' e he)
        rw [lookup_consValue (lt_of_mem_mergeEntries hkey hafter), ih has hbs]
        by_cases hk : k = key
        · subst hk
          simp [lookup_eq_none_of_lt hafter]
        · simp [hk]
      · rename_i heq
        obtain rfl : key = k' := LawfulEqOrd.eq_of_compare heq
        rw [lookup_consValue (lt_of_mem_mergeEntries hkey hk'), ih has hrest,
          lookup_cons_of_lt hk']
        by_cases hk : k = key <;> simp [hk]
      · rename_i hgt
        have hlt : compare k' key = .lt := Std.OrientedCmp.gt_iff_lt.1 hgt
        have has' : ∀ e ∈ (key, a) :: as, compare k' e.1 = .lt := by
          intro e he
          rcases List.mem_cons.1 he with rfl | he
          · exact hlt
          · exact Std.TransCmp.lt_trans hlt (hkey e he)
        change lookup k (consValue k' (f none (some b))
          (mergeEntries f ((key, a) :: as) rest)) = _
        rw [lookup_consValue (lt_of_mem_mergeEntries has' hk'), ihb hrest,
          lookup_cons_of_lt hk']
        by_cases hk : k = k'
        · subst hk
          rw [lookup_eq_none_of_lt fun e he => has' e (List.mem_cons_of_mem _ he)]
          simp [ne_of_lt hlt]
        · simp [hk]

/-- A merge is pointwise. What it does with a key that only one of the maps has is up to
`f`, which is told that the other has none. -/
theorem get?_merge (hf : f none none = none) (a b : FinMap κ ν) (key : κ) :
    (merge f a b).get? key = f (a.get? key) (b.get? key) :=
  lookup_mergeEntries hf a.increasing b.increasing key

end Merge

@[simp] theorem get?_agreeing [DecidableEq ν] (a b : FinMap κ ν) (key : κ) :
    (a.agreeing b).get? key = if a.get? key = b.get? key then a.get? key else none :=
  get?_merge (by simp) a b key

/-!
### Values replaced one by one

How `mapValues` goes through the other operations. A change of numbers acts on
environments by replacing values, and leaves keys alone (`Proofs/Renumber/Env`).
-/

section MapValues

variable {μ : Type} (f : ν → μ)

theorem mapValues_insert (m : FinMap κ ν) (key : κ) (value : ν) :
    (m.insert key value).mapValues (fun _ => f) =
      (m.mapValues fun _ => f).insert key (f value) := by
  apply ext_get?
  intro k
  by_cases h : k = key <;> simp [h]

theorem mapValues_erase (m : FinMap κ ν) (key : κ) :
    (m.erase key).mapValues (fun _ => f) = (m.mapValues fun _ => f).erase key := by
  apply ext_get?
  intro k
  by_cases h : k = key <;> simp [h]

omit [DecidableEq κ] in
@[simp] theorem contains_mapValues (m : FinMap κ ν) (key : κ) :
    (m.mapValues fun _ => f).contains key = m.contains key := by
  simp [contains]

omit [DecidableEq κ] in
theorem mapValues_injective (hf : Function.Injective f) :
    Function.Injective fun m : FinMap κ ν => m.mapValues fun _ => f := by
  intro a b h
  apply ext_get?
  intro k
  have hk := congrArg (·.get? k) h
  simp only [get?_mapValues] at hk
  exact Option.map_injective hf hk

theorem merge_mapValues {g : Option ν → Option ν → Option ν}
    {g' : Option μ → Option μ → Option μ} (hg : g none none = none)
    (hg' : ∀ x y, g' (x.map f) (y.map f) = (g x y).map f) (a b : FinMap κ ν) :
    merge g' (a.mapValues fun _ => f) (b.mapValues fun _ => f) =
      (merge g a b).mapValues fun _ => f := by
  have hnone : g' none none = none := by simpa [hg] using hg' none none
  apply ext_get?
  intro k
  rw [get?_merge hnone, get?_mapValues, get?_mapValues, hg', get?_mapValues, get?_merge hg]

theorem agreeing_mapValues [DecidableEq ν] [DecidableEq μ] (hf : Function.Injective f)
    (a b : FinMap κ ν) :
    (a.mapValues fun _ => f).agreeing (b.mapValues fun _ => f) =
      (a.agreeing b).mapValues fun _ => f := by
  refine merge_mapValues f (by simp) ?_ a b
  intro x y
  by_cases h : x = y
  · simp [h]
  · simp [h, (Option.map_injective hf).ne h]

end MapValues

end Operations

/-! ## Parts of a map

`Within a b` is the order in which joins move: what two paths agree on is part of what
each of them knows. A proper part is smaller, so a map cannot go on losing entries. -/

/-- Every entry of `a` is an entry of `b`. It is stated with `get?`, so that it says of
a key that both have that the values are the same. -/
def Within (a b : FinMap κ ν) : Prop :=
  ∀ key value, a.get? key = some value → b.get? key = some value

theorem Within.refl (a : FinMap κ ν) : Within a a := fun _ _ h => h

theorem Within.trans {a b c : FinMap κ ν} (hab : Within a b) (hbc : Within b c) :
    Within a c :=
  fun key value h => hbc key value (hab key value h)

section Parts

variable [TransOrd κ] [LawfulEqOrd κ]

theorem Within.antisymm {a b : FinMap κ ν} (hab : Within a b) (hba : Within b a) : a = b :=
  ext_get? fun key => Option.ext fun value => ⟨hab key value, hba key value⟩

theorem Within.eq_empty {a : FinMap κ ν} (h : Within a ∅) : a = ∅ :=
  h.antisymm fun key value hget => by cases hget

theorem erase_within [DecidableEq κ] (m : FinMap κ ν) (key : κ) :
    Within (m.erase key) m := by
  intro k value h
  rw [get?_erase] at h
  split at h
  · cases h
  · exact h

theorem agreeing_within_left [DecidableEq κ] [DecidableEq ν] (a b : FinMap κ ν) :
    Within (a.agreeing b) a := by
  intro key value h
  rw [get?_agreeing] at h
  split at h
  · exact h
  · cases h

theorem agreeing_within_right [DecidableEq κ] [DecidableEq ν] (a b : FinMap κ ν) :
    Within (a.agreeing b) b := by
  intro key value h
  rw [get?_agreeing] at h
  split at h
  · rename_i heq
    rw [← heq]
    exact h
  · cases h

/-- A map that agrees with another on all its entries is part of it. This is how the
order of environments is opened, part by part. -/
theorem agreeing_eq_left_iff [DecidableEq κ] [DecidableEq ν] {a b : FinMap κ ν} :
    a.agreeing b = a ↔ Within a b := by
  constructor
  · intro h
    rw [← h]
    exact agreeing_within_right a b
  · intro h
    refine ext_get? fun key => ?_
    rw [get?_agreeing]
    cases ha : a.get? key with
    | none => simp
    | some value => simp [h key value ha]

theorem get?_agreeing_eq_some_iff [DecidableEq κ] [DecidableEq ν] {a b : FinMap κ ν}
    {key : κ} {value : ν} : (a.agreeing b).get? key = some value ↔
      a.get? key = some value ∧ b.get? key = some value := by
  constructor
  · intro h
    exact ⟨agreeing_within_left a b key value h, agreeing_within_right a b key value h⟩
  · rintro ⟨ha, hb⟩
    rw [get?_agreeing, ha, hb, if_pos rfl]

theorem agreeing_self [DecidableEq κ] [DecidableEq ν] (a : FinMap κ ν) : a.agreeing a = a :=
  agreeing_eq_left_iff.2 (.refl a)

theorem agreeing_comm [DecidableEq κ] [DecidableEq ν] (a b : FinMap κ ν) :
    a.agreeing b = b.agreeing a := by
  refine ext_get? fun key => Option.ext fun value => ?_
  simp only [get?_agreeing_eq_some_iff, and_comm]

theorem agreeing_assoc [DecidableEq κ] [DecidableEq ν] (a b c : FinMap κ ν) :
    (a.agreeing b).agreeing c = a.agreeing (b.agreeing c) := by
  refine ext_get? fun key => Option.ext fun value => ?_
  simp only [get?_agreeing_eq_some_iff, and_assoc]

omit [TransOrd κ] in
theorem entries_nodup (m : FinMap κ ν) : m.entries.Nodup :=
  m.increasing.imp fun h heq => ne_of_lt h (congrArg Prod.fst heq)

theorem Within.subset {a b : FinMap κ ν} (h : Within a b) : a.entries ⊆ b.entries := by
  rintro ⟨key, value⟩ he
  exact get?_eq_some_iff.1 (h key value (get?_eq_some_iff.2 he))

theorem Within.size_le {a b : FinMap κ ν} (h : Within a b) : a.size ≤ b.size :=
  (List.subperm_of_subset a.entries_nodup h.subset).length_le

theorem Within.eq_of_size_le {a b : FinMap κ ν} (h : Within a b)
    (hsize : b.size ≤ a.size) : a = b := by
  have hperm := (List.subperm_of_subset a.entries_nodup h.subset).perm_of_length_le hsize
  exact eq_of_entries (eq_of_mem_iff a.increasing b.increasing fun _ => hperm.mem_iff)

/-- **A proper part is smaller**, so that a map can only lose entries as often as it has
any. -/
theorem Within.size_lt {a b : FinMap κ ν} (h : Within a b) (hne : a ≠ b) :
    a.size < b.size :=
  Nat.lt_of_not_le fun hsize => hne (h.eq_of_size_le hsize)

end Parts

end Custody.FinMap
