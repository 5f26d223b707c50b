/-!
# Finite maps in key order

A map from the keys of a linear order is the list of its entries in strictly increasing
order of their keys. Two maps with the same entries are then the same list, so equality
of maps is decided by looking, and the order in which entries are listed never depends
on how a map came about.

## Why a list, and why the order is part of the type

Environments are compared at every visit of a block, to see whether an entry state has
changed, and a report lists what an environment holds. Both need one representation for
each map: a hash map has no order to list, and a search tree has many shapes for the
same entries, so that a proof of `a = b` would first have to say what equality means.
Here `increasing` is a field, every operation comes with the proof that it keeps it, and
the theory (`Proofs/FinMap`) reduces equality to `get?`.

## Why merging is not defined by recursion on both lists at once

`FinMap.merge` combines two maps key by key; joins of environments are merges.
`mergeEntries` recurses on the first list and hands the rest of the recursion to
`mergeEntry`, which recurses on the second. Each of the two is structural, so a merge of
closed maps can be computed in a proof by `decide`; the one recursion over both lists
would be well-founded, and stuck there.
-/

set_option autoImplicit false

namespace Custody

open Std (TransOrd OrientedOrd LawfulEqOrd)

/-- A finite map whose entries are listed in strictly increasing order of their keys. A
key occurs once, since nothing is less than itself. -/
structure FinMap (κ ν : Type) [Ord κ] where
  entries : List (κ × ν)
  increasing : entries.Pairwise (fun a b => compare a.1 b.1 = .lt)

namespace FinMap

variable {κ ν : Type} [Ord κ]

theorem eq_of_entries {a b : FinMap κ ν} (h : a.entries = b.entries) : a = b := by
  cases a; cases b; cases h; rfl

instance [DecidableEq κ] [DecidableEq ν] : DecidableEq (FinMap κ ν) := fun a b =>
  decidable_of_iff (a.entries = b.entries) ⟨eq_of_entries, congrArg entries⟩

def empty : FinMap κ ν := ⟨[], .nil⟩

instance : Inhabited (FinMap κ ν) := ⟨empty⟩

instance : EmptyCollection (FinMap κ ν) := ⟨empty⟩

def keys (m : FinMap κ ν) : List κ := m.entries.map (·.1)

def size (m : FinMap κ ν) : Nat := m.entries.length

/-! ## Looking up -/

/-- The value at a key in an increasing list. The search stops at the first greater key,
which is right only of an increasing list; that is why `get?` and not this is what other
modules use. -/
def lookup (key : κ) : List (κ × ν) → Option ν
  | [] => none
  | (k, v) :: rest =>
    match compare key k with
    | .lt => none
    | .eq => some v
    | .gt => lookup key rest

def get? (m : FinMap κ ν) (key : κ) : Option ν := lookup key m.entries

def contains (m : FinMap κ ν) (key : κ) : Bool := (m.get? key).isSome

/-! ## Adding and removing -/

/-- An increasing list with the value at a key set. An entry that is there already keeps
its place. -/
def insertEntry (key : κ) (value : ν) : List (κ × ν) → List (κ × ν)
  | [] => [(key, value)]
  | (k, v) :: rest =>
    match compare key k with
    | .lt => (key, value) :: (k, v) :: rest
    | .eq => (key, value) :: rest
    | .gt => (k, v) :: insertEntry key value rest

theorem mem_keys_insertEntry {key : κ} {value : ν} {list : List (κ × ν)} {e : κ × ν}
    (h : e ∈ insertEntry key value list) : e.1 = key ∨ e ∈ list := by
  induction list with
  | nil => simp [insertEntry] at h; simp [h]
  | cons head rest ih =>
    obtain ⟨k, v⟩ := head
    simp only [insertEntry] at h
    split at h
    · rcases List.mem_cons.1 h with rfl | h
      · exact .inl rfl
      · exact .inr h
    · rcases List.mem_cons.1 h with rfl | h
      · exact .inl rfl
      · exact .inr (List.mem_cons_of_mem _ h)
    · rcases List.mem_cons.1 h with rfl | h
      · exact .inr List.mem_cons_self
      · exact (ih h).imp_right (List.mem_cons_of_mem _)

theorem increasing_insertEntry [TransOrd κ] [LawfulEqOrd κ] {key : κ} {value : ν}
    {list : List (κ × ν)} (h : list.Pairwise (fun a b => compare a.1 b.1 = .lt)) :
    (insertEntry key value list).Pairwise (fun a b => compare a.1 b.1 = .lt) := by
  induction list with
  | nil => simp [insertEntry]
  | cons head rest ih =>
    obtain ⟨k, v⟩ := head
    obtain ⟨hk, hrest⟩ := List.pairwise_cons.1 h
    simp only [insertEntry]
    split
    · rename_i hlt
      refine List.pairwise_cons.2 ⟨fun e he => ?_, h⟩
      rcases List.mem_cons.1 he with rfl | he
      · exact hlt
      · exact Std.TransCmp.lt_trans hlt (hk e he)
    · rename_i heq
      have : key = k := Std.LawfulEqOrd.eq_of_compare heq
      subst this
      exact List.pairwise_cons.2 ⟨hk, hrest⟩
    · rename_i hgt
      refine List.pairwise_cons.2 ⟨fun e he => ?_, ih hrest⟩
      rcases mem_keys_insertEntry he with he | he
      · rw [he]; exact Std.OrientedCmp.gt_iff_lt.1 hgt
      · exact hk e he

def insert [TransOrd κ] [LawfulEqOrd κ] (m : FinMap κ ν) (key : κ) (value : ν) : FinMap κ ν :=
  ⟨insertEntry key value m.entries, increasing_insertEntry m.increasing⟩

/-- The map of a list of entries, where the last of several values for a key counts. -/
def ofList [TransOrd κ] [LawfulEqOrd κ] (list : List (κ × ν)) : FinMap κ ν :=
  list.foldl (fun m e => m.insert e.1 e.2) empty

def filter (m : FinMap κ ν) (keep : κ → ν → Bool) : FinMap κ ν :=
  ⟨m.entries.filter fun e => keep e.1 e.2, m.increasing.filter _⟩

def erase (m : FinMap κ ν) (key : κ) : FinMap κ ν :=
  m.filter fun k _ => compare k key != .eq

def mapValues {μ : Type} (m : FinMap κ ν) (f : κ → ν → μ) : FinMap κ μ :=
  ⟨m.entries.map fun e => (e.1, f e.1 e.2), List.pairwise_map.2 m.increasing⟩

/-! ## Merging -/

section Merge

variable {μ : Type}

/-- An entry in front of a list, if there is a value for it. A merge can drop keys, and
this is where it does. -/
def consValue (key : κ) (value : Option μ) (rest : List (κ × μ)) : List (κ × μ) :=
  match value with
  | some value => (key, value) :: rest
  | none => rest

/-- Merges the entry `(key, a)` and what `next` makes of the entries after it with a
list. The recursion on the first list is not visible here: `next` stands for it. -/
def mergeEntry (f : Option ν → Option ν → Option μ) (key : κ) (a : ν)
    (next : List (κ × ν) → List (κ × μ)) : List (κ × ν) → List (κ × μ)
  | [] => consValue key (f (some a) none) (next [])
  | (k, b) :: rest =>
    match compare key k with
    | .lt => consValue key (f (some a) none) (next ((k, b) :: rest))
    | .eq => consValue key (f (some a) (some b)) (next rest)
    | .gt => consValue k (f none (some b)) (mergeEntry f key a next rest)

/-- Merges two increasing lists: `f` sees the values at each key of either, and is not
asked about keys of neither. -/
def mergeEntries (f : Option ν → Option ν → Option μ) :
    List (κ × ν) → List (κ × ν) → List (κ × μ)
  | [] => fun bs => bs.filterMap fun e => (f none (some e.2)).map (e.1, ·)
  | (key, a) :: as => mergeEntry f key a (mergeEntries f as)

omit [Ord κ] in
theorem mem_consValue {key : κ} {value : Option μ} {rest : List (κ × μ)} {e : κ × μ}
    (h : e ∈ consValue key value rest) : e.1 = key ∨ e ∈ rest := by
  cases value with
  | none => exact .inr h
  | some v =>
    rcases List.mem_cons.1 h with rfl | h
    · exact .inl rfl
    · exact .inr h

theorem mem_mergeEntry {f : Option ν → Option ν → Option μ} {key : κ} {a : ν}
    {next : List (κ × ν) → List (κ × μ)} {keys : List κ}
    (hnext : ∀ bs, ∀ e ∈ next bs, e.1 ∈ keys ∨ e.1 ∈ bs.map (·.1)) (bs : List (κ × ν)) :
    ∀ e ∈ mergeEntry f key a next bs, e.1 ∈ key :: keys ∨ e.1 ∈ bs.map (·.1) := by
  induction bs with
  | nil =>
    intro e he
    rcases mem_consValue he with h | h
    · exact .inl (by simp [h])
    · exact (hnext [] e h).imp_left (List.mem_cons_of_mem _)
  | cons head rest ih =>
    obtain ⟨k, b⟩ := head
    intro e he
    simp only [mergeEntry] at he
    split at he
    · rcases mem_consValue he with h | h
      · exact .inl (by simp [h])
      · exact (hnext _ e h).imp_left (List.mem_cons_of_mem _)
    · rcases mem_consValue he with h | h
      · exact .inl (by simp [h])
      · exact (hnext _ e h).imp (List.mem_cons_of_mem _) (List.mem_cons_of_mem _)
    · rcases mem_consValue he with h | h
      · exact .inr (by simp [h])
      · exact (ih e h).imp_right (List.mem_cons_of_mem _)

/-- A merge has only keys of the lists merged. -/
theorem mem_mergeEntries {f : Option ν → Option ν → Option μ} (as bs : List (κ × ν)) :
    ∀ e ∈ mergeEntries f as bs, e.1 ∈ as.map (·.1) ∨ e.1 ∈ bs.map (·.1) := by
  induction as generalizing bs with
  | nil =>
    intro e he
    simp only [mergeEntries, List.mem_filterMap, Option.map_eq_some_iff] at he
    obtain ⟨e', he', _, _, rfl⟩ := he
    exact .inr (List.mem_map_of_mem he')
  | cons head as ih =>
    obtain ⟨key, a⟩ := head
    exact mem_mergeEntry ih bs

theorem increasing_consValue {key : κ} {value : Option μ} {rest : List (κ × μ)}
    (hkey : ∀ e ∈ rest, compare key e.1 = .lt)
    (hrest : rest.Pairwise (fun a b => compare a.1 b.1 = .lt)) :
    (consValue key value rest).Pairwise (fun a b => compare a.1 b.1 = .lt) := by
  cases value with
  | none => exact hrest
  | some v => exact List.pairwise_cons.2 ⟨hkey, hrest⟩

theorem increasing_mergeEntry [TransOrd κ] [LawfulEqOrd κ]
    {f : Option ν → Option ν → Option μ} {key : κ} {a : ν} {as : List (κ × ν)}
    (has : ∀ e ∈ as, compare key e.1 = .lt)
    (ih : ∀ bs : List (κ × ν), bs.Pairwise (fun a b => compare a.1 b.1 = .lt) →
      (mergeEntries f as bs).Pairwise (fun a b => compare a.1 b.1 = .lt))
    {bs : List (κ × ν)} (hbs : bs.Pairwise (fun a b => compare a.1 b.1 = .lt)) :
    (mergeEntry f key a (mergeEntries f as) bs).Pairwise
      (fun a b => compare a.1 b.1 = .lt) := by
  -- What follows `key` has only keys of `as` and of a list all of whose keys come after
  -- `key`.
  have after : ∀ cs : List (κ × ν), (∀ e ∈ cs, compare key e.1 = .lt) →
      ∀ e ∈ mergeEntries f as cs, compare key e.1 = .lt := by
    intro cs hcs e he
    rcases mem_mergeEntries as cs e he with h | h
    all_goals
      obtain ⟨e', he', heq⟩ := List.mem_map.1 h
      rw [← heq]
    · exact has e' he'
    · exact hcs e' he'
  induction bs with
  | nil => exact increasing_consValue (after [] (by simp)) (ih [] .nil)
  | cons head rest ihb =>
    obtain ⟨k, b⟩ := head
    obtain ⟨hk, hrest⟩ := List.pairwise_cons.1 hbs
    simp only [mergeEntry]
    split
    · rename_i hlt
      refine increasing_consValue (after _ fun e he => ?_) (ih _ hbs)
      rcases List.mem_cons.1 he with rfl | he
      · exact hlt
      · exact Std.TransCmp.lt_trans hlt (hk e he)
    · rename_i heq
      have hkk : key = k := Std.LawfulEqOrd.eq_of_compare heq
      refine increasing_consValue (after _ fun e he => ?_) (ih _ hrest)
      rw [hkk]; exact hk e he
    · rename_i hgt
      have hlt : compare k key = .lt := Std.OrientedCmp.gt_iff_lt.1 hgt
      refine increasing_consValue (fun e he => ?_) (ihb hrest)
      have hkeys : e.1 ∈ key :: as.map (·.1) ∨ e.1 ∈ rest.map (·.1) :=
        mem_mergeEntry (mem_mergeEntries as) rest e he
      rcases hkeys with h | h
      · rcases List.mem_cons.1 h with h | h
        · rw [h]; exact hlt
        · obtain ⟨e', he', heq⟩ := List.mem_map.1 h
          rw [← heq]; exact Std.TransCmp.lt_trans hlt (has e' he')
      · obtain ⟨e', he', heq⟩ := List.mem_map.1 h
        rw [← heq]; exact hk e' he'

theorem increasing_mergeEntries [TransOrd κ] [LawfulEqOrd κ]
    {f : Option ν → Option ν → Option μ} {as bs : List (κ × ν)}
    (has : as.Pairwise (fun a b => compare a.1 b.1 = .lt))
    (hbs : bs.Pairwise (fun a b => compare a.1 b.1 = .lt)) :
    (mergeEntries f as bs).Pairwise (fun a b => compare a.1 b.1 = .lt) := by
  induction as generalizing bs with
  | nil =>
    refine List.pairwise_filterMap.2 (hbs.imp fun {x y} hxy => ?_)
    intro e he e' he'
    obtain ⟨_, _, rfl⟩ := Option.map_eq_some_iff.1 he
    obtain ⟨_, _, rfl⟩ := Option.map_eq_some_iff.1 he'
    exact hxy
  | cons head as ih =>
    obtain ⟨key, a⟩ := head
    obtain ⟨hkey, has⟩ := List.pairwise_cons.1 has
    exact increasing_mergeEntry hkey (fun bs hbs => ih has hbs) hbs

/-- The map whose value at each key of either map is what `f` makes of their values
there. -/
def merge [TransOrd κ] [LawfulEqOrd κ] (f : Option ν → Option ν → Option μ)
    (a b : FinMap κ ν) : FinMap κ μ :=
  ⟨mergeEntries f a.entries b.entries, increasing_mergeEntries a.increasing b.increasing⟩

end Merge

/-- The entries on which two maps agree. This is the join of everything an environment
knows for sure: what one path knows and the other does not is not known where they
meet. -/
def agreeing [TransOrd κ] [LawfulEqOrd κ] [DecidableEq ν] (a b : FinMap κ ν) : FinMap κ ν :=
  merge (fun x y => if x = y then x else none) a b

end FinMap

end Custody
