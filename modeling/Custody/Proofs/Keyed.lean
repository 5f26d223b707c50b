import Mathlib.Data.List.Basic

/-!
# Items known by a key

Of the items in a list with one key, `find?` takes the first. Where items with one key
are one item, this is the item, and the order of the list does not matter.

What units declare is looked up in this way, and diagnostics are: by a key, in a list
that was collected in some order, with the first one counting. Each time what is known
is that all items with one key are the same, and what is wanted is that the order does
not matter. That is proved here for any items.
-/

set_option autoImplicit false

namespace Custody

variable {α κ : Type} [DecidableEq κ] {key : α → κ} {items items' : List α}

theorem isSome_find?_key {wanted : κ} :
    (items.find? (key · = wanted)).isSome ↔ wanted ∈ items.map key := by
  simp [List.find?_isSome]

theorem find?_key_eq_some_iff (hkeys : ∀ a ∈ items, ∀ b ∈ items, key a = key b → a = b)
    {wanted : κ} {item : α} :
    items.find? (key · = wanted) = some item ↔ item ∈ items ∧ key item = wanted := by
  constructor
  · intro hfind
    exact ⟨List.mem_of_find?_eq_some hfind, by simpa using List.find?_some hfind⟩
  · rintro ⟨hitem, rfl⟩
    have hsome : (items.find? (key · = key item)).isSome :=
      isSome_find?_key.2 (List.mem_map_of_mem hitem)
    obtain ⟨first, hfirst⟩ := Option.isSome_iff_exists.1 hsome
    have hkey : key first = key item := by simpa using List.find?_some hfirst
    rw [hfirst, hkeys first (List.mem_of_find?_eq_some hfirst) item hitem hkey]

/-- Which item has a key does not depend on their order, nor on repetitions. -/
theorem find?_key_congr (hkeys : ∀ a ∈ items, ∀ b ∈ items, key a = key b → a = b)
    (hsame : ∀ a, a ∈ items ↔ a ∈ items') (wanted : κ) :
    items.find? (key · = wanted) = items'.find? (key · = wanted) := by
  have hkeys' : ∀ a ∈ items', ∀ b ∈ items', key a = key b → a = b :=
    fun a ha b hb => hkeys a ((hsame a).2 ha) b ((hsame b).2 hb)
  refine Option.ext fun item => ?_
  rw [find?_key_eq_some_iff hkeys, find?_key_eq_some_iff hkeys', hsame]

end Custody
