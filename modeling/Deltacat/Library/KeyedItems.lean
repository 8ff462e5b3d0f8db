import Mathlib.Data.List.Nodup

/-!
# Keyed items

Insertion-ordered collections of items with distinct keys, as dictionaries
whose values know their own key. Storing an item replaces the one with its key
in place, or else appends it; lookups see exactly the stored item.
-/

namespace Deltacat.Library

universe u v

variable {Key : Type u} {Item : Type v}

/-- Items in insertion order, at most one for each key. -/
structure KeyedItems (key : Item → Key) where
  items : List Item
  distinct : (items.map key).Nodup

namespace KeyedItems

variable {key : Item → Key}

theorem ext_items {left right : KeyedItems key} (same : left.items = right.items) :
    left = right := by
  cases left
  cases right
  simpa using same

instance [DecidableEq Item] : DecidableEq (KeyedItems key) := fun left right =>
  decidable_of_iff (left.items = right.items) ⟨ext_items, fun same => by rw [same]⟩

/-- No items. -/
def empty : KeyedItems key := ⟨[], List.nodup_nil⟩

@[simp]
theorem items_empty : (empty : KeyedItems key).items = [] := rfl

variable [DecidableEq Key]

/-- The item with a key. -/
def get? (stored : KeyedItems key) (name : Key) : Option Item :=
  stored.items.find? fun item => key item = name

/-- Whether a key is present. -/
def contains (stored : KeyedItems key) (name : Key) : Bool := (stored.get? name).isSome

@[simp]
theorem get?_empty (name : Key) : (empty : KeyedItems key).get? name = none := rfl

theorem get?_eq_some_iff {stored : KeyedItems key} {name : Key} {item : Item} :
    stored.get? name = some item ↔ item ∈ stored.items ∧ key item = name := by
  constructor
  · intro found
    exact ⟨List.mem_of_find?_eq_some found, by simpa using List.find?_some found⟩
  · rintro ⟨present, rfl⟩
    rcases stored with ⟨items, distinct⟩
    simp only [get?] at present ⊢
    induction items with
    | nil => cases present
    | cons first rest ih =>
        simp only [List.map_cons, List.nodup_cons] at distinct
        rcases List.mem_cons.mp present with rfl | later
        · simp
        · have different : key first ≠ key item := fun same =>
            distinct.1 (same ▸ List.mem_map_of_mem later)
          simpa [different] using ih distinct.2 later

theorem get?_key {stored : KeyedItems key} {item : Item} (present : item ∈ stored.items) :
    stored.get? (key item) = some item :=
  get?_eq_some_iff.mpr ⟨present, rfl⟩

theorem key_of_get? {stored : KeyedItems key} {name : Key} {item : Item}
    (found : stored.get? name = some item) : key item = name :=
  (get?_eq_some_iff.mp found).2

theorem get?_eq_none_iff {stored : KeyedItems key} {name : Key} :
    stored.get? name = none ↔ name ∉ stored.items.map key := by
  simp [get?]

/-- Replacing each item by one with the same key keeps the keys. -/
theorem map_key_replace (item : Item) (items : List Item) :
    (items.map fun other => if key other = key item then item else other).map key =
      items.map key := by
  rw [List.map_map]
  apply List.map_congr_left
  intro other _
  by_cases same : key other = key item <;> simp [same]

/-- Store an item under its key: in place of the one there, or else at the end. -/
def set (stored : KeyedItems key) (item : Item) : KeyedItems key :=
  if fresh : stored.get? (key item) = none then
    ⟨stored.items ++ [item], by
      rw [List.map_append, List.nodup_append]
      refine ⟨stored.distinct, by simp, ?_⟩
      intro name present appended isAppended
      rcases List.mem_singleton.mp isAppended with rfl
      rintro rfl
      exact get?_eq_none_iff.mp fresh present⟩
  else
    ⟨stored.items.map fun other => if key other = key item then item else other, by
      rw [map_key_replace]
      exact stored.distinct⟩

theorem items_set_of_fresh {stored : KeyedItems key} {item : Item}
    (fresh : stored.get? (key item) = none) :
    (stored.set item).items = stored.items ++ [item] := by
  simp [set, fresh]

/-- What is found after a store. -/
theorem get?_set (stored : KeyedItems key) (item : Item) (name : Key) :
    (stored.set item).get? name = if key item = name then some item else stored.get? name := by
  by_cases fresh : stored.get? (key item) = none
  · by_cases same : key item = name
    · subst same
      rw [if_pos rfl]
      exact get?_key (by simp [items_set_of_fresh fresh])
    · rw [if_neg same, get?, get?, items_set_of_fresh fresh, List.find?_append]
      simp [same]
  · have replaced : (stored.set item).items =
        stored.items.map fun other => if key other = key item then item else other := by
      simp [set, fresh]
    by_cases same : key item = name
    · subst same
      rw [if_pos rfl]
      rcases Option.ne_none_iff_exists'.mp fresh with ⟨previous, found⟩
      rcases get?_eq_some_iff.mp found with ⟨present, sameKey⟩
      apply get?_key
      rw [replaced]
      exact List.mem_map.mpr ⟨previous, present, by simp [sameKey]⟩
    · rw [if_neg same]
      apply Option.ext
      intro other
      rw [get?_eq_some_iff, get?_eq_some_iff, replaced, List.mem_map]
      constructor
      · rintro ⟨⟨source, present, rfl⟩, named⟩
        by_cases isReplaced : key source = key item
        · rw [if_pos isReplaced] at named
          exact absurd named same
        · rw [if_neg isReplaced] at named ⊢
          exact ⟨present, named⟩
      · rintro ⟨present, rfl⟩
        exact ⟨⟨other, present, if_neg fun equal => same equal.symm⟩, rfl⟩

/-- Remove the item with a key. -/
def erase (stored : KeyedItems key) (name : Key) : KeyedItems key :=
  ⟨stored.items.filter fun item => key item ≠ name,
    stored.distinct.sublist (List.filter_sublist.map key)⟩

/-- What is found after a removal. -/
theorem get?_erase (stored : KeyedItems key) (removed name : Key) :
    (stored.erase removed).get? name = if removed = name then none else stored.get? name := by
  apply Option.ext
  intro item
  by_cases same : removed = name
  · subst same
    simp [get?_eq_some_iff, erase]
  · rw [if_neg same, get?_eq_some_iff, get?_eq_some_iff]
    simp only [erase, List.mem_filter, decide_eq_true_eq]
    constructor
    · rintro ⟨⟨present, _⟩, named⟩
      exact ⟨present, named⟩
    · rintro ⟨present, rfl⟩
      exact ⟨⟨present, fun equal => same equal.symm⟩, rfl⟩

end KeyedItems

end Deltacat.Library
