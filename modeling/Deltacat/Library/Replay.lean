import Deltacat.Library.Grouping
import Mathlib.Data.List.SplitBy

/-!
# Replaying changes to a bag of items

A change puts items into a bag or removes those that meet a condition. How items are
put is a `Merging`: it does not matter how the items are cut into puts, nor whether the
bag is split into buckets before. Hence a replay can be done bucket by bucket
(`replay_filter`, `flatMap_replay_perm`), and in as many rounds as one likes.
-/

namespace Deltacat.Library

universe u v

variable {Item : Type u} {Key : Type v}

/-- The new items take the place of those with their keys; the last one of a key counts. -/
def upsert [DecidableEq Key] (key : Item → Key) (old new : List Item) : List Item :=
  old.filter (fun item => key item ∉ new.map key) ++ keepLast key new

/-- Consecutive items that are grouped by a key have the same key. -/
theorem key_eq_of_mem_splitBy [DecidableEq Key] {key : Item → Key} {items group : List Item}
    (groupMem : group ∈ items.splitBy fun left right => key left = key right) :
    ∀ left ∈ group, ∀ right ∈ group, key left = key right := by
  have isChain := List.isChain_of_mem_splitBy groupMem
  simp only [decide_eq_true_eq] at isChain
  have : IsTrans Item fun left right => key left = key right := ⟨fun _ _ _ => Eq.trans⟩
  have isPairwise := List.isChain_iff_pairwise.mp isChain
  have : Std.Symm fun left right : Item => key left = key right := ⟨fun _ _ => Eq.symm⟩
  intro left leftMem right rightMem
  by_cases same : left = right
  · rw [same]
  · exact isPairwise.forall leftMem rightMem same

section Upsert

variable [DecidableEq Key] {key : Item → Key} {old other new first second : List Item}

theorem keepLast_append :
    keepLast key (first ++ second) =
      (keepLast key first).filter (fun item => key item ∉ second.map key) ++
        keepLast key second := by
  induction first with
  | nil => rfl
  | cons head first ih =>
      simp only [List.cons_append, keepLast, List.map_append, List.mem_append]
      by_cases inFirst : key head ∈ first.map key
      · rw [if_pos (Or.inl inFirst), if_pos inFirst, ih]
      · by_cases inSecond : key head ∈ second.map key
        · rw [if_pos (Or.inr inSecond), if_neg inFirst, ih, List.filter_cons_of_neg]
          simpa using inSecond
        · rw [if_neg (not_or.mpr ⟨inFirst, inSecond⟩), if_neg inFirst, ih,
            List.filter_cons_of_pos, List.cons_append]
          simpa using inSecond

/-- Items of one key are kept or left out together. -/
theorem filter_keepLast_of_key {select : Item → Bool} (items : List Item)
    (byKey : ∀ left right, key left = key right → select left = select right) :
    (keepLast key items).filter select = keepLast key (items.filter select) := by
  induction items with
  | nil => rfl
  | cons head items ih =>
      have sameLater : select head →
          (key head ∈ (items.filter select).map key ↔ key head ∈ items.map key) := by
        intro selected
        constructor
        · exact fun later => (List.filter_sublist.map key).subset later
        · intro later
          rcases List.mem_map.mp later with ⟨item, itemMem, isKey⟩
          have isSelected : select item := by rw [byKey item head isKey, selected]
          exact List.mem_map.mpr ⟨item, List.mem_filter.mpr ⟨itemMem, isSelected⟩, isKey⟩
      by_cases selected : select head
      · rw [List.filter_cons_of_pos selected]
        simp only [keepLast, sameLater selected]
        split_ifs
        · exact ih
        · rw [List.filter_cons_of_pos selected, ih]
      · rw [List.filter_cons_of_neg selected, keepLast]
        split_ifs
        · exact ih
        · rw [List.filter_cons_of_neg selected, ih]

@[simp] theorem upsert_nil : upsert key old [] = old := by
  simp [upsert, keepLast]

theorem upsert_append :
    upsert key old (first ++ second) = upsert key (upsert key old first) second := by
  simp only [upsert, keepLast_append, List.filter_append, List.filter_filter, List.map_append,
    List.mem_append, not_or, List.append_assoc]
  congr 1
  apply List.filter_congr
  intro item _
  rw [Bool.eq_iff_iff]
  simp only [decide_eq_true_eq, Bool.and_eq_true]
  exact and_comm

theorem filter_upsert {select : Item → Bool}
    (byKey : ∀ left right, key left = key right → select left = select right) :
    (upsert key old new).filter select = upsert key (old.filter select) (new.filter select) := by
  simp only [upsert, List.filter_append, filter_keepLast_of_key new byKey, List.filter_filter]
  congr 1
  apply List.filter_congr
  intro item _
  rw [Bool.eq_iff_iff]
  simp only [Bool.and_eq_true, decide_eq_true_eq, List.mem_map, List.mem_filter]
  constructor
  · rintro ⟨selected, isOld⟩
    refine ⟨?_, selected⟩
    rintro ⟨replacing, ⟨isNew, _⟩, isKey⟩
    exact isOld ⟨replacing, isNew, isKey⟩
  · rintro ⟨isOld, selected⟩
    refine ⟨selected, ?_⟩
    rintro ⟨replacing, isNew, isKey⟩
    exact isOld ⟨replacing, ⟨isNew, by rw [byKey replacing item isKey, selected]⟩, isKey⟩

/-- Keys that tell the same items apart replace the same items. -/
theorem upsert_congr {Other : Type v} [DecidableEq Other] {otherKey : Item → Other}
    (same : ∀ left ∈ old ++ new, ∀ right ∈ new,
      key left = key right ↔ otherKey left = otherKey right) :
    upsert key old new = upsert otherKey old new := by
  unfold upsert
  congr 1
  · apply List.filter_congr
    intro item itemMem
    have sameAs := same item (List.mem_append_left _ itemMem)
    rw [Bool.eq_iff_iff, decide_eq_true_iff, decide_eq_true_iff, not_iff_not, List.mem_map,
      List.mem_map]
    apply exists_congr
    intro other
    apply and_congr_right
    intro otherMem
    rw [eq_comm, sameAs other otherMem, eq_comm]
  · apply keepLast_congr
    exact fun left leftMem => same left (List.mem_append_right _ leftMem)

theorem upsert_perm (same : old.Perm other) : (upsert key old new).Perm (upsert key other new) :=
  (same.filter _).append_right _

theorem nodup_map_upsert (distinct : (old.map key).Nodup) :
    ((upsert key old new).map key).Nodup := by
  rw [upsert, List.map_append, List.nodup_append']
  refine ⟨distinct.sublist (List.filter_sublist.map key), nodup_map_keepLast, ?_⟩
  intro itemKey isOld isNew
  rw [mem_map_keepLast] at isNew
  rcases List.mem_map.mp isOld with ⟨item, itemMem, rfl⟩
  have notReplaced := (List.mem_filter.mp itemMem).2
  simp only [decide_eq_true_eq] at notReplaced
  exact notReplaced isNew

end Upsert

/-- A way to put items into a bag that is spread over buckets. -/
structure Merging (bucket : Item → ℕ) where
  put : List Item → List Item → List Item
  put_nil : ∀ old, put old [] = old
  put_append : ∀ old first second, put old (first ++ second) = put (put old first) second
  filter_put : ∀ old new index, (put old new).filter (bucket · = index) =
    put (old.filter (bucket · = index)) (new.filter (bucket · = index))
  put_perm : ∀ {old other} new, old.Perm other → (put old new).Perm (put other new)

namespace Merging

/-- Items are replaced by their keys, and items of one key are in one bucket. -/
def upserting [DecidableEq Key] (key : Item → Key) (bucket : Item → ℕ)
    (byKey : ∀ left right, key left = key right → bucket left = bucket right) :
    Merging bucket where
  put := upsert key
  put_nil := fun _ => upsert_nil
  put_append := fun _ _ _ => upsert_append
  filter_put := fun _ _ _ => filter_upsert fun left right isKey => by
    rw [byKey left right isKey]
  put_perm := fun _ => upsert_perm

/-- All items are kept. -/
def appending (bucket : Item → ℕ) : Merging bucket where
  put := fun old new => old ++ new
  put_nil := List.append_nil
  put_append := fun old first second => (List.append_assoc old first second).symm
  filter_put := fun _ _ _ => List.filter_append _ _
  put_perm := fun new same => same.append_right new

end Merging

/-- A change of a bag. -/
inductive Change (Item : Type u)
  | put (items : List Item)
  | remove (select : Item → Bool)

namespace Change

variable {bucket : Item → ℕ} (merging : Merging bucket)

def apply (bag : List Item) : Change Item → List Item
  | .put items => merging.put bag items
  | .remove select => bag.filter (!select ·)

/-- What a bucket gets to see of a change: all removals, but only its own items. -/
def within (bucket : Item → ℕ) (index : ℕ) : Change Item → Change Item
  | .put items => .put (items.filter (bucket · = index))
  | .remove select => .remove select

theorem apply_filter (bag : List Item) (change : Change Item) (index : ℕ) :
    (change.apply merging bag).filter (bucket · = index) =
      (change.within bucket index).apply merging (bag.filter (bucket · = index)) := by
  cases change with
  | put items => exact merging.filter_put bag items index
  | remove select => exact List.filter_comm _ _ bag

theorem apply_perm {bag other : List Item} (same : bag.Perm other) (change : Change Item) :
    (change.apply merging bag).Perm (change.apply merging other) := by
  cases change with
  | put items => exact merging.put_perm items same
  | remove select => exact same.filter _

end Change

/-- The bag after a list of changes. -/
def replay {bucket : Item → ℕ} (merging : Merging bucket) (bag : List Item)
    (changes : List (Change Item)) : List Item :=
  changes.foldl (Change.apply merging) bag

section Replay

variable {bucket : Item → ℕ} (merging : Merging bucket) {bag other : List Item}
  {changes : List (Change Item)}

@[simp] theorem replay_nil : replay merging bag [] = bag := rfl

@[simp] theorem replay_cons {change : Change Item} :
    replay merging bag (change :: changes) =
      replay merging (change.apply merging bag) changes := rfl

/-- Changes can be replayed in rounds. -/
theorem replay_append (first second : List (Change Item)) :
    replay merging bag (first ++ second) = replay merging (replay merging bag first) second :=
  List.foldl_append

theorem replay_perm (same : bag.Perm other) :
    (replay merging bag changes).Perm (replay merging other changes) := by
  induction changes generalizing bag other with
  | nil => exact same
  | cons change changes ih => exact ih (change.apply_perm merging same)

/-- Puts one after another are one put. -/
theorem replay_puts (batches : List (List Item)) :
    replay merging bag (batches.map .put) = merging.put bag batches.flatten := by
  induction batches generalizing bag with
  | nil => exact (merging.put_nil bag).symm
  | cons batch batches ih =>
      rw [List.flatten_cons, merging.put_append]
      exact ih

/-- Removals one after another keep what none of them selects. -/
theorem replay_removals (selects : List (Item → Bool)) :
    replay merging bag (selects.map .remove) =
      bag.filter fun item => selects.all fun select => !select item := by
  induction selects generalizing bag with
  | nil => simp
  | cons select selects ih =>
      rw [List.map_cons, replay_cons, ih, Change.apply, List.filter_filter]
      apply List.filter_congr
      intro item _
      rw [List.all_cons, Bool.and_comm]

/-- A bucket develops as it does on its own. -/
theorem replay_filter (index : ℕ) :
    (replay merging bag changes).filter (bucket · = index) =
      replay merging (bag.filter (bucket · = index)) (changes.map (·.within bucket index)) := by
  induction changes generalizing bag with
  | nil => rfl
  | cons change changes ih =>
      rw [List.map_cons, replay_cons, replay_cons, ih, change.apply_filter]

/-- The items of the first buckets. -/
theorem flatMap_filter_perm_filter (items : List Item) (count : ℕ) :
    ((List.range count).flatMap fun index => items.filter (bucket · = index)).Perm
      (items.filter (bucket · < count)) := by
  induction count with
  | zero => simp
  | succ count ih =>
      have split := List.filter_append_perm (bucket · < count) (items.filter (bucket · < count + 1))
      have isBelow : (items.filter (bucket · < count + 1)).filter (bucket · < count) =
          items.filter (bucket · < count) := by
        rw [List.filter_filter]
        apply List.filter_congr
        intro item _
        rw [Bool.eq_iff_iff]
        simp only [Bool.and_eq_true, decide_eq_true_eq]
        omega
      have isLast : (items.filter (bucket · < count + 1)).filter
          (fun item => !decide (bucket item < count)) = items.filter (bucket · = count) := by
        rw [List.filter_filter]
        apply List.filter_congr
        intro item _
        rw [Bool.eq_iff_iff]
        simp only [Bool.and_eq_true, Bool.not_eq_true', decide_eq_true_eq, decide_eq_false_iff_not]
        omega
      rw [isBelow, isLast] at split
      rw [List.range_succ, List.flatMap_append, List.flatMap_singleton]
      exact (ih.append_right _).trans split

/-- The items of a bag are those of its buckets. -/
theorem flatMap_filter_perm {count : ℕ} {items : List Item}
    (bounded : ∀ item ∈ items, bucket item < count) :
    ((List.range count).flatMap fun index => items.filter (bucket · = index)).Perm items := by
  have all : items.filter (bucket · < count) = items := by
    rw [List.filter_eq_self]
    simpa using bounded
  simpa [all] using @flatMap_filter_perm_filter _ bucket items count

/-- Upserts and removals keep the keys of a bag apart. -/
theorem nodup_map_replay {Key : Type v} [DecidableEq Key] {key : Item → Key}
    (byKey : ∀ left right, key left = key right → bucket left = bucket right)
    (distinct : (bag.map key).Nodup) :
    ((replay (Merging.upserting key bucket byKey) bag changes).map key).Nodup := by
  induction changes generalizing bag with
  | nil => exact distinct
  | cons change changes ih =>
      rw [replay_cons]
      apply ih
      cases change with
      | put items => exact nodup_map_upsert distinct
      | remove select => exact distinct.sublist (List.filter_sublist.map key)

end Replay

end Deltacat.Library
