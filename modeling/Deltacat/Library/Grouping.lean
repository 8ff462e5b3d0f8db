import Mathlib.Data.List.Dedup
import Mathlib.Tactic

/-!
# Grouping and selecting by a key

`groupInto` collects the items of a list in groups with a common key, in the
order in which the keys first occur, `keepLast` keeps the last item of each key
and `allButLast` the others, and `greatestBy` selects from a list the first item
whose key is the greatest.
`popLeast` takes an item with the least key out of a list, as a priority queue
does. `sum_map_set` follows a sum over a list of which one item is replaced, and
`eq_or_before_getLast` compares the items of an ordered list with the last one.
-/

namespace Deltacat.Library

universe u v w

variable {Item : Type u} {Key : Type v}

theorem sum_map_set {Weight : Type w} [AddCommMonoid Weight] {items : List Item} {index : ℕ}
    {old : Item} (new : Item) (weight : Item → Weight) (isOld : items[index]? = some old) :
    ((items.set index new).map weight).sum + weight old =
      (items.map weight).sum + weight new := by
  induction items generalizing index with
  | nil => simp at isOld
  | cons head items ih =>
      cases index with
      | zero =>
          simp only [List.getElem?_cons_zero, Option.some.injEq] at isOld
          subst isOld
          simp only [List.set_cons_zero, List.map_cons, List.sum_cons]
          abel
      | succ index =>
          simp only [List.getElem?_cons_succ] at isOld
          simp only [List.set_cons_succ, List.map_cons, List.sum_cons, add_assoc, ih isOld]

/-- In an ordered list whatever is not the last item is before it. -/
theorem eq_or_before_getLast {items : List Item} {before : Item → Item → Prop}
    (ordered : items.Pairwise before) {item last : Item} (isLast : items.getLast? = some last)
    (itemMem : item ∈ items) : item = last ∨ before item last := by
  obtain ⟨front, rfl⟩ := List.getLast?_eq_some_iff.mp isLast
  rcases List.mem_append.mp itemMem with itemMem | isItem
  · exact Or.inr ((List.pairwise_append.mp ordered).2.2 item itemMem last
      (List.mem_singleton_self last))
  · exact Or.inl (List.mem_singleton.mp isItem)

/-- The keys of the items, each at its first occurrence. -/
def distinctKeys [DecidableEq Key] (key : Item → Key) (items : List Item) : List Key :=
  (items.map key).reverse.dedup.reverse

/-- The items by their key. -/
def groupInto [DecidableEq Key] (key : Item → Key) (items : List Item) :
    List (Key × List Item) :=
  (distinctKeys key items).map fun groupKey => (groupKey, items.filter (key · = groupKey))

section GroupInto

variable [DecidableEq Key] {key : Item → Key} {items : List Item}

private theorem head?_dedup {keys : List Key} {precedes : Key → Key → Prop}
    (antisymm : ∀ left right, precedes left right → precedes right left → left = right)
    (ordered : keys.Pairwise precedes) : keys.dedup.head? = keys.head? := by
  induction keys with
  | nil => rfl
  | cons first keys ih =>
      rw [List.pairwise_cons] at ordered
      by_cases again : first ∈ keys
      · rw [List.dedup_cons_of_mem again, ih ordered.2]
        rcases keys with _ | ⟨second, keys⟩
        · cases again
        · rcases List.mem_cons.mp again with rfl | later
          · rfl
          · have forth := ordered.1 second List.mem_cons_self
            have back := (List.pairwise_cons.mp ordered.2).1 first later
            rw [List.head?_cons, List.head?_cons, antisymm first second forth back]
      · rw [List.dedup_cons_of_notMem again]
        rfl

/-- If the items are ordered by their keys, the last key is that of the last item. -/
theorem getLast?_distinctKeys {precedes : Key → Key → Prop}
    (antisymm : ∀ left right, precedes left right → precedes right left → left = right)
    (ordered : items.Pairwise fun left right => precedes (key left) (key right)) :
    (distinctKeys key items).getLast? = items.getLast?.map key := by
  have reversed : (items.map key).reverse.Pairwise fun left right => precedes right left := by
    rw [List.pairwise_reverse, List.pairwise_map]
    exact ordered
  rw [distinctKeys, List.getLast?_reverse,
    head?_dedup (fun left right back forth => antisymm left right forth back) reversed,
    List.head?_reverse, List.getLast?_map]

theorem mem_distinctKeys {groupKey : Key} :
    groupKey ∈ distinctKeys key items ↔ ∃ item ∈ items, key item = groupKey := by
  simp [distinctKeys]

theorem nodup_distinctKeys : (distinctKeys key items).Nodup := by
  simpa [distinctKeys] using List.nodup_dedup _

theorem mem_groupInto {group : Key × List Item} :
    group ∈ groupInto key items ↔
      (∃ item ∈ items, key item = group.1) ∧ group.2 = items.filter (key · = group.1) := by
  rcases group with ⟨groupKey, members⟩
  simp only [groupInto, List.mem_map, mem_distinctKeys, Prod.mk.injEq]
  constructor
  · rintro ⟨_, isKey, rfl, rfl⟩
    exact ⟨isKey, rfl⟩
  · rintro ⟨isKey, isMembers⟩
    exact ⟨groupKey, isKey, rfl, isMembers.symm⟩

/-- Grouping keeps all the items. -/
theorem mem_flatMap_groupInto {item : Item} :
    item ∈ (groupInto key items).flatMap Prod.snd ↔ item ∈ items := by
  simp only [groupInto, List.mem_flatMap, List.mem_map, mem_distinctKeys]
  constructor
  · rintro ⟨_, ⟨groupKey, -, rfl⟩, itemMem⟩
    exact (List.mem_filter.mp itemMem).1
  · intro itemMem
    exact ⟨_, ⟨key item, ⟨item, itemMem, rfl⟩, rfl⟩, by simp [itemMem]⟩

theorem map_fst_groupInto : (groupInto key items).map Prod.fst = distinctKeys key items := by
  rw [groupInto, List.map_map]
  exact List.map_id _

end GroupInto

/-- The last item of every key, in the order of the list. -/
def keepLast [DecidableEq Key] (key : Item → Key) : List Item → List Item
  | [] => []
  | item :: items =>
      if key item ∈ items.map key then keepLast key items else item :: keepLast key items

section KeepLast

variable [DecidableEq Key] {key : Item → Key} {items : List Item}

theorem keepLast_sublist (key : Item → Key) (items : List Item) :
    (keepLast key items).Sublist items := by
  induction items with
  | nil => exact List.Sublist.refl _
  | cons head items ih =>
      simp only [keepLast]
      split_ifs with later
      · exact ih.cons head
      · exact ih.cons_cons head

theorem mem_map_keepLast {groupKey : Key} :
    groupKey ∈ (keepLast key items).map key ↔ groupKey ∈ items.map key := by
  induction items with
  | nil => rfl
  | cons head items ih =>
      simp only [keepLast]
      split_ifs with later
      · rw [ih, List.map_cons, List.mem_cons]
        constructor
        · exact Or.inr
        · rintro (rfl | isLater)
          · exact later
          · exact isLater
      · rw [List.map_cons, List.map_cons, List.mem_cons, List.mem_cons, ih]

theorem nodup_map_keepLast : ((keepLast key items).map key).Nodup := by
  induction items with
  | nil => exact List.nodup_nil
  | cons head items ih =>
      simp only [keepLast]
      split_ifs with later
      · exact ih
      · rw [List.map_cons, List.nodup_cons, mem_map_keepLast]
        exact ⟨later, ih⟩

/-- What is kept is the last item of its key. -/
theorem mem_keepLast_iff {item : Item} :
    item ∈ keepLast key items ↔ (items.filter (key · = key item)).getLast? = some item := by
  induction items with
  | nil => simp [keepLast]
  | cons head items ih =>
      simp only [keepLast, List.filter_cons]
      by_cases sameKey : key head = key item
      · by_cases later : key head ∈ items.map key
        · obtain ⟨other, otherMem, isKey⟩ := List.mem_map.mp later
          have nonempty : items.filter (key · = key item) ≠ [] :=
            List.ne_nil_of_mem (List.mem_filter.mpr ⟨otherMem, by simp [isKey, sameKey]⟩)
          obtain ⟨first, others, isCons⟩ := List.exists_cons_of_ne_nil nonempty
          rw [if_pos later, ih, if_pos (by simpa using sameKey), isCons, List.getLast?_cons_cons]
        · have isEmpty : items.filter (key · = key item) = [] := by
            rw [List.filter_eq_nil_iff]
            intro other otherMem isKey
            exact later (List.mem_map.mpr ⟨other, otherMem, by simpa [sameKey] using isKey⟩)
          have notKept : item ∉ keepLast key items := fun itemMem =>
            later (sameKey ▸ List.mem_map_of_mem ((keepLast_sublist key items).mem itemMem))
          rw [if_neg later, if_pos (by simpa using sameKey), isEmpty, List.mem_cons]
          simp [notKept, eq_comm]
      · have differs : item ≠ head := fun same => sameKey (congrArg key same.symm)
        have notSame : ¬decide (key head = key item) = true := by simpa using sameKey
        rw [if_neg notSame, ← ih]
        split_ifs with later
        · exact Iff.rfl
        · rw [List.mem_cons, or_iff_right differs]

theorem filter_keepLast (groupKey : Key) (items : List Item) :
    (keepLast key items).filter (key · = groupKey) =
      (items.filter (key · = groupKey)).getLast?.toList := by
  induction items with
  | nil => rfl
  | cons head items ih =>
      rw [keepLast]
      by_cases isGroup : key head = groupKey
      · have isCons : (head :: items).filter (key · = groupKey) =
            head :: items.filter (key · = groupKey) := by simp [isGroup]
        rw [isCons, List.getLast?_cons]
        split_ifs with later
        · obtain ⟨other, otherMem, isKey⟩ := List.mem_map.mp later
          have nonempty : items.filter (key · = groupKey) ≠ [] :=
            List.ne_nil_of_mem (List.mem_filter.mpr ⟨otherMem, by simp [isKey, isGroup]⟩)
          rw [ih, List.getLast?_eq_some_getLast nonempty]
          rfl
        · have isEmpty : items.filter (key · = groupKey) = [] := by
            rw [List.filter_eq_nil_iff]
            intro other otherMem isKey
            exact later (List.mem_map.mpr ⟨other, otherMem, by simpa [isGroup] using isKey⟩)
          have isLast : (head :: keepLast key items).filter (key · = groupKey) =
              head :: (keepLast key items).filter (key · = groupKey) := by simp [isGroup]
          rw [isLast, ih, isEmpty]
          rfl
      · have isTail : ∀ others : List Item, (head :: others).filter (key · = groupKey) =
            others.filter (key · = groupKey) := by simp [isGroup]
        rw [isTail, ← ih]
        split_ifs
        · rfl
        · exact isTail _

/-- With a finer key no less is kept. -/
theorem keepLast_sublist_keepLast {Finer : Type w} [DecidableEq Finer] {finer : Item → Finer}
    (refines : ∀ left ∈ items, ∀ right ∈ items, finer left = finer right → key left = key right) :
    (keepLast key items).Sublist (keepLast finer items) := by
  induction items with
  | nil => exact List.Sublist.refl _
  | cons head items ih =>
      have ofTail := ih fun left leftMem right rightMem =>
        refines left (List.mem_cons_of_mem head leftMem) right (List.mem_cons_of_mem head rightMem)
      simp only [keepLast]
      split_ifs with later laterFiner laterFiner
      · exact ofTail
      · exact ofTail.cons head
      · obtain ⟨other, otherMem, isKey⟩ := List.mem_map.mp laterFiner
        have sameKey :=
          refines other (List.mem_cons_of_mem head otherMem) head List.mem_cons_self isKey
        exact absurd (sameKey ▸ List.mem_map_of_mem otherMem) later
      · exact ofTail.cons_cons head

/-- Keys that tell the same items apart keep the same items. -/
theorem keepLast_congr {Other : Type w} [DecidableEq Other] {other : Item → Other}
    (same : ∀ left ∈ items, ∀ right ∈ items, key left = key right ↔ other left = other right) :
    keepLast key items = keepLast other items := by
  apply List.Sublist.antisymm
  · exact keepLast_sublist_keepLast fun left leftMem right rightMem =>
      (same left leftMem right rightMem).mpr
  · exact keepLast_sublist_keepLast fun left leftMem right rightMem =>
      (same left leftMem right rightMem).mp

/-- If a coarser key keeps as much, it tells the same items apart. -/
theorem eq_of_keepLast_eq {Finer : Type w} [DecidableEq Finer] {finer : Item → Finer}
    (keepsAll : keepLast key items = keepLast finer items)
    (refines : ∀ left ∈ items, ∀ right ∈ items, finer left = finer right → key left = key right) :
    ∀ left ∈ items, ∀ right ∈ items, key left = key right → finer left = finer right := by
  have kept : ∀ item ∈ items, ∃ last ∈ keepLast key items, finer last = finer item := by
    intro item itemMem
    rw [keepsAll]
    exact List.mem_map.mp (mem_map_keepLast.mpr (List.mem_map_of_mem itemMem))
  intro left leftMem right rightMem sameKey
  obtain ⟨first, firstMem, isLeft⟩ := kept left leftMem
  obtain ⟨second, secondMem, isRight⟩ := kept right rightMem
  have inItems : keepLast key items ⊆ items := (keepLast_sublist key items).subset
  have keyFirst := refines first (inItems firstMem) left leftMem isLeft
  have keySecond := refines second (inItems secondMem) right rightMem isRight
  have same : first = second := List.inj_on_of_nodup_map nodup_map_keepLast firstMem secondMem
    (keyFirst.trans (sameKey.trans keySecond.symm))
  rw [← isLeft, ← isRight, same]

end KeepLast

/-- All items but the last one of every key. -/
def allButLast [DecidableEq Key] (key : Item → Key) : List Item → List Item
  | [] => []
  | item :: items =>
      if key item ∈ items.map key then item :: allButLast key items else allButLast key items

theorem allButLast_sublist [DecidableEq Key] (key : Item → Key) (items : List Item) :
    (allButLast key items).Sublist items := by
  induction items with
  | nil => exact List.Sublist.refl _
  | cons head items ih =>
      simp only [allButLast]
      split_ifs with later
      · exact ih.cons_cons head
      · exact ih.cons head

theorem keepLast_append_allButLast_perm [DecidableEq Key] (key : Item → Key)
    (items : List Item) : (keepLast key items ++ allButLast key items).Perm items := by
  induction items with
  | nil => exact List.Perm.refl _
  | cons head items ih =>
      simp only [keepLast, allButLast]
      split_ifs with later
      · exact List.perm_middle.trans (ih.cons head)
      · exact ih.cons head

/-- Items that are selected by their key can be selected before or after. -/
theorem allButLast_filter [DecidableEq Key] {key : Item → Key} {select : Item → Bool}
    (byKey : ∀ left right, key left = key right → select left = select right)
    (items : List Item) :
    allButLast key (items.filter select) = (allButLast key items).filter select := by
  induction items with
  | nil => rfl
  | cons head items ih =>
      by_cases selected : select head
      · have sameKeys : key head ∈ (items.filter select).map key ↔ key head ∈ items.map key := by
          simp only [List.mem_map, List.mem_filter]
          constructor
          · rintro ⟨other, ⟨otherMem, -⟩, sameKey⟩
            exact ⟨other, otherMem, sameKey⟩
          · rintro ⟨other, otherMem, sameKey⟩
            exact ⟨other, ⟨otherMem, (byKey _ _ sameKey).trans selected⟩, sameKey⟩
        simp only [List.filter_cons, selected, if_true, allButLast, sameKeys, ih]
        split_ifs
        · simp [selected]
        · rfl
      · rw [List.filter_cons_of_neg selected, ih, allButLast]
        split_ifs
        · exact (List.filter_cons_of_neg selected).symm
        · rfl

/-- The items that are before another one of their key. -/
theorem mem_allButLast_iff [DecidableEq Key] {key : Item → Key} {items : List Item}
    {before : Item → Item → Prop} (asymm : ∀ left right, before left right → ¬before right left)
    (ordered : items.Pairwise before) {item : Item} :
    item ∈ allButLast key items ↔
      item ∈ items ∧ ∃ other ∈ items, key other = key item ∧ before item other := by
  induction items with
  | nil => simp [allButLast]
  | cons head items ih =>
      obtain ⟨isFirst, ordered⟩ := List.pairwise_cons.mp ordered
      have notBefore : item ∈ items → ¬before item head := fun itemMem =>
        asymm head item (isFirst item itemMem)
      have irrefl : ¬before head head := fun self => asymm head head self self
      have ofTail := ih ordered
      simp only [allButLast, List.mem_cons, exists_eq_or_imp]
      split_ifs with later
      · rw [List.mem_cons, ofTail]
        constructor
        · rintro (rfl | ⟨itemMem, isBefore⟩)
          · obtain ⟨other, otherMem, sameKey⟩ := List.mem_map.mp later
            exact ⟨Or.inl rfl, Or.inr ⟨other, otherMem, sameKey, isFirst other otherMem⟩⟩
          · exact ⟨Or.inr itemMem, Or.inr isBefore⟩
        · rintro ⟨rfl | itemMem, isBefore⟩
          · exact Or.inl rfl
          · exact Or.inr ⟨itemMem, isBefore.resolve_left fun head => notBefore itemMem head.2⟩
      · rw [ofTail]
        constructor
        · rintro ⟨itemMem, isBefore⟩
          exact ⟨Or.inr itemMem, Or.inr isBefore⟩
        · rintro ⟨rfl | itemMem, isBefore⟩
          · rcases isBefore with ⟨-, self⟩ | ⟨other, otherMem, sameKey, -⟩
            · exact absurd self irrefl
            · exact absurd (sameKey ▸ List.mem_map_of_mem otherMem) later
          · exact ⟨itemMem, isBefore.resolve_left fun head => notBefore itemMem head.2⟩

variable [LinearOrder Key] {key : Item → Key}

/-- The first item with the greatest key. -/
def greatestBy (key : Item → Key) : List Item → Option Item
  | [] => none
  | item :: items =>
      match greatestBy key items with
      | none => some item
      | some greatest => if key greatest ≤ key item then some item else some greatest

theorem greatestBy_eq_some {items : List Item} {greatest : Item}
    (isGreatest : greatestBy key items = some greatest) :
    greatest ∈ items ∧ ∀ item ∈ items, key item ≤ key greatest := by
  induction items generalizing greatest with
  | nil => cases isGreatest
  | cons head items ih =>
      simp only [greatestBy] at isGreatest
      rcases ofTail : greatestBy key items with _ | other
      · rw [ofTail] at isGreatest
        cases isGreatest
        rcases items with _ | ⟨next, items⟩
        · simp
        · simp only [greatestBy] at ofTail
          split at ofTail
          · cases ofTail
          · split_ifs at ofTail
      · rw [ofTail] at isGreatest
        obtain ⟨otherMem, bound⟩ := ih ofTail
        dsimp only at isGreatest
        split_ifs at isGreatest with headGreater
        · cases isGreatest
          refine ⟨List.mem_cons_self, fun item itemMem => ?_⟩
          rcases List.mem_cons.mp itemMem with rfl | itemMem
          · exact le_rfl
          · exact (bound item itemMem).trans headGreater
        · cases isGreatest
          refine ⟨List.mem_cons_of_mem head otherMem, fun item itemMem => ?_⟩
          rcases List.mem_cons.mp itemMem with rfl | itemMem
          · exact (not_le.mp headGreater).le
          · exact bound item itemMem

theorem greatestBy_isSome {items : List Item} (nonempty : items ≠ []) :
    (greatestBy key items).isSome := by
  rcases items with _ | ⟨head, items⟩
  · exact absurd rfl nonempty
  · simp only [greatestBy]
    split
    · rfl
    · split_ifs <;> rfl

/-- An item with the least key, and the others. -/
def popLeast (key : Item → Key) : List Item → Option (Item × List Item)
  | [] => none
  | item :: items =>
      match popLeast key items with
      | none => some (item, [])
      | some (least, rest) =>
          if key item ≤ key least then some (item, items) else some (least, item :: rest)

theorem popLeast_eq_none {items : List Item} : popLeast key items = none ↔ items = [] := by
  rcases items with _ | ⟨head, items⟩
  · simp [popLeast]
  · simp only [popLeast, reduceCtorEq, iff_false]
    split
    · simp
    · split_ifs <;> simp

theorem popLeast_eq_some {items rest : List Item} {least : Item}
    (popped : popLeast key items = some (least, rest)) :
    items.Perm (least :: rest) ∧ ∀ item ∈ items, key least ≤ key item := by
  induction items generalizing least rest with
  | nil => cases popped
  | cons head items ih =>
      simp only [popLeast] at popped
      rcases ofTail : popLeast key items with _ | ⟨other, others⟩
      · rw [ofTail] at popped
        cases popped
        rw [popLeast_eq_none.mp ofTail]
        simp
      · rw [ofTail] at popped
        obtain ⟨perm, bound⟩ := ih ofTail
        dsimp only at popped
        split_ifs at popped with headLess
        · cases popped
          refine ⟨List.Perm.refl _, fun item itemMem => ?_⟩
          rcases List.mem_cons.mp itemMem with rfl | itemMem
          · exact le_rfl
          · exact headLess.trans (bound item itemMem)
        · cases popped
          refine ⟨(perm.cons head).trans (List.Perm.swap _ _ _), fun item itemMem => ?_⟩
          rcases List.mem_cons.mp itemMem with rfl | itemMem
          · exact (not_le.mp headLess).le
          · exact bound item itemMem

end Deltacat.Library
