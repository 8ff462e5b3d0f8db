import Deltacat.Library.Sorting

/-!
# What a stable sort does to parts of a list

A sorted list is determined by its elements of each key, in their order
(`eq_of_filter_eq`). Hence it makes no difference whether elements are replaced by
others of their keys before or after a sort (`flatMap_insertionSort`), and a list that
is put together from two parts of a sorted list sorts back into it
(`insertionSort_parts`), if elements of one key are in one part.
-/

namespace Deltacat.Library

universe u

variable {Item Other Key : Type u} [LinearOrder Key]

theorem pairwise_insertionSort_key (key : Item → Key) (items : List Item) :
    (items.insertionSort fun left right => key left ≤ key right).Pairwise fun left right =>
      key left ≤ key right := by
  have : Std.Total fun left right : Item => key left ≤ key right :=
    ⟨fun left right => le_total (key left) (key right)⟩
  have : IsTrans Item fun left right => key left ≤ key right := ⟨fun _ _ _ => le_trans⟩
  exact List.pairwise_insertionSort _ items

theorem pairwise_of_filter {key : Item → Key} {related : Item → Item → Prop} {items : List Item}
    (ascending : items.Pairwise fun left right => key left ≤ key right)
    (isRelated : ∀ bound, (items.filter (key · = bound)).Pairwise related) :
    items.Pairwise fun left right =>
      key left < key right ∨ key left = key right ∧ related left right := by
  induction items with
  | nil => exact List.Pairwise.nil
  | cons item items ih =>
      rw [List.pairwise_cons] at ascending ⊢
      constructor
      · intro other otherMem
        refine (ascending.1 other otherMem).lt_or_eq.imp id fun same => ⟨same, ?_⟩
        have isFirst := isRelated (key item)
        rw [List.filter_cons_of_pos (by simp), List.pairwise_cons] at isFirst
        exact isFirst.1 other (List.mem_filter.mpr ⟨otherMem, by simp [same]⟩)
      · apply ih ascending.2
        intro bound
        exact (isRelated bound).sublist ((List.sublist_cons_self item items).filter _)

/-- Elements of one key keep the relation that they had in their order before. -/
theorem pairwise_insertionSort_stable {key : Item → Key} {related : Item → Item → Prop}
    {items : List Item} (isRelated : items.Pairwise related) :
    (items.insertionSort fun left right => key left ≤ key right).Pairwise fun left right =>
      key left < key right ∨ key left = key right ∧ related left right := by
  apply pairwise_of_filter (pairwise_insertionSort_key key items)
  intro bound
  rw [filter_insertionSort]
  exact isRelated.filter _

theorem eq_of_filter_eq {key : Item → Key} {left right : List Item}
    (leftAscending : left.Pairwise fun first second => key first ≤ key second)
    (rightAscending : right.Pairwise fun first second => key first ≤ key second)
    (same : ∀ bound, left.filter (key · = bound) = right.filter (key · = bound)) :
    left = right := by
  induction left generalizing right with
  | nil =>
      cases right with
      | nil => rfl
      | cons other right =>
          have isEmpty := same (key other)
          simp at isEmpty
  | cons head left ih =>
      cases right with
      | nil =>
          have isEmpty := same (key head)
          simp at isEmpty
      | cons other right =>
          rw [List.pairwise_cons] at leftAscending rightAscending
          -- Each head occurs in the other list, so neither has a greater key.
          have headMem : head ∈ other :: right := by
            have inFilter : head ∈ (other :: right).filter (key · = key head) := by
              rw [← same (key head)]
              simp
            exact List.mem_of_mem_filter inFilter
          have otherMem : other ∈ head :: left := by
            have inFilter : other ∈ (head :: left).filter (key · = key other) := by
              rw [same (key other)]
              simp
            exact List.mem_of_mem_filter inFilter
          have sameKey : key head = key other := by
            apply le_antisymm
            · rcases List.mem_cons.mp otherMem with rfl | otherMem
              · exact le_rfl
              · exact leftAscending.1 other otherMem
            · rcases List.mem_cons.mp headMem with rfl | headMem
              · exact le_rfl
              · exact rightAscending.1 head headMem
          have sameFilter := same (key head)
          rw [List.filter_cons_of_pos (by simp), List.filter_cons_of_pos (by simp [sameKey])]
            at sameFilter
          obtain rfl : head = other := (List.cons.inj sameFilter).1
          congr 1
          apply ih leftAscending.2 rightAscending.2
          intro bound
          have sameBound := same bound
          by_cases isBound : key head = bound
          · rw [List.filter_cons_of_pos (by simpa using isBound),
              List.filter_cons_of_pos (by simpa using isBound)] at sameBound
            exact (List.cons.inj sameBound).2
          · rw [List.filter_cons_of_neg (by simpa using isBound),
              List.filter_cons_of_neg (by simpa using isBound)] at sameBound
            exact sameBound

theorem insertionSort_of_ascending {key : Item → Key} {items : List Item}
    (ascending : items.Pairwise fun left right => key left ≤ key right) :
    (items.insertionSort fun left right => key left ≤ key right) = items :=
  eq_of_filter_eq (pairwise_insertionSort_key key items) ascending fun bound =>
    filter_insertionSort bound items

theorem flatMap_ite_eq {keys : List Key} (distinct : keys.Nodup) {bound : Key}
    {items : List Item} :
    (keys.flatMap fun other => if other = bound then items else []) =
      if bound ∈ keys then items else [] := by
  induction keys with
  | nil => rfl
  | cons other keys ih =>
      rw [List.nodup_cons] at distinct
      rw [List.flatMap_cons, ih distinct.2]
      by_cases isBound : other = bound
      · subst isBound
        simp [distinct.1]
      · simp [isBound, Ne.symm isBound]

/-- A stable sort puts the elements of each key together, in their order. -/
theorem insertionSort_eq_flatMap {key : Item → Key} {items : List Item} {keys : List Key}
    (ascending : keys.Pairwise fun left right => left < right)
    (covers : ∀ item ∈ items, key item ∈ keys) :
    (items.insertionSort fun left right => key left ≤ key right) =
      keys.flatMap fun bound => items.filter (key · = bound) := by
  have keyOfMem : ∀ bound, ∀ item ∈ items.filter (key · = bound), key item = bound := by
    intro bound item itemMem
    simpa using (List.mem_filter.mp itemMem).2
  apply eq_of_filter_eq (pairwise_insertionSort_key key items)
  · rw [List.pairwise_flatMap]
    constructor
    · intro bound _
      apply List.pairwise_of_forall_mem_list
      intro left leftMem right rightMem
      rw [keyOfMem bound left leftMem, keyOfMem bound right rightMem]
    · refine ascending.imp ?_
      intro first second isLess left leftMem right rightMem
      rw [keyOfMem first left leftMem, keyOfMem second right rightMem]
      exact isLess.le
  · intro bound
    rw [filter_insertionSort, List.filter_flatMap]
    have filtered : ∀ other, (items.filter (key · = other)).filter (key · = bound) =
        if other = bound then items.filter (key · = bound) else [] := by
      intro other
      split_ifs with isBound
      · subst isBound
        simp
      · apply List.filter_eq_nil_iff.mpr
        intro item itemMem
        simpa [keyOfMem other item itemMem] using isBound
    simp only [filtered]
    rw [flatMap_ite_eq (ascending.imp fun isLess => isLess.ne)]
    split_ifs with occurs
    · rfl
    · apply List.filter_eq_nil_iff.mpr
      intro item itemMem isBound
      rw [decide_eq_true_iff] at isBound
      exact occurs (isBound ▸ covers item itemMem)

/-- Replacing elements by others of their keys commutes with sorting. -/
theorem flatMap_insertionSort {key : Item → Key} {otherKey : Other → Key}
    {replace : Item → List Other} (items : List Item)
    (keepsKey : ∀ item ∈ items, ∀ other ∈ replace item, otherKey other = key item) :
    (items.insertionSort fun left right => key left ≤ key right).flatMap replace =
      (items.flatMap replace).insertionSort fun left right => otherKey left ≤ otherKey right := by
  have isPerm := List.perm_insertionSort (fun left right => key left ≤ key right) items
  have ascending : ∀ sorted : List Item, sorted ⊆ items →
      (sorted.Pairwise fun left right => key left ≤ key right) →
      (sorted.flatMap replace).Pairwise fun left right => otherKey left ≤ otherKey right := by
    intro sorted
    induction sorted with
    | nil => exact fun _ _ => List.Pairwise.nil
    | cons head sorted ih =>
        intro isSubset isSorted
        rw [List.pairwise_cons] at isSorted
        rw [List.flatMap_cons, List.pairwise_append]
        have headMem := isSubset List.mem_cons_self
        refine ⟨?_, ih (fun _ itemMem => isSubset (List.mem_cons_of_mem _ itemMem)) isSorted.2, ?_⟩
        · apply List.pairwise_of_forall_mem_list
          intro left leftMem right rightMem
          rw [keepsKey head headMem left leftMem, keepsKey head headMem right rightMem]
        · intro left leftMem right rightMem
          rcases List.mem_flatMap.mp rightMem with ⟨item, itemMem, rightMem⟩
          rw [keepsKey head headMem left leftMem,
            keepsKey item (isSubset (List.mem_cons_of_mem _ itemMem)) right rightMem]
          exact isSorted.1 item itemMem
  have filtered : ∀ (sorted : List Item) (bound : Key), sorted ⊆ items →
      (sorted.flatMap replace).filter (otherKey · = bound) =
        (sorted.filter (key · = bound)).flatMap replace := by
    intro sorted bound
    induction sorted with
    | nil => exact fun _ => rfl
    | cons head sorted ih =>
        intro isSubset
        have isTail := ih fun _ itemMem => isSubset (List.mem_cons_of_mem _ itemMem)
        have headMem := isSubset List.mem_cons_self
        rw [List.flatMap_cons, List.filter_append, isTail]
        by_cases isBound : key head = bound
        · rw [List.filter_cons_of_pos (by simpa using isBound), List.flatMap_cons]
          congr 1
          rw [List.filter_eq_self]
          intro other otherMem
          simpa [keepsKey head headMem other otherMem] using isBound
        · rw [List.filter_cons_of_neg (by simpa using isBound)]
          have noneLeft : (replace head).filter (otherKey · = bound) = [] := by
            rw [List.filter_eq_nil_iff]
            intro other otherMem
            simpa [keepsKey head headMem other otherMem] using isBound
          rw [noneLeft, List.nil_append]
  refine @eq_of_filter_eq _ _ _ otherKey _ _ ?_ ?_ ?_
  · exact ascending _ isPerm.subset (pairwise_insertionSort_key key items)
  · exact pairwise_insertionSort_key otherKey _
  · intro bound
    rw [filtered _ bound isPerm.subset, filter_insertionSort bound items, filter_insertionSort,
      filtered items bound (List.Subset.refl items)]

/-- Two parts of a sorted list are sorted back into it. -/
theorem insertionSort_parts {key : Item → Key} {items : List Item} {inFirst : Item → Bool}
    (ascending : items.Pairwise fun left right => key left ≤ key right)
    (byKey : ∀ left ∈ items, ∀ right ∈ items, key left = key right →
      inFirst left = inFirst right) :
    ((items.filter inFirst ++ items.filter (!inFirst ·)).insertionSort fun left right =>
      key left ≤ key right) = items := by
  apply eq_of_filter_eq (pairwise_insertionSort_key key _) ascending
  intro bound
  rw [filter_insertionSort, List.filter_append, List.filter_comm _ inFirst,
    List.filter_comm _ (!inFirst ·)]
  have sameClass : ∀ left ∈ items.filter (key · = bound), ∀ right ∈ items.filter (key · = bound),
      inFirst left = inFirst right := by
    intro left leftMem right rightMem
    simp only [List.mem_filter, decide_eq_true_eq] at leftMem rightMem
    exact byKey left leftMem.1 right rightMem.1 (leftMem.2.trans rightMem.2.symm)
  generalize items.filter (key · = bound) = group at sameClass
  cases group with
  | nil => rfl
  | cons head group =>
      have sameAsHead : ∀ item ∈ head :: group, inFirst item = inFirst head :=
        fun item itemMem => sameClass item itemMem head List.mem_cons_self
      cases isFirst : inFirst head with
      | true =>
          have all : (head :: group).filter inFirst = head :: group :=
            List.filter_eq_self.mpr fun item itemMem => by rw [sameAsHead item itemMem, isFirst]
          have noneLeft : (head :: group).filter (!inFirst ·) = [] :=
            List.filter_eq_nil_iff.mpr fun item itemMem => by
              rw [sameAsHead item itemMem, isFirst]
              exact Bool.false_ne_true
          rw [all, noneLeft, List.append_nil]
      | false =>
          have all : (head :: group).filter (!inFirst ·) = head :: group :=
            List.filter_eq_self.mpr fun item itemMem => by
              rw [sameAsHead item itemMem, isFirst]
              rfl
          have noneLeft : (head :: group).filter inFirst = [] :=
            List.filter_eq_nil_iff.mpr fun item itemMem => by
              rw [sameAsHead item itemMem, isFirst]
              exact Bool.false_ne_true
          rw [all, noneLeft, List.nil_append]

end Deltacat.Library
