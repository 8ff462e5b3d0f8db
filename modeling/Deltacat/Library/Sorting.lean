import Mathlib.Data.List.Sort
import Mathlib.Tactic

/-!
# Lists that are sorted by a key

A list in descending order of a key begins with the elements whose key is the
greatest, so a prefix that is at least as long as their number holds all of them.
A list in ascending order consists of the elements below a key, those with the key and
those above it, and sorting keeps the order of the elements with one key. Whether a list
that is cut off begins like one of its sorted rearrangements is decided by its beginning.
-/

namespace Deltacat.Library

universe u

variable {Item : Type u}

theorem mem_take_of_descending {key : Item → ℕ} {bound count : ℕ} {items : List Item}
    (descending : items.Pairwise fun left right => key right ≤ key left)
    (bounded : ∀ item ∈ items, key item ≤ bound)
    (few : (items.filter (key · = bound)).length ≤ count) {item : Item} (itemMem : item ∈ items)
    (isGreatest : key item = bound) : item ∈ items.take count := by
  induction items generalizing count with
  | nil => simp at itemMem
  | cons head items ih =>
      rw [List.pairwise_cons] at descending
      have headGreatest : key head = bound := by
        apply le_antisymm (bounded head (by simp))
        rcases List.mem_cons.mp itemMem with rfl | isLater
        · exact isGreatest.ge
        · exact isGreatest ▸ descending.1 item isLater
      simp only [headGreatest, List.filter_cons, decide_true, if_true, List.length_cons] at few
      cases count with
      | zero => omega
      | succ count =>
          rw [List.take_succ_cons, List.mem_cons]
          rcases List.mem_cons.mp itemMem with rfl | isLater
          · exact Or.inl rfl
          · apply Or.inr
            apply ih descending.2 _ (by omega) isLater
            exact fun other otherMem => bounded other (List.mem_cons_of_mem head otherMem)

section Ascending

variable {Key : Type u} [LinearOrder Key] {key : Item → Key}

theorem eq_append_of_ascending (bound : Key) {items : List Item}
    (ascending : items.Pairwise fun left right => key left ≤ key right) :
    items = items.filter (key · < bound) ++ items.filter (key · = bound) ++
      items.filter (bound < key ·) := by
  induction items with
  | nil => rfl
  | cons head items ih =>
      rw [List.pairwise_cons] at ascending
      have split := ih ascending.2
      have noneBelow : bound ≤ key head → items.filter (key · < bound) = [] := by
        intro isAbove
        apply List.filter_eq_nil_iff.mpr
        intro item itemMem
        simpa using isAbove.trans (ascending.1 item itemMem)
      rcases lt_trichotomy (key head) bound with isBelow | isEqual | isAbove
      · simp only [List.filter_cons, isBelow, isBelow.ne, isBelow.le.not_gt, decide_true,
          decide_false, if_true, Bool.false_eq_true, if_false, List.cons_append]
        exact congrArg (head :: ·) split
      · have notBelow := noneBelow isEqual.ge
        rw [notBelow, List.nil_append] at split
        simp only [List.filter_cons, isEqual, lt_irrefl, decide_true, decide_false, if_true,
          Bool.false_eq_true, if_false, notBelow, List.nil_append, List.cons_append]
        exact congrArg (head :: ·) split
      · have noneEqual : items.filter (key · = bound) = [] := by
          apply List.filter_eq_nil_iff.mpr
          intro item itemMem
          simpa using (isAbove.trans_le (ascending.1 item itemMem)).ne'
        rw [noneBelow isAbove.le, noneEqual, List.nil_append, List.nil_append] at split
        simp only [List.filter_cons, isAbove, isAbove.ne', isAbove.le.not_gt, decide_true,
          decide_false, if_true, Bool.false_eq_true, if_false, noneBelow isAbove.le, noneEqual,
          List.nil_append]
        exact congrArg (head :: ·) split

/-- Sorting is stable. -/
theorem filter_insertionSort (bound : Key) (items : List Item) :
    (items.insertionSort fun left right => key left ≤ key right).filter (key · = bound) =
      items.filter (key · = bound) := by
  have sameKey : (items.filter (key · = bound)).Pairwise fun left right =>
      key left ≤ key right := by
    apply List.pairwise_of_forall_mem_list
    intro left leftMem right rightMem
    rw [List.mem_filter, decide_eq_true_iff] at leftMem rightMem
    exact (leftMem.2.trans rightMem.2.symm).le
  have inSorted := List.sublist_insertionSort sameKey List.filter_sublist
  have sub : (items.filter (key · = bound)).Sublist
      ((items.insertionSort fun left right => key left ≤ key right).filter (key · = bound)) := by
    have filtered := inSorted.filter (key · = bound)
    simpa only [List.filter_filter, Bool.and_self] using filtered
  have perm := (List.perm_insertionSort (fun left right => key left ≤ key right) items).filter
    (key · = bound)
  exact (sub.eq_of_length perm.length_eq.symm).symm

end Ascending

section Segment

/-! ### Beginnings of sorted lists -/

/-- An element is in the beginning of a strictly sorted list if few elements are before it. -/
theorem mem_take_iff_rank {before : Item → Item → Prop} [DecidableRel before] {items : List Item}
    (sorted : items.Pairwise before) (asymm : ∀ left right, before left right → ¬before right left)
    {count : ℕ} {item : Item} :
    item ∈ items.take count ↔
      item ∈ items ∧ (items.filter (before · item)).length < count := by
  induction items generalizing count with
  | nil => simp
  | cons head items ih =>
      rw [List.pairwise_cons] at sorted
      have headFirst : ∀ other ∈ items, ¬before other head :=
        fun other otherMem => asymm head other (sorted.1 other otherMem)
      have notSelf : ¬before head head := fun self => asymm head head self self
      have atHead : (head :: items).filter (before · head) = [] := by
        simpa [List.filter_eq_nil_iff, notSelf] using headFirst
      cases count with
      | zero => simp
      | succ count =>
          rw [List.take_succ_cons, List.mem_cons, List.mem_cons, ih sorted.2]
          by_cases isHead : item = head
          · subst isHead
            rw [atHead]
            simp
          · simp only [isHead, false_or]
            apply and_congr_right
            intro itemMem
            rw [List.filter_cons, if_pos (by simpa using sorted.1 item itemMem), List.length_cons]
            omega

/--
A list begins with the first elements of one of its sorted rearrangements if and only if
each of these first elements may stand before all that follow it.
-/
theorem exists_sorted_take_iff {before : Item → Item → Prop} [DecidableRel before]
    [Std.Total before] [IsTrans Item before] {items : List Item} {count : ℕ} :
    (∃ order : List Item, order.Perm items ∧ order.Pairwise before ∧
        order.take count = items.take count) ↔
      (items.take count).Pairwise before ∧
        ∀ first ∈ items.take count, ∀ later ∈ items.drop count, before first later := by
  constructor
  · rintro ⟨order, perm, sorted, same⟩
    have split := order.take_append_drop count
    have permDrop : (order.drop count).Perm (items.drop count) := by
      rw [← List.perm_append_left_iff (items.take count), List.take_append_drop, ← same, split]
      exact perm
    rw [← split, List.pairwise_append, same] at sorted
    exact ⟨sorted.1, fun first firstMem later laterMem =>
      sorted.2.2 first firstMem later (permDrop.mem_iff.mpr laterMem)⟩
  · rintro ⟨sorted, bounds⟩
    refine ⟨items.take count ++ (items.drop count).insertionSort before, ?_, ?_, ?_⟩
    · have perm := (List.perm_insertionSort before (items.drop count)).append_left
        (items.take count)
      rwa [List.take_append_drop] at perm
    · rw [List.pairwise_append]
      refine ⟨sorted, List.pairwise_insertionSort _ _, ?_⟩
      intro first firstMem later laterMem
      exact bounds first firstMem later ((List.perm_insertionSort _ _).mem_iff.mp laterMem)
    · rcases Nat.le_total count items.length with isShort | isLong
      · rw [List.take_append_of_le_length (by simp [isShort])]
        simp [List.take_take]
      · simp [List.take_of_length_le, List.drop_of_length_le, isLong]

/--
Two lists in a row begin with the first elements of a sorted rearrangement. The first list
is sorted by some other relation, the second one is sorted.
-/
theorem take_append_sorted_iff {before visited : Item → Item → Prop} {left right : List Item}
    (leftVisited : left.Pairwise visited)
    (asymm : ∀ first later, visited first later → ¬visited later first)
    (rightSorted : right.Pairwise before) {count : ℕ} :
    (((left ++ right).take count).Pairwise before ∧
        ∀ first ∈ (left ++ right).take count, ∀ later ∈ (left ++ right).drop count,
          before first later) ↔
      ∀ first ∈ left.take count, ∀ later,
        (later ∈ left ∧ visited first later) ∨ later ∈ right → before first later := by
  induction left generalizing count with
  | nil =>
      rw [List.nil_append]
      rw [← List.take_append_drop count right, List.pairwise_append] at rightSorted
      simpa using ⟨rightSorted.1, rightSorted.2.2⟩
  | cons head left ih =>
      rw [List.pairwise_cons] at leftVisited
      cases count with
      | zero => simp
      | succ count =>
          have rest := @ih leftVisited.2 count
          simp only [List.cons_append, List.take_succ_cons, List.drop_succ_cons,
            List.pairwise_cons, List.forall_mem_cons]
          constructor
          · rintro ⟨⟨headFirst, sorted⟩, headBounds, bounds⟩
            refine ⟨?_, ?_⟩
            · have headBefore : ∀ later ∈ left ++ right, before head later := by
                intro later laterMem
                rw [← List.take_append_drop count (left ++ right), List.mem_append] at laterMem
                exact laterMem.elim (headFirst later) (headBounds later)
              rintro later (⟨laterMem, isLater⟩ | laterMem)
              · rcases List.mem_cons.mp laterMem with rfl | laterMem
                · exact absurd isLater (asymm later later isLater)
                · exact headBefore later (List.mem_append_left right laterMem)
              · exact headBefore later (List.mem_append_right left laterMem)
            · intro first firstMem later isLater
              apply rest.mp ⟨sorted, bounds⟩ first firstMem later
              rcases isLater with ⟨laterMem, isLater⟩ | laterMem
              · rcases List.mem_cons.mp laterMem with rfl | laterMem
                · have precedes := leftVisited.1 first (List.mem_of_mem_take firstMem)
                  exact absurd isLater (asymm later first precedes)
                · exact Or.inl ⟨laterMem, isLater⟩
              · exact Or.inr laterMem
          · rintro ⟨headBefore, restBefore⟩
            have restSorted := rest.mpr fun first firstMem later isLater =>
              restBefore first firstMem later
                (isLater.imp_left fun inLeft => ⟨List.mem_cons_of_mem head inLeft.1, inLeft.2⟩)
            have headAll : ∀ later ∈ left ++ right, before head later := by
              intro later laterMem
              apply headBefore
              exact (List.mem_append.mp laterMem).imp_left fun inLeft =>
                ⟨List.mem_cons_of_mem head inLeft, leftVisited.1 later inLeft⟩
            exact ⟨⟨fun later laterMem => headAll later (List.mem_of_mem_take laterMem),
              restSorted.1⟩, fun later laterMem => headAll later (List.mem_of_mem_drop laterMem),
              restSorted.2⟩

end Segment

end Deltacat.Library
