import Mathlib.Data.List.Sort
import Mathlib.Data.List.TakeWhile
import Mathlib.Tactic

/-!
# The last of the greatest items

Sorting is stable: of the items that are selected from a sorted list, the last is
the one that is written last among the greatest selected ones
(`getLast?_filter_insertionSort`). In a lexicographic order it is found by leaving
only the greatest in the first relation, then the greatest of these in the second,
and so on (`lastGreatest_lexicographic_cons`).
-/

namespace Deltacat.Library

universe u

variable {Item : Type u}

/-- Items can be compared by the relation, where different ones may be tied. -/
structure IsTotalPreorder (related : Item → Item → Prop) : Prop where
  total : ∀ left right, related left right ∨ related right left
  trans : ∀ {left middle right}, related left middle → related middle right → related left right

/-- Of the items that are greatest, the last one in the list. -/
def lastGreatest (related : Item → Item → Prop) [DecidableRel related] : List Item → Option Item
  | [] => none
  | item :: items =>
      match lastGreatest related items with
      | none => some item
      | some greatest => if related item greatest then some greatest else some item

section LastGreatest

variable {related : Item → Item → Prop} [DecidableRel related] {items : List Item} {item : Item}

theorem lastGreatest_eq_none : lastGreatest related items = none ↔ items = [] := by
  cases items with
  | nil => exact iff_of_true rfl rfl
  | cons item items =>
      refine iff_of_false (fun isNone => ?_) (List.cons_ne_nil item items)
      unfold lastGreatest at isNone
      split at isNone
      · cases isNone
      · split_ifs at isNone

/-- Relations that agree have the same greatest item. -/
theorem lastGreatest_congr {other : Item → Item → Prop} [DecidableRel other]
    (agree : ∀ left right, related left right ↔ other left right) (items : List Item) :
    lastGreatest related items = lastGreatest other items := by
  induction items with
  | nil => rfl
  | cons item items ih =>
      rw [lastGreatest, lastGreatest, ih]
      split
      · rfl
      next greatest _ => simp only [agree item greatest]

theorem lastGreatest_cons_of_some {greatest : Item}
    (isGreatest : lastGreatest related items = some greatest) :
    lastGreatest related (item :: items) =
      if related item greatest then some greatest else some item := by
  rw [lastGreatest, isGreatest]

theorem lastGreatest_mem (isGreatest : lastGreatest related items = some item) :
    item ∈ items := by
  induction items generalizing item with
  | nil => cases isGreatest
  | cons head items ih =>
      cases isLater : lastGreatest related items with
      | none =>
          rw [lastGreatest, isLater] at isGreatest
          cases isGreatest
          exact List.mem_cons_self
      | some greatest =>
          rw [lastGreatest_cons_of_some isLater] at isGreatest
          split_ifs at isGreatest
          · cases isGreatest
            exact List.mem_cons_of_mem _ (ih isLater)
          · cases isGreatest
            exact List.mem_cons_self

end LastGreatest

section Preorder

variable {related : Item → Item → Prop} (isPreorder : IsTotalPreorder related)
include isPreorder

theorem IsTotalPreorder.rfl (item : Item) : related item item :=
  (isPreorder.total item item).elim id id

theorem IsTotalPreorder.of_not {left right : Item} (notRelated : ¬related left right) :
    related right left :=
  (isPreorder.total left right).resolve_left notRelated

variable [DecidableRel related] {items : List Item} {item : Item}

/-- Those before it are no greater, and those after it are less. -/
theorem exists_split_of_lastGreatest (isGreatest : lastGreatest related items = some item) :
    ∃ before after, items = before ++ item :: after ∧ (∀ other ∈ before, related other item) ∧
      ∀ other ∈ after, ¬related item other := by
  induction items generalizing item with
  | nil => cases isGreatest
  | cons head items ih =>
      cases isLater : lastGreatest related items with
      | none =>
          rw [lastGreatest, isLater] at isGreatest
          cases isGreatest
          exact ⟨[], items, rfl, by simp, by simp [lastGreatest_eq_none.mp isLater]⟩
      | some greatest =>
          rw [lastGreatest_cons_of_some isLater] at isGreatest
          rcases ih isLater with ⟨before, after, rfl, beforeLe, afterLt⟩
          split_ifs at isGreatest with isRelated
          · cases isGreatest
            exact ⟨head :: before, after, rfl, List.forall_mem_cons.mpr ⟨isRelated, beforeLe⟩,
              afterLt⟩
          · cases isGreatest
            refine ⟨[], _, rfl, by simp, fun other otherMem isLess => isRelated ?_⟩
            apply isPreorder.trans isLess
            rcases List.mem_append.mp otherMem with otherMem | otherMem
            · exact beforeLe other otherMem
            · rcases List.mem_cons.mp otherMem with rfl | otherMem
              · exact isPreorder.rfl other
              · exact isPreorder.of_not (afterLt other otherMem)

omit isPreorder in
theorem lastGreatest_of_split {before after : List Item}
    (beforeLe : ∀ other ∈ before, related other item)
    (afterLt : ∀ other ∈ after, ¬related item other) :
    lastGreatest related (before ++ item :: after) = some item := by
  induction before with
  | nil =>
      cases isLater : lastGreatest related after with
      | none =>
          rw [List.nil_append, lastGreatest, isLater]
      | some greatest =>
          rw [List.nil_append, lastGreatest_cons_of_some isLater,
            if_neg (afterLt greatest (lastGreatest_mem isLater))]
  | cons head before ih =>
      rw [List.forall_mem_cons] at beforeLe
      rw [List.cons_append, lastGreatest_cons_of_some (ih beforeLe.2), if_pos beforeLe.1]

theorem lastGreatest_eq_some_iff :
    lastGreatest related items = some item ↔
      ∃ before after, items = before ++ item :: after ∧ (∀ other ∈ before, related other item) ∧
        ∀ other ∈ after, ¬related item other := by
  refine ⟨exists_split_of_lastGreatest isPreorder, ?_⟩
  rintro ⟨before, after, rfl, beforeLe, afterLt⟩
  exact lastGreatest_of_split beforeLe afterLt

theorem related_lastGreatest (isGreatest : lastGreatest related items = some item) :
    ∀ other ∈ items, related other item := by
  rcases exists_split_of_lastGreatest isPreorder isGreatest with
    ⟨before, after, rfl, beforeLe, afterLt⟩
  intro other otherMem
  rcases List.mem_append.mp otherMem with otherMem | otherMem
  · exact beforeLe other otherMem
  · rcases List.mem_cons.mp otherMem with rfl | otherMem
    · exact isPreorder.rfl other
    · exact isPreorder.of_not (afterLt other otherMem)

theorem pairwise_insertionSort_of_isTotalPreorder (items : List Item) :
    (items.insertionSort related).Pairwise related := by
  have isTotal : Std.Total related := ⟨isPreorder.total⟩
  have isTrans : IsTrans Item related := ⟨fun _ _ _ => isPreorder.trans⟩
  exact List.pairwise_insertionSort related items

/-- Of two sorted lists with the same tied items, in the same order, both are the same. -/
theorem eq_of_ties {left right : List Item} (leftSorted : left.Pairwise related)
    (rightSorted : right.Pairwise related)
    (ties : ∀ item, left.filter (fun other => related item other ∧ related other item) =
      right.filter fun other => related item other ∧ related other item) : left = right := by
  induction left generalizing right with
  | nil =>
      cases right with
      | nil => rfl
      | cons head right =>
          have none := ties head
          simp [isPreorder.rfl head] at none
  | cons first left ih =>
      have firstTies := ties first
      rw [List.filter_cons_of_pos (by simp [isPreorder.rfl first])] at firstTies
      cases right with
      | nil => cases firstTies
      | cons second right =>
          rw [List.pairwise_cons] at leftSorted rightSorted
          have firstMem : first ∈ second :: right :=
            List.mem_of_mem_filter (firstTies ▸ List.mem_cons_self)
          have secondMem : second ∈ first :: left := by
            have secondTies := ties second
            rw [@List.filter_cons_of_pos _ _ second right (by simp [isPreorder.rfl second])]
              at secondTies
            exact List.mem_of_mem_filter (secondTies ▸ List.mem_cons_self)
          have firstLe : related first second := by
            rcases List.mem_cons.mp secondMem with rfl | isLater
            · exact isPreorder.rfl _
            · exact leftSorted.1 second isLater
          have secondLe : related second first := by
            rcases List.mem_cons.mp firstMem with rfl | isLater
            · exact isPreorder.rfl _
            · exact rightSorted.1 first isLater
          rw [List.filter_cons_of_pos (by simp [firstLe, secondLe])] at firstTies
          obtain rfl := (List.cons.inj firstTies).1
          rw [ih leftSorted.2 rightSorted.2]
          intro item
          have itemTies := ties item
          by_cases isTied : related item first ∧ related first item
          · rw [List.filter_cons_of_pos (by simpa using isTied),
              List.filter_cons_of_pos (by simpa using isTied)] at itemTies
            exact (List.cons.inj itemTies).2
          · rwa [List.filter_cons_of_neg (by simpa using isTied),
              List.filter_cons_of_neg (by simpa using isTied)] at itemTies

/-- Items that are tied stay in their order when they are sorted by insertion. -/
theorem ties_insertionSort (items : List Item) (item : Item) :
    (items.insertionSort related).filter (fun other => related item other ∧ related other item) =
      items.filter fun other => related item other ∧ related other item := by
  induction items with
  | nil => rfl
  | cons head items ih =>
      rw [List.insertionSort_cons, List.orderedInsert_eq_take_drop, List.filter_append]
      by_cases isTied : related item head ∧ related head item
      · have noneBefore : ((items.insertionSort related).takeWhile fun other =>
            ¬related head other).filter (fun other => related item other ∧ related other item) =
              [] := by
          rw [List.filter_eq_nil_iff]
          intro other otherMem
          have isBelow := List.mem_takeWhile_imp otherMem
          simp only [decide_eq_true_eq] at isBelow ⊢
          exact fun otherTied => isBelow (isPreorder.trans isTied.2 otherTied.1)
        have rest := congrArg (List.filter fun other => related item other ∧ related other item)
          (List.takeWhile_append_dropWhile (p := fun other => decide ¬related head other)
            (l := items.insertionSort related))
        rw [List.filter_append, noneBefore, List.nil_append] at rest
        rw [noneBefore, List.nil_append, List.filter_cons_of_pos (by simpa using isTied),
          List.filter_cons_of_pos (by simpa using isTied), rest, ih]
      · rw [List.filter_cons_of_neg (by simpa using isTied),
          List.filter_cons_of_neg (by simpa using isTied), ← List.filter_append,
          List.takeWhile_append_dropWhile, ih]

/-- The items are sorted, with tied items in the order that they had. -/
structure IsStableSort (related : Item → Item → Prop) [DecidableRel related]
    (items sorted : List Item) : Prop where
  isSorted : sorted.Pairwise related
  ties : ∀ item, sorted.filter (fun other => related item other ∧ related other item) =
    items.filter fun other => related item other ∧ related other item

theorem isStableSort_insertionSort (items : List Item) :
    IsStableSort related items (items.insertionSort related) :=
  ⟨pairwise_insertionSort_of_isTotalPreorder isPreorder items, ties_insertionSort isPreorder items⟩

theorem IsStableSort.eq_insertionSort {sorted : List Item}
    (isSort : IsStableSort related items sorted) : sorted = items.insertionSort related :=
  eq_of_ties isPreorder isSort.isSorted (pairwise_insertionSort_of_isTotalPreorder isPreorder items)
    fun item => (isSort.ties item).trans (ties_insertionSort isPreorder items item).symm

/-- Inserting an item into a sorted list makes it the last selected one if it is greater. -/
theorem getLast?_filter_orderedInsert {sorted : List Item} (isSorted : sorted.Pairwise related)
    {select : Item → Bool} (isSelected : select item) :
    ((sorted.orderedInsert related item).filter select).getLast? =
      match (sorted.filter select).getLast? with
      | none => some item
      | some greatest => if related item greatest then some greatest else some item := by
  induction sorted with
  | nil => simp [isSelected]
  | cons head sorted ih =>
      have areAbove : ∀ other ∈ sorted, related head other := (List.pairwise_cons.mp isSorted).1
      by_cases isLe : related item head
      · rw [List.orderedInsert_cons_of_le _ _ isLe, List.filter_cons_of_pos isSelected]
        cases isLast : ((head :: sorted).filter select).getLast? with
        | none => rw [List.getLast?_eq_none_iff.mp isLast, List.getLast?_singleton]
        | some greatest =>
            have greatestMem := List.mem_of_mem_filter (List.mem_of_getLast? isLast)
            have isRelated : related item greatest := by
              rcases List.mem_cons.mp greatestMem with rfl | isLater
              · exact isLe
              · exact isPreorder.trans isLe (areAbove _ isLater)
            rw [List.getLast?_cons, isLast]
            simp only [if_pos isRelated, Option.getD_some]
      · rw [List.orderedInsert_of_not_le _ _ isLe]
        by_cases headSelected : select head
        · rw [List.filter_cons_of_pos headSelected, List.filter_cons_of_pos headSelected,
            List.getLast?_cons, List.getLast?_cons, ih isSorted.of_cons]
          cases (sorted.filter select).getLast? with
          | none => simp [isLe]
          | some greatest =>
              simp only [Option.getD_some]
              split_ifs
              · rfl
              · rfl
        · rw [List.filter_cons_of_neg headSelected, List.filter_cons_of_neg headSelected,
            ih isSorted.of_cons]

theorem getLast?_filter_insertionSort (select : Item → Bool) (items : List Item) :
    ((items.insertionSort related).filter select).getLast? =
      lastGreatest related (items.filter select) := by
  induction items with
  | nil => rfl
  | cons item items ih =>
      have isSorted := pairwise_insertionSort_of_isTotalPreorder isPreorder items
      rw [List.insertionSort_cons]
      by_cases isSelected : select item
      · rw [getLast?_filter_orderedInsert isPreorder isSorted isSelected, ih,
          List.filter_cons_of_pos isSelected, lastGreatest]
      · rw [List.filter_cons_of_neg isSelected, ← ih, List.orderedInsert_eq_take_drop,
          List.filter_append, List.filter_cons_of_neg isSelected, ← List.filter_append,
          List.takeWhile_append_dropWhile]

end Preorder

section Lexicographic

/-- The first relation decides unless two items are tied in it. -/
def lexicographic : List (Item → Item → Prop) → Item → Item → Prop
  | [], _, _ => True
  | related :: others, left, right =>
      related left right ∧ (related right left → lexicographic others left right)

variable {related : Item → Item → Prop} {others : List (Item → Item → Prop)}

theorem isTotalPreorder_lexicographic {relations : List (Item → Item → Prop)}
    (arePreorders : ∀ related ∈ relations, IsTotalPreorder related) :
    IsTotalPreorder (lexicographic relations) := by
  induction relations with
  | nil => exact ⟨fun _ _ => Or.inl trivial, fun _ _ => trivial⟩
  | cons related others ih =>
      rw [List.forall_mem_cons] at arePreorders
      have isPreorder := arePreorders.1
      have ofOthers := ih arePreorders.2
      refine ⟨fun left right => ?_, fun {left middle right} leftLe middleLe => ?_⟩
      · by_cases leftLe : related left right
        · by_cases rightLe : related right left
          · rcases ofOthers.total left right with isLe | isLe
            · exact Or.inl ⟨leftLe, fun _ => isLe⟩
            · exact Or.inr ⟨rightLe, fun _ => isLe⟩
          · exact Or.inl ⟨leftLe, fun rightLe' => absurd rightLe' rightLe⟩
        · exact Or.inr ⟨isPreorder.of_not leftLe, fun leftLe' => absurd leftLe' leftLe⟩
      · refine ⟨isPreorder.trans leftLe.1 middleLe.1, fun rightLe => ?_⟩
        apply ofOthers.trans
        · exact leftLe.2 (isPreorder.trans middleLe.1 rightLe)
        · exact middleLe.2 (isPreorder.trans rightLe leftLe.1)

theorem IsTotalPreorder.swap (isPreorder : IsTotalPreorder related) :
    IsTotalPreorder (Function.swap related) :=
  ⟨fun left right => isPreorder.total right left,
    fun leftLe middleLe => isPreorder.trans middleLe leftLe⟩

theorem lexicographic_map_swap {relations : List (Item → Item → Prop)} {left right : Item} :
    lexicographic (relations.map Function.swap) left right ↔
      lexicographic relations right left := by
  induction relations with
  | nil => exact Iff.rfl
  | cons related others ih => exact and_congr_right fun _ => imp_congr_right fun _ => ih

/-- The greatest in the first relation are compared in the other ones. -/
theorem lastGreatest_lexicographic_cons [DecidableRel related]
    [DecidableRel (lexicographic others)] [DecidableRel (lexicographic (related :: others))]
    (isLexicographic : IsTotalPreorder (lexicographic (related :: others))) (items : List Item) :
    lastGreatest (lexicographic (related :: others)) items =
      lastGreatest (lexicographic others)
        (items.filter fun item => ∀ other ∈ items, related other item) := by
  cases isGreatest : lastGreatest (lexicographic (related :: others)) items with
  | none =>
      rw [lastGreatest_eq_none.mp isGreatest]
      rfl
  | some item =>
      have isAbove : ∀ other ∈ items, related other item := fun other otherMem =>
        (related_lastGreatest isLexicographic isGreatest other otherMem).1
      rcases exists_split_of_lastGreatest isLexicographic isGreatest with
        ⟨before, after, isSplit, beforeLe, afterLt⟩
      have isKept : decide (∀ other ∈ items, related other item) = true := decide_eq_true isAbove
      symm
      rw [isSplit, List.filter_append, List.filter_cons_of_pos (by rw [← isSplit]; exact isKept),
        ← isSplit]
      have itemMem : item ∈ items := lastGreatest_mem isGreatest
      apply lastGreatest_of_split
      · intro other otherMem
        rw [List.mem_filter, decide_eq_true_eq] at otherMem
        exact (beforeLe other otherMem.1).2 (otherMem.2 item itemMem)
      · intro other otherMem isLe
        rw [List.mem_filter, decide_eq_true_eq] at otherMem
        exact afterLt other otherMem.1 ⟨otherMem.2 item itemMem, fun _ => isLe⟩

end Lexicographic

end Deltacat.Library
