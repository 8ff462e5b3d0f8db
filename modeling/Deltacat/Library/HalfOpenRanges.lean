import Mathlib.Data.List.Basic
import Mathlib.Data.List.Count
import Mathlib.Order.Defs.LinearOrder
import Mathlib.Tactic

/-!
# Half-open ranges

A sorted list of bounds `[x, y, ..., z]` cuts a linear order into the ranges `(-∞, x]`,
`(x, y]`, ..., `(z, ∞)`. Every key is in exactly one of them, whose number is the number of
bounds below the key (`inRange_iff`). With a lower and an upper end of the keys, the open
ranges become pairs of limits, except that the lower end itself is in none of them
(`mem_limits_iff`).
-/

namespace Deltacat.Library

universe u v

variable {Key : Type u} [LinearOrder Key]

/-- The key is in the range with the number, which is after `index` of the bounds. -/
def InRange (bounds : List Key) (index : ℕ) (key : Key) : Prop :=
  index ≤ bounds.length ∧
    (∀ lower, index ≠ 0 → bounds[index - 1]? = some lower → lower < key) ∧
      ∀ upper, bounds[index]? = some upper → key ≤ upper

/-- The number of the bounds below a key. -/
def rangeIndex (bounds : List Key) (key : Key) : ℕ :=
  (bounds.filter (· < key)).length

theorem rangeIndex_le (bounds : List Key) (key : Key) : rangeIndex bounds key ≤ bounds.length :=
  List.length_filter_le _ _

theorem inRange_cons_succ {bound : Key} {bounds : List Key} {index : ℕ} {key : Key} :
    InRange (bound :: bounds) (index + 1) key ↔
      InRange bounds index key ∧ (index = 0 → bound < key) := by
  cases index with
  | zero =>
      simp only [InRange, List.length_cons, List.getElem?_cons_succ, Nat.zero_add]
      simp
      tauto
  | succ index =>
      simp only [InRange, List.length_cons, Nat.add_sub_cancel, List.getElem?_cons_succ]
      simp

/-- A key is in exactly one range. -/
theorem inRange_iff {bounds : List Key} (sorted : bounds.Pairwise (· ≤ ·)) {index : ℕ}
    {key : Key} : InRange bounds index key ↔ rangeIndex bounds key = index := by
  induction bounds generalizing index with
  | nil =>
      simp [InRange, rangeIndex, eq_comm]
  | cons bound bounds ih =>
      rw [List.pairwise_cons] at sorted
      by_cases below : bound < key
      · have counted : rangeIndex (bound :: bounds) key = rangeIndex bounds key + 1 := by
          simp [rangeIndex, below]
        rw [counted]
        cases index with
        | zero => simp [InRange, below.not_ge]
        | succ index => simp [inRange_cons_succ, ih sorted.2, below]
      · have noneBelow : rangeIndex (bound :: bounds) key = 0 := by
          rw [rangeIndex, List.length_eq_zero_iff, List.filter_eq_nil_iff]
          intro other otherMem
          rcases List.mem_cons.mp otherMem with rfl | isLater
          · simpa using below
          · simpa using (not_lt.mp below).trans (sorted.1 other isLater)
        rw [noneBelow]
        cases index with
        | zero => simp [InRange, not_lt.mp below]
        | succ index =>
            have outside : ¬InRange (bound :: bounds) (index + 1) key := by
              rw [inRange_cons_succ]
              rintro ⟨inRange, first⟩
              rw [ih sorted.2] at inRange
              cases index with
              | zero => exact below (first rfl)
              | succ index =>
                  have tailAbove : rangeIndex bounds key = 0 := by
                    rw [rangeIndex, List.length_eq_zero_iff, List.filter_eq_nil_iff]
                    intro other otherMem
                    simpa using (not_lt.mp below).trans (sorted.1 other otherMem)
                  omega
            simp [outside]

/-- The limits of the ranges between a lower and an upper end. -/
def limits (lowest highest : Key) (bounds : List Key) : List (Key × Key) :=
  (lowest :: bounds).zip (bounds ++ [highest])

omit [LinearOrder Key] in
@[simp] theorem length_limits (lowest highest : Key) (bounds : List Key) :
    (limits lowest highest bounds).length = bounds.length + 1 := by
  simp [limits]

/-- Between the ends, a key is within the limits of a range exactly if it is in the range. -/
theorem mem_limits_iff {lowest highest : Key} {bounds : List Key} {index : ℕ} {limit : Key × Key}
    (isLimit : (limits lowest highest bounds)[index]? = some limit) {key : Key}
    (aboveLowest : lowest < key) (belowHighest : key ≤ highest) :
    limit.1 < key ∧ key ≤ limit.2 ↔ InRange bounds index key := by
  rw [limits, List.getElem?_zip_eq_some] at isLimit
  rcases isLimit with ⟨isLower, isUpper⟩
  have inBounds : index ≤ bounds.length := by
    have short := (List.getElem?_eq_some_iff.mp isUpper).1
    simp only [List.length_append, List.length_singleton] at short
    omega
  have lowerIff : limit.1 < key ↔ ∀ lower, index ≠ 0 → bounds[index - 1]? = some lower →
      lower < key := by
    cases index with
    | zero =>
        cases isLower
        simpa using aboveLowest
    | succ index =>
        rw [List.getElem?_cons_succ] at isLower
        simp [isLower]
  have upperIff : key ≤ limit.2 ↔ ∀ upper, bounds[index]? = some upper → key ≤ upper := by
    rcases Nat.lt_or_ge index bounds.length with isInner | isLast
    · rw [List.getElem?_append_left isInner] at isUpper
      simp [isUpper]
    · have atEnd : index = bounds.length := le_antisymm inBounds isLast
      subst atEnd
      rw [List.getElem?_append_right le_rfl, Nat.sub_self] at isUpper
      cases isUpper
      simpa using belowHighest
  rw [lowerIff, upperIff, InRange, and_iff_right inBounds]

/-- All limits are at least the lower end, so that the lower end is in none of the ranges. -/
theorem lowest_le_of_mem_limits {lowest highest : Key} {bounds : List Key}
    (above : ∀ bound ∈ bounds, lowest ≤ bound) {limit : Key × Key}
    (limitMem : limit ∈ limits lowest highest bounds) : lowest ≤ limit.1 := by
  rcases List.mem_cons.mp (List.of_mem_zip limitMem).1 with isLowest | isBound
  · exact isLowest.ge
  · exact above _ isBound

section Bins

variable {Item : Type v}

/-- Items that are sorted into numbered bins are together those that have a bin. -/
theorem perm_bins (bin : Item → Option ℕ) (count : ℕ) (items : List Item)
    (bounded : ∀ item ∈ items, ∀ index ∈ bin item, index < count) :
    ((List.range count).flatMap fun index => items.filter (bin · = some index)).Perm
      (items.filter (bin · |>.isSome)) := by
  classical
  rw [List.perm_iff_count]
  intro item
  rw [List.count_flatMap]
  by_cases itemMem : item ∈ items
  · cases isBin : bin item with
    | none =>
        rw [List.count_eq_zero_of_not_mem (by simp [isBin]), List.sum_eq_zero]
        intro number numberMem
        rcases List.mem_map.mp numberMem with ⟨index, _, rfl⟩
        exact List.count_eq_zero_of_not_mem (by simp [isBin])
    | some index =>
        have inRange := bounded item itemMem index isBin
        have counted : ((List.range count).map fun other =>
            List.count item (items.filter (bin · = some other))) =
              (List.range count).map fun other =>
                if other = index then items.count item else 0 := by
          apply List.map_congr_left
          intro other _
          by_cases same : other = index
          · rw [if_pos same, List.count_filter (by simp [isBin, same])]
          · rw [if_neg same]
            exact List.count_eq_zero_of_not_mem (by simp [isBin, Ne.symm same])
        have single : (∑ other ∈ Finset.range count,
            if other = index then items.count item else 0) = items.count item := by
          simp [inRange]
        rw [List.count_filter (by simp [isBin])]
        exact (congrArg List.sum counted).trans single
  · have notFiltered : ∀ test : Item → Bool, (items.filter test).count item = 0 :=
      fun test => List.count_eq_zero_of_not_mem fun isMem => itemMem (List.mem_of_mem_filter isMem)
    rw [notFiltered, List.sum_eq_zero]
    intro number numberMem
    rcases List.mem_map.mp numberMem with ⟨index, _, rfl⟩
    exact notFiltered _

/-- Two disjoint selections are together the selection of both. -/
theorem perm_filter_append {left right : Item → Bool} {items : List Item}
    (disjoint : ∀ item ∈ items, left item → ¬right item) :
    (items.filter left ++ items.filter right).Perm
      (items.filter fun item => left item || right item) := by
  induction items with
  | nil => exact .nil
  | cons item items ih =>
      rw [List.forall_mem_cons] at disjoint
      have rest := ih disjoint.2
      cases isLeft : left item with
      | true =>
          have notRight : right item = false := by simpa using disjoint.1 isLeft
          simpa [List.filter_cons, isLeft, notRight] using rest
      | false =>
          cases isRight : right item with
          | true =>
              simp only [List.filter_cons, isLeft, isRight, Bool.false_eq_true, if_false, if_true,
                Bool.or_true]
              exact List.perm_middle.trans (rest.cons item)
          | false => simpa [List.filter_cons, isLeft, isRight] using rest

end Bins

end Deltacat.Library
