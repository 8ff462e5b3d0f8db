import Mathlib.Data.List.Chain
import Mathlib.Tactic

/-!
# Greedy grouping

A list is cut into groups of consecutive items. A group is closed when it is full, or when the
next item has another key; it is never closed earlier, and never kept open longer.
-/

namespace Deltacat.Library

universe u v

variable {Item : Type u} {Key : Type v} (key : Item → Key) (full : List Item → Prop)

/-- A group may end before another one begins. -/
def MayEnd (group next : List Item) : Prop :=
  full group ∨ ∀ item ∈ group, ∀ other ∈ next, key item ≠ key other

/-- Groups that are closed exactly when they are full, or before an item with another key. -/
structure IsGreedyGrouping (groups : List (List Item)) : Prop where
  nonempty : ∀ group ∈ groups, group ≠ []
  oneKey : ∀ group ∈ groups, ∀ item ∈ group, ∀ other ∈ group, key item = key other
  notEarlier : ∀ group ∈ groups, ∀ count, 0 < count → count < group.length →
    ¬full (group.take count)
  closed : groups.IsChain (MayEnd key full)

/-- The groups so far, of which the last one is still open if there is a current group. -/
structure IsOpenGrouping (groups : List (List Item)) (current : List Item) : Prop where
  greedy : IsGreedyGrouping key full (groups ++ if current = [] then [] else [current])
  notFull : current ≠ [] → ¬full current
  lastFull : current = [] → ∀ last ∈ groups.getLast?, full last

variable {key full} {groups : List (List Item)} {current : List Item} {item : Item}

namespace IsGreedyGrouping

theorem nil : IsGreedyGrouping key full [] where
  nonempty := by simp
  oneKey := by simp
  notEarlier := by simp
  closed := List.IsChain.nil

/-- The next item begins a group. -/
theorem begin (greedy : IsGreedyGrouping key full groups)
    (mayEnd : ∀ last ∈ groups.getLast?, MayEnd key full last [item]) :
    IsGreedyGrouping key full (groups ++ [[item]]) where
  nonempty := by
    intro group groupMem
    rcases List.mem_append.mp groupMem with isOld | isNew
    · exact greedy.nonempty group isOld
    · simp [List.mem_singleton.mp isNew]
  oneKey := by
    intro group groupMem
    rcases List.mem_append.mp groupMem with isOld | isNew
    · exact greedy.oneKey group isOld
    · simp [List.mem_singleton.mp isNew]
  notEarlier := by
    intro group groupMem count positive isShort
    rcases List.mem_append.mp groupMem with isOld | isNew
    · exact greedy.notEarlier group isOld count positive isShort
    · rw [List.mem_singleton.mp isNew, List.length_singleton] at isShort
      omega
  closed := by
    apply List.isChain_append.mpr
    refine ⟨greedy.closed, List.IsChain.singleton _, ?_⟩
    intro last isLast next isNext
    obtain rfl : [item] = next := by simpa using isNext
    exact mayEnd last isLast

/-- The last group takes an item with its key. -/
theorem extend (greedy : IsGreedyGrouping key full (groups ++ [current])) (item : Item)
    (sameKey : ∀ other ∈ current, key other = key item) (notFull : ¬full current) :
    IsGreedyGrouping key full (groups ++ [current ++ [item]]) where
  nonempty := by
    intro group groupMem
    rcases List.mem_append.mp groupMem with isOld | isNew
    · exact greedy.nonempty group (List.mem_append_left _ isOld)
    · simp [List.mem_singleton.mp isNew]
  oneKey := by
    intro group groupMem
    rcases List.mem_append.mp groupMem with isOld | isNew
    · exact greedy.oneKey group (List.mem_append_left _ isOld)
    · rw [List.mem_singleton.mp isNew]
      have allSame : ∀ other ∈ current ++ [item], key other = key item := by
        intro other otherMem
        rcases List.mem_append.mp otherMem with isOther | isItem
        · exact sameKey other isOther
        · rw [List.mem_singleton.mp isItem]
      intro left leftMem right rightMem
      rw [allSame left leftMem, allSame right rightMem]
  notEarlier := by
    intro group groupMem count positive isShort
    rcases List.mem_append.mp groupMem with isOld | isNew
    · exact greedy.notEarlier group (List.mem_append_left _ isOld) count positive isShort
    · rw [List.mem_singleton.mp isNew] at isShort ⊢
      rw [List.length_append, List.length_singleton] at isShort
      rw [List.take_append_of_le_length (by omega)]
      rcases Nat.lt_or_ge count current.length with isLess | isWhole
      · exact greedy.notEarlier current (by simp) count positive isLess
      · rwa [List.take_of_length_le isWhole]
  closed := by
    rcases List.isChain_append.mp greedy.closed with ⟨closed, -, mayEnd⟩
    apply List.isChain_append.mpr
    refine ⟨closed, List.IsChain.singleton _, ?_⟩
    intro last isLast next isNext
    obtain rfl : current ++ [item] = next := by simpa using isNext
    rcases mayEnd last isLast current (by simp) with isFull | otherKeys
    · exact .inl isFull
    · right
      have isNonempty := greedy.nonempty current (by simp)
      rcases List.exists_mem_of_ne_nil current isNonempty with ⟨first, firstMem⟩
      intro other otherMem next nextMem sameNext
      rcases List.mem_append.mp nextMem with isCurrent | isItem
      · exact otherKeys other otherMem next isCurrent sameNext
      · rw [List.mem_singleton.mp isItem, ← sameKey first firstMem] at sameNext
        exact otherKeys other otherMem first firstMem sameNext

end IsGreedyGrouping

namespace IsOpenGrouping

theorem nil : IsOpenGrouping key full [] [] where
  greedy := by simpa using IsGreedyGrouping.nil
  notFull := by simp
  lastFull := by simp

theorem greedy_of_nonempty (isOpen : IsOpenGrouping key full groups current)
    (nonempty : current ≠ []) : IsGreedyGrouping key full (groups ++ [current]) := by
  simpa [nonempty] using isOpen.greedy

/-- A group that is not full stays open. -/
theorem keep (greedy : IsGreedyGrouping key full (groups ++ [current]))
    (notFull : ¬full current) : IsOpenGrouping key full groups current := by
  have nonempty := greedy.nonempty current (by simp)
  exact ⟨by simpa [nonempty] using greedy, fun _ => notFull, fun isEmpty => absurd isEmpty nonempty⟩

/-- A group that is full is closed. -/
theorem close (greedy : IsGreedyGrouping key full (groups ++ [current]))
    (isFull : full current) : IsOpenGrouping key full (groups ++ [current]) [] := by
  refine ⟨by simpa using greedy, by simp, ?_⟩
  intro _ last isLast
  obtain rfl : current = last := by simpa using isLast
  exact isFull

/-- An item after a full group, or after one with another key, begins a group. -/
theorem begin (isOpen : IsOpenGrouping key full groups current) (item : Item)
    (otherKey : ∀ other ∈ current, key other ≠ key item) :
    IsGreedyGrouping key full
      ((groups ++ if current = [] then [] else [current]) ++ [[item]]) := by
  apply isOpen.greedy.begin
  intro last isLast
  by_cases isEmpty : current = []
  · rw [if_pos isEmpty, List.append_nil] at isLast
    exact .inl (isOpen.lastFull isEmpty last isLast)
  · obtain rfl : current = last := by simpa [isEmpty] using isLast
    exact .inr (by simpa using otherKey)

end IsOpenGrouping

end Deltacat.Library
