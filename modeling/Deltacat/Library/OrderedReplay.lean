import Deltacat.Library.Replay
import Deltacat.Library.StableSorting

/-!
# Replaying changes in the order of their positions

Changes at positions are replayed after a stable sort. A change can be cut into several
ones at its position (`replayInOrder_pieces`), and a bucket develops as it does on its own
(`replayInOrder_filter`). If all items are kept, the puts can be spread over rounds that
see all removals: the rounds together make what one makes of the bags of all of them
(`flatMap_replayInOrder_perm`).
-/

namespace Deltacat.Library

universe u

variable {Item Key : Type u} [LinearOrder Key] {bucket : Item → ℕ}

/-- The changes in the order of their positions. -/
def inOrder (changes : List (Key × Change Item)) : List (Change Item) :=
  (changes.insertionSort fun left right => left.1 ≤ right.1).map Prod.snd

/-- The bag after changes in the order of their positions. -/
def replayInOrder (merging : Merging bucket) (bag : List Item)
    (changes : List (Key × Change Item)) : List Item :=
  replay merging bag (inOrder changes)

/-- Several changes at the position of another one, which together do the same. -/
structure Refines (merging : Merging bucket) (change : Key × Change Item)
    (pieces : List (Key × Change Item)) : Prop where
  position : ∀ piece ∈ pieces, piece.1 = change.1
  replays : ∀ bag, replay merging bag (pieces.map Prod.snd) = change.2.apply merging bag

section Refines

variable {merging : Merging bucket}

omit [LinearOrder Key] in
theorem Refines.refl (change : Key × Change Item) : Refines merging change [change] where
  position := by simp
  replays _ := rfl

omit [LinearOrder Key] in
/-- The puts of a position can be cut as one likes. -/
theorem Refines.puts {position : Key} {batches : List (List Item)} {items : List Item}
    (same : batches.flatten = items) :
    Refines merging (position, .put items) (batches.map fun batch => (position, .put batch)) where
  position := by
    intro piece pieceMem
    rcases List.mem_map.mp pieceMem with ⟨batch, _, rfl⟩
    rfl
  replays bag := by
    have arePuts : (batches.map fun batch => (position, Change.put batch)).map Prod.snd =
        batches.map .put := by simp
    rw [arePuts, replay_puts, same]
    rfl

/-- Cutting changes makes no difference. -/
theorem replayInOrder_pieces (bag : List Item)
    {items : List ((Key × Change Item) × List (Key × Change Item))}
    (refines : ∀ item ∈ items, Refines merging item.1 item.2) :
    replayInOrder merging bag (items.flatMap Prod.snd) =
      replayInOrder merging bag (items.map Prod.fst) := by
  let byPosition := fun left right : (Key × Change Item) × List (Key × Change Item) =>
    left.1.1 ≤ right.1.1
  have sortedPieces : (items.insertionSort byPosition).flatMap Prod.snd =
      (items.flatMap Prod.snd).insertionSort fun left right => left.1 ≤ right.1 :=
    flatMap_insertionSort items fun item itemMem => (refines item itemMem).position
  have sortedChanges : (items.insertionSort byPosition).map Prod.fst =
      (items.map Prod.fst).insertionSort fun left right => left.1 ≤ right.1 :=
    List.map_insertionSort _ _ _ _ fun _ _ _ _ => Iff.rfl
  unfold replayInOrder inOrder
  rw [← sortedPieces, ← sortedChanges]
  have sortedRefines : ∀ item ∈ items.insertionSort byPosition, Refines merging item.1 item.2 :=
    fun item itemMem => refines item ((List.mem_insertionSort _).mp itemMem)
  generalize items.insertionSort byPosition = ordered at sortedRefines
  clear sortedPieces sortedChanges
  induction ordered generalizing bag with
  | nil => rfl
  | cons item ordered ih =>
      rw [List.flatMap_cons, List.map_append, replay_append,
        (sortedRefines item List.mem_cons_self).replays]
      exact ih _ fun other otherMem => sortedRefines other (List.mem_cons_of_mem _ otherMem)

/-- Cutting the last of some changes makes no difference. -/
theorem replayInOrder_append (bag : List Item) (before : List (Key × Change Item))
    {changes : List (Key × Change Item)} {pieces : List (List (Key × Change Item))}
    (refines : List.Forall₂ (Refines merging) changes pieces) :
    replayInOrder merging bag (before ++ pieces.flatten) =
      replayInOrder merging bag (before ++ changes) := by
  have same := @replayInOrder_pieces _ _ _ _ merging bag
    (before.map (fun change => (change, [change])) ++ changes.zip pieces) (by
      intro item itemMem
      rcases List.mem_append.mp itemMem with isBefore | isCut
      · rcases List.mem_map.mp isBefore with ⟨change, _, rfl⟩
        exact Refines.refl change
      · exact List.forall₂_iff_zip.mp refines |>.2 isCut)
  have lengths := refines.length_eq
  rw [List.flatMap_append, List.map_append, List.map_map, List.map_fst_zip lengths.le,
    List.flatMap_def, List.flatMap_def, List.map_snd_zip lengths.ge] at same
  simpa [Function.comp_def, ← List.flatMap_def] using same

end Refines

section Buckets

variable (merging : Merging bucket) (bag : List Item)

/-- A bucket develops as it does on its own. -/
theorem replayInOrder_filter (changes : List (Key × Change Item)) (index : ℕ) :
    (replayInOrder merging bag changes).filter (bucket · = index) =
      replayInOrder merging (bag.filter (bucket · = index))
        (changes.map fun change => (change.1, change.2.within bucket index)) := by
  have sorted : (changes.insertionSort fun left right => left.1 ≤ right.1).map
      (fun change => (change.1, change.2.within bucket index)) =
      (changes.map fun change => (change.1, change.2.within bucket index)).insertionSort
        fun left right => left.1 ≤ right.1 :=
    List.map_insertionSort _ _ _ _ fun _ _ _ _ => Iff.rfl
  unfold replayInOrder inOrder
  rw [replay_filter, ← sorted, List.map_map, List.map_map]
  rfl

/-- Changes that are in order are replayed one after another. -/
theorem replayInOrder_of_ascending {changes : List (Key × Change Item)}
    (ascending : changes.Pairwise fun left right => left.1 ≤ right.1) :
    replayInOrder merging bag changes = replay merging bag (changes.map Prod.snd) := by
  unfold replayInOrder inOrder
  rw [insertionSort_of_ascending ascending]

end Buckets

section Rounds

variable {Tagged : Type u} (change : Tagged → Key × Change Item) (inFirst : Tagged → Bool)

/-- The change is a removal, or a put that is seen in a round. -/
def SeenIn (inRound : Tagged → Bool) (tagged : Tagged) : Bool :=
  match (change tagged).2 with
  | .put _ => inRound tagged
  | .remove _ => true

omit [LinearOrder Key] in
/-- If all items are kept, two rounds that see all removals and some puts each do what one does. -/
theorem replay_appending_perm {first second bag : List Item} {changes : List Tagged}
    (isBoth : bag.Perm (first ++ second)) :
    (replay (Merging.appending bucket) bag (changes.map fun tagged => (change tagged).2)).Perm
      (replay (Merging.appending bucket) first
          ((changes.filter (SeenIn change inFirst)).map fun tagged => (change tagged).2) ++
        replay (Merging.appending bucket) second
          ((changes.filter (SeenIn change (!inFirst ·))).map fun tagged => (change tagged).2)) := by
  induction changes generalizing bag first second with
  | nil => exact isBoth
  | cons tagged changes ih =>
      cases isChange : (change tagged).2 with
      | put items =>
          have added : (bag ++ items).Perm (first ++ (second ++ items)) := by
            rw [← List.append_assoc]
            exact isBoth.append_right items
          cases isFirst : inFirst tagged with
          | true =>
              rw [List.filter_cons_of_pos (by simp [SeenIn, isChange, isFirst]),
                List.filter_cons_of_neg (by simp [SeenIn, isChange, isFirst])]
              simp only [List.map_cons, isChange, replay_cons]
              apply ih
              refine added.trans ?_
              change (first ++ (second ++ items)).Perm (first ++ items ++ second)
              rw [List.append_assoc]
              exact List.perm_append_comm.append_left first
          | false =>
              rw [List.filter_cons_of_neg (by simp [SeenIn, isChange, isFirst]),
                List.filter_cons_of_pos (by simp [SeenIn, isChange, isFirst])]
              simp only [List.map_cons, isChange, replay_cons]
              exact ih added
      | remove select =>
          rw [List.filter_cons_of_pos (by simp [SeenIn, isChange]),
            List.filter_cons_of_pos (by simp [SeenIn, isChange])]
          simp only [List.map_cons, isChange, replay_cons]
          apply ih
          simp only [Change.apply, ← List.filter_append]
          exact isBoth.filter _

/-- Leaving out elements commutes with sorting. -/
theorem filter_insertionSort_of_key {Other : Type u} {key : Other → Key} (select : Other → Bool)
    (items : List Other) :
    (items.insertionSort fun left right => key left ≤ key right).filter select =
      (items.filter select).insertionSort fun left right => key left ≤ key right := by
  have isFilter : ∀ list : List Other,
      (list.flatMap fun item => if select item then [item] else []) = list.filter select := by
    intro list
    induction list with
    | nil => rfl
    | cons head list ih => cases isSelected : select head <;> simp [isSelected, ih]
  rw [← isFilter, ← isFilter]
  apply flatMap_insertionSort
  intro item _ other otherMem
  split_ifs at otherMem
  · rw [List.mem_singleton.mp otherMem]
  · cases otherMem

theorem inOrder_map {Other : Type u} (change : Other → Key × Change Item) (items : List Other) :
    inOrder (items.map change) =
      (items.insertionSort fun left right => (change left).1 ≤ (change right).1).map
        fun item => (change item).2 := by
  have sorted : (items.insertionSort fun left right => (change left).1 ≤ (change right).1).map
      change = (items.map change).insertionSort fun left right => left.1 ≤ right.1 :=
    List.map_insertionSort _ _ _ _ fun _ _ _ _ => Iff.rfl
  rw [inOrder, ← sorted, List.map_map]
  rfl

/-- The removals are seen in all rounds, which together make what one makes of all their bags. -/
theorem flatMap_replayInOrder_perm (bag : List Item) {removals : List (Key × Change Item)}
    (areRemovals : ∀ removal ∈ removals, ∃ select, removal.2 = .remove select)
    {rounds : List (List (Key × Change Item))}
    (arePuts : ∀ round ∈ rounds, ∀ put ∈ round, ∃ items, put.2 = .put items) :
    (rounds.flatMap fun puts =>
        replayInOrder (Merging.appending bucket) bag (removals ++ puts)).Perm
      (replayInOrder (Merging.appending bucket) (List.replicate rounds.length bag).flatten
        (removals ++ rounds.flatten)) := by
  induction rounds with
  | nil =>
      have nothing : ∀ changes : List (Key × Change Item),
          (∀ removal ∈ changes, ∃ select, removal.2 = .remove select) →
          replay (Merging.appending bucket) [] (changes.map Prod.snd) = [] := by
        intro changes
        induction changes with
        | nil => exact fun _ => rfl
        | cons removal changes ih =>
            intro areRemovals
            rcases areRemovals removal List.mem_cons_self with ⟨select, isRemoval⟩
            rw [List.map_cons, replay_cons, isRemoval]
            exact ih fun other otherMem => areRemovals other (List.mem_cons_of_mem _ otherMem)
      simp only [List.flatMap_nil, List.flatten_nil, List.append_nil, List.length_nil,
        List.replicate_zero]
      rw [replayInOrder, inOrder, nothing]
      intro removal removalMem
      exact areRemovals removal ((List.mem_insertionSort _).mp removalMem)
  | cons puts rounds ih =>
      have restPuts := fun round roundMem => arePuts round (List.mem_cons_of_mem _ roundMem)
      let tag : Bool → Key × Change Item → (Key × Change Item) × Bool := fun isFirst change =>
        (change, isFirst)
      let all := removals.map (tag true) ++ (puts.map (tag true) ++ rounds.flatten.map (tag false))
      have forget : removals ++ (puts :: rounds).flatten = all.map Prod.fst := by
        simp [all, tag, Function.comp_def]
      have seesRemovals : ∀ inRound : (Key × Change Item) × Bool → Bool,
          (removals.map (tag true)).filter (SeenIn Prod.fst inRound) = removals.map (tag true) := by
        intro inRound
        rw [List.filter_eq_self]
        intro tagged taggedMem
        rcases List.mem_map.mp taggedMem with ⟨removal, removalMem, rfl⟩
        rcases areRemovals removal removalMem with ⟨select, isRemoval⟩
        simp [SeenIn, tag, isRemoval]
      have seesPuts : ∀ (inRound : (Key × Change Item) × Bool → Bool) (isFirst : Bool)
          (changes : List (Key × Change Item)),
          (∀ put ∈ changes, ∃ items, put.2 = .put items) →
          (changes.map (tag isFirst)).filter (SeenIn Prod.fst inRound) =
            (changes.map (tag isFirst)).filter inRound := by
        intro inRound isFirst changes arePuts
        apply List.filter_congr
        intro tagged taggedMem
        rcases List.mem_map.mp taggedMem with ⟨put, putMem, rfl⟩
        rcases arePuts put putMem with ⟨items, isPut⟩
        simp [SeenIn, tag, isPut]
      have isPuts := arePuts puts List.mem_cons_self
      have isRest : ∀ put ∈ rounds.flatten, ∃ items, put.2 = .put items := by
        intro put putMem
        rcases List.mem_flatten.mp putMem with ⟨round, roundMem, putMem⟩
        exact restPuts round roundMem put putMem
      have first : all.filter (SeenIn Prod.fst Prod.snd) = (removals ++ puts).map (tag true) := by
        rw [List.filter_append, List.filter_append, seesRemovals, seesPuts _ _ _ isPuts,
          seesPuts _ _ _ isRest]
        simp [tag, List.filter_map, Function.comp_def]
      have second : all.filter (SeenIn Prod.fst (!Prod.snd ·)) =
          removals.map (tag true) ++ rounds.flatten.map (tag false) := by
        rw [List.filter_append, List.filter_append, seesRemovals, seesPuts _ _ _ isPuts,
          seesPuts _ _ _ isRest]
        simp [tag, List.filter_map, Function.comp_def]
      have forgetSecond : removals ++ rounds.flatten =
          (removals.map (tag true) ++ rounds.flatten.map (tag false)).map Prod.fst := by
        simp [tag, Function.comp_def]
      have forgetFirst : removals ++ puts = ((removals ++ puts).map (tag true)).map Prod.fst := by
        simp [tag, Function.comp_def]
      have both := @replay_appending_perm _ _ bucket _ Prod.fst Prod.snd bag
        (List.replicate rounds.length bag).flatten
        (List.replicate (rounds.length + 1) bag).flatten
        (all.insertionSort fun left right => left.1.1 ≤ right.1.1) (by simp [List.replicate_succ])
      rw [filter_insertionSort_of_key, filter_insertionSort_of_key, first, second,
        ← inOrder_map, ← inOrder_map, ← inOrder_map, ← forget, ← forgetFirst, ← forgetSecond]
        at both
      rw [List.flatMap_cons]
      exact ((ih restPuts).append_left _).trans both.symm

end Rounds

end Deltacat.Library
