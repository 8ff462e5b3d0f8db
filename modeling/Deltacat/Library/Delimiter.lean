import Mathlib.Data.List.Infix
import Mathlib.Tactic

/-!
# Texts that are joined with a delimiter

A text is split at a delimiter from left to right. If the delimiter has no border, which is a
proper end of it that is also its beginning, a joined text has the delimiter only where it was
joined and where its parts have it. The joined text is then determined by the pieces that the
parts are split into, and determines them (`intercalate_eq_iff`).
-/

namespace Deltacat.Library

universe u

variable {Symbol : Type u} {delimiter : List Symbol}

/-- No proper end of the delimiter is its beginning. -/
def BorderFree (delimiter : List Symbol) : Prop :=
  ∀ shift < delimiter.length, 0 < shift → ¬delimiter.drop shift <+: delimiter

/-- The text does not have the delimiter in it. -/
def Free (delimiter text : List Symbol) : Prop := ¬delimiter <:+: text

section Injective

theorem Free.eq_nil {piece more rest others : List Symbol} (borderFree : BorderFree delimiter)
    (free : Free delimiter (piece ++ more))
    (same : delimiter ++ rest = more ++ (delimiter ++ others)) :
    more = [] := by
  by_contra isMore
  rcases le_total delimiter.length more.length with isLong | isShort
  · have isStart : delimiter <+: more :=
      List.prefix_of_prefix_length_le (same ▸ List.prefix_append delimiter rest)
        (List.prefix_append more _) isLong
    exact free (isStart.isInfix.trans (List.suffix_append piece more).isInfix)
  · rcases List.prefix_of_prefix_length_le (List.prefix_append more _)
      (same ▸ List.prefix_append delimiter rest) isShort with ⟨tail, isTail⟩
    have isDropped : delimiter.drop more.length = tail := by
      rw [← isTail, List.drop_left]
    by_cases noTail : tail = []
    · -- The piece ends with the whole delimiter.
      rw [noTail, List.append_nil] at isTail
      exact free (isTail ▸ (List.suffix_append piece more).isInfix)
    · have sameFront : more ++ (tail ++ rest) = more ++ (delimiter ++ others) := by
        rw [← List.append_assoc, isTail, same]
      have rest_eq := List.append_cancel_left sameFront
      have isBorder : tail <+: delimiter := by
        apply List.prefix_of_prefix_length_le (rest_eq ▸ List.prefix_append tail rest)
          (List.prefix_append delimiter others)
        rw [← isTail]
        simp
      have isProper : more.length < delimiter.length := by
        rw [← isTail, List.length_append]
        exact Nat.lt_add_of_pos_right (List.length_pos_iff.mpr noTail)
      exact borderFree more.length isProper (List.length_pos_iff.mpr isMore)
        (isDropped.symm ▸ isBorder)

/-- Free texts before a delimiter can be told from what comes after it. -/
theorem Free.append_cancel {left right leftRest rightRest : List Symbol}
    (borderFree : BorderFree delimiter) (leftFree : Free delimiter left)
    (rightFree : Free delimiter right)
    (same : left ++ (delimiter ++ leftRest) = right ++ (delimiter ++ rightRest)) :
    left = right ∧ leftRest = rightRest := by
  have sameLeft : left = right := by
    rcases List.append_eq_append_iff.mp same with ⟨more, rfl, isRest⟩ | ⟨more, rfl, isRest⟩
    · rw [rightFree.eq_nil borderFree isRest, List.append_nil]
    · rw [leftFree.eq_nil borderFree isRest, List.append_nil]
  subst sameLeft
  exact ⟨rfl, List.append_cancel_left (List.append_cancel_left same)⟩

/-- Joining free texts is injective. -/
theorem intercalate_injective {left right : List (List Symbol)} (borderFree : BorderFree delimiter)
    (leftSome : left ≠ []) (rightSome : right ≠ [])
    (leftFree : ∀ piece ∈ left, Free delimiter piece)
    (rightFree : ∀ piece ∈ right, Free delimiter piece)
    (same : delimiter.intercalate left = delimiter.intercalate right) : left = right := by
  have notFree : ∀ piece first rest : List Symbol, piece = first ++ (delimiter ++ rest) →
      ¬Free delimiter piece := by
    rintro _ first rest rfl free
    exact free ⟨first, rest, by rw [List.append_assoc]⟩
  induction left generalizing right with
  | nil => exact absurd rfl leftSome
  | cons piece left ih =>
      cases right with
      | nil => exact absurd rfl rightSome
      | cons other right =>
          rw [List.forall_mem_cons] at leftFree rightFree
          cases left with
          | nil =>
              cases right with
              | nil => simpa using same
              | cons next right =>
                  rw [List.intercalate_singleton, List.intercalate_cons_cons,
                    List.append_assoc] at same
                  exact absurd leftFree.1 (notFree _ _ _ same)
          | cons first left =>
              cases right with
              | nil =>
                  rw [List.intercalate_singleton, List.intercalate_cons_cons,
                    List.append_assoc] at same
                  exact absurd rightFree.1 (notFree _ _ _ same.symm)
              | cons next right =>
                  rw [List.intercalate_cons_cons, List.intercalate_cons_cons, List.append_assoc,
                    List.append_assoc] at same
                  rcases leftFree.1.append_cancel borderFree rightFree.1 same with ⟨rfl, sameRest⟩
                  rw [ih (by simp) (by simp) leftFree.2 rightFree.2 sameRest]

end Injective

section Split

variable [DecidableEq Symbol]

/-- The pieces of a text, after the first symbols were skipped. -/
def splitFrom (delimiter : List Symbol) : ℕ → List Symbol → List (List Symbol)
  | _, [] => [[]]
  | skip + 1, _ :: text => splitFrom delimiter skip text
  | 0, symbol :: text =>
      if delimiter <+: symbol :: text then [] :: splitFrom delimiter (delimiter.length - 1) text
      else (splitFrom delimiter 0 text).modifyHead (symbol :: ·)

def split (delimiter text : List Symbol) : List (List Symbol) := splitFrom delimiter 0 text

theorem splitFrom_eq {skip : ℕ} {text : List Symbol} :
    splitFrom delimiter skip text = split delimiter (text.drop skip) := by
  induction text generalizing skip with
  | nil => simp [splitFrom, split]
  | cons symbol text ih =>
      cases skip with
      | zero => rfl
      | succ skip => exact ih

theorem split_append (nonempty : delimiter ≠ []) (rest : List Symbol) :
    split delimiter (delimiter ++ rest) = [] :: split delimiter rest := by
  obtain ⟨first, others, rfl⟩ := List.exists_cons_of_ne_nil nonempty
  have isStart : first :: others <+: first :: (others ++ rest) := ⟨rest, rfl⟩
  rw [List.cons_append, split, splitFrom, if_pos isStart, splitFrom_eq, List.length_cons,
    Nat.add_sub_cancel, List.drop_left]

theorem split_cons {symbol : Symbol} {text : List Symbol}
    (notStart : ¬delimiter <+: symbol :: text) :
    split delimiter (symbol :: text) = (split delimiter text).modifyHead (symbol :: ·) := by
  rw [split, splitFrom, if_neg notStart]
  rfl

/-- A text is empty, begins with the delimiter, or begins with another symbol. -/
theorem split_induction {motive : List Symbol → Prop} (nonempty : delimiter ≠ [])
    (nil : motive []) (append : ∀ rest, motive rest → motive (delimiter ++ rest))
    (cons : ∀ symbol text, ¬delimiter <+: symbol :: text → motive text → motive (symbol :: text))
    (text : List Symbol) : motive text := by
  induction size : text.length using Nat.strong_induction_on generalizing text with
  | _ _ ih =>
      subst size
      by_cases isStart : delimiter <+: text
      · rcases isStart with ⟨rest, rfl⟩
        apply append rest (ih _ _ rest rfl)
        rw [List.length_append]
        exact Nat.lt_add_of_pos_left (List.length_pos_iff.mpr nonempty)
      · cases text with
        | nil => exact nil
        | cons symbol text => exact cons symbol text isStart (ih _ (by simp) text rfl)

/-- The first piece of a text begins it. -/
theorem exists_split_eq (nonempty : delimiter ≠ []) (text : List Symbol) :
    ∃ piece pieces, split delimiter text = piece :: pieces ∧ piece <+: text := by
  induction text using split_induction nonempty with
  | nil => exact ⟨[], [], rfl, List.prefix_rfl⟩
  | append rest ih => exact ⟨[], _, split_append nonempty rest, List.nil_prefix⟩
  | cons symbol text notStart ih =>
      rcases ih with ⟨piece, pieces, isSplit, isStart⟩
      refine ⟨symbol :: piece, pieces, ?_, List.prefix_cons_inj symbol |>.mpr isStart⟩
      rw [split_cons notStart, isSplit]
      rfl

theorem split_ne_nil (nonempty : delimiter ≠ []) (text : List Symbol) :
    split delimiter text ≠ [] := by
  rcases exists_split_eq nonempty text with ⟨piece, pieces, isSplit, _⟩
  rw [isSplit]
  exact List.cons_ne_nil piece pieces

theorem intercalate_split (nonempty : delimiter ≠ []) (text : List Symbol) :
    delimiter.intercalate (split delimiter text) = text := by
  induction text using split_induction nonempty with
  | nil => rfl
  | append rest ih =>
      rw [split_append nonempty, List.intercalate_cons_of_ne_nil (split_ne_nil nonempty rest), ih]
      rfl
  | cons symbol text notStart ih =>
      rcases exists_split_eq nonempty text with ⟨piece, pieces, isSplit, _⟩
      rw [split_cons notStart, isSplit]
      rw [isSplit] at ih
      cases pieces with
      | nil => simpa using ih
      | cons next pieces =>
          rw [List.intercalate_cons_cons] at ih
          rw [List.modifyHead_cons, List.intercalate_cons_cons, List.cons_append, List.cons_append,
            ih]

theorem free_of_mem_split (nonempty : delimiter ≠ []) {text piece : List Symbol}
    (pieceMem : piece ∈ split delimiter text) : Free delimiter piece := by
  have nilFree : Free delimiter [] := fun isInfix => nonempty (List.infix_nil.mp isInfix)
  induction text using split_induction nonempty generalizing piece with
  | nil =>
      rw [List.mem_singleton.mp pieceMem]
      exact nilFree
  | append rest ih =>
      rw [split_append nonempty] at pieceMem
      rcases List.mem_cons.mp pieceMem with rfl | isRest
      · exact nilFree
      · exact ih isRest
  | cons symbol text notStart ih =>
      rcases exists_split_eq nonempty text with ⟨first, pieces, isSplit, isStart⟩
      rw [split_cons notStart, isSplit, List.modifyHead_cons] at pieceMem
      rcases List.mem_cons.mp pieceMem with rfl | isRest
      · intro isInfix
        rcases List.infix_cons_iff.mp isInfix with begins | isLater
        · exact notStart (begins.trans (List.prefix_cons_inj symbol |>.mpr isStart))
        · exact ih (isSplit ▸ List.mem_cons_self) isLater
      · exact ih (isSplit ▸ List.mem_cons_of_mem first isRest)

theorem split_of_free (nonempty : delimiter ≠ []) (borderFree : BorderFree delimiter)
    {text : List Symbol} (free : Free delimiter text) : split delimiter text = [text] := by
  apply intercalate_injective borderFree (split_ne_nil nonempty text) (List.cons_ne_nil text [])
    (fun piece pieceMem => free_of_mem_split nonempty pieceMem)
  · intro piece pieceMem
    rw [List.mem_singleton.mp pieceMem]
    exact free
  · rw [intercalate_split nonempty, List.intercalate_singleton]

omit [DecidableEq Symbol] in
theorem intercalate_append {left right : List (List Symbol)} (leftSome : left ≠ [])
    (rightSome : right ≠ []) :
    delimiter.intercalate (left ++ right) =
      delimiter.intercalate left ++ delimiter ++ delimiter.intercalate right := by
  induction left with
  | nil => exact absurd rfl leftSome
  | cons first left ih =>
      cases left with
      | nil =>
          rw [List.singleton_append, List.intercalate_singleton,
            List.intercalate_cons_of_ne_nil rightSome]
      | cons next left =>
          rw [List.cons_append, List.cons_append, List.intercalate_cons_cons, ← List.cons_append,
            ih (List.cons_ne_nil next left), List.intercalate_cons_cons]
          simp only [List.append_assoc]

/-- Joining the pieces of texts joins the texts. -/
theorem intercalate_flatMap_split (nonempty : delimiter ≠ []) (texts : List (List Symbol)) :
    delimiter.intercalate (texts.flatMap (split delimiter)) = delimiter.intercalate texts := by
  induction texts with
  | nil => rfl
  | cons text texts ih =>
      cases texts with
      | nil => simpa using intercalate_split nonempty text
      | cons next texts =>
          have restSome : (next :: texts).flatMap (split delimiter) ≠ [] := by
            rw [List.flatMap_cons]
            exact List.append_ne_nil_of_left_ne_nil (split_ne_nil nonempty next) _
          rw [List.flatMap_cons, intercalate_append (split_ne_nil nonempty text) restSome, ih,
            intercalate_split nonempty, List.intercalate_cons_cons]

/-- Joined texts are equal exactly if their parts have the same pieces. -/
theorem intercalate_eq_iff (nonempty : delimiter ≠ []) (borderFree : BorderFree delimiter)
    {left right : List (List Symbol)} (leftSome : left ≠ []) (rightSome : right ≠ []) :
    delimiter.intercalate left = delimiter.intercalate right ↔
      left.flatMap (split delimiter) = right.flatMap (split delimiter) := by
  have piecesSome : ∀ texts : List (List Symbol), texts ≠ [] →
      texts.flatMap (split delimiter) ≠ [] := by
    intro texts textsSome
    obtain ⟨text, others, rfl⟩ := List.exists_cons_of_ne_nil textsSome
    rw [List.flatMap_cons]
    exact List.append_ne_nil_of_left_ne_nil (split_ne_nil nonempty text) _
  have piecesFree : ∀ texts : List (List Symbol), ∀ piece ∈ texts.flatMap (split delimiter),
      Free delimiter piece := by
    intro texts piece pieceMem
    rcases List.mem_flatMap.mp pieceMem with ⟨text, _, isPiece⟩
    exact free_of_mem_split nonempty isPiece
  constructor
  · intro same
    apply intercalate_injective borderFree (piecesSome left leftSome) (piecesSome right rightSome)
      (piecesFree left) (piecesFree right)
    rw [intercalate_flatMap_split nonempty, intercalate_flatMap_split nonempty, same]
  · intro samePieces
    rw [← intercalate_flatMap_split nonempty left, samePieces, intercalate_flatMap_split nonempty]

end Split

end Deltacat.Library
