import Mathlib.Data.List.Basic
import Mathlib.Logic.Function.Basic

/-!
# Stores of objects

A store maps keys to the objects that exist. A write creates an object that does
not exist, or modifies or removes one that does. A list of writes is performed
in order; an optional write is passed over if its object exists already.
-/

namespace Deltacat.Library

universe u v

/-- The objects that exist. -/
abbrev Store (Key : Type u) (Object : Type v) := Key → Option Object

inductive WriteKind
  | create
  | modify
  | remove
  deriving DecidableEq

structure StoreWrite (Key : Type u) (Object : Type v) where
  key : Key
  kind : WriteKind
  object : Object
  isOptional : Bool

variable {Key : Type u} {Object : Type v}

namespace StoreWrite

/-- Whether the object is there or not, as the write needs it. -/
def Permitted (write : StoreWrite Key Object) (store : Store Key Object) : Prop :=
  match write.kind with
  | .create => store write.key = none
  | .modify | .remove => store write.key ≠ none

/-- What a write leaves at its key. -/
def outcome (write : StoreWrite Key Object) : Option Object :=
  match write.kind with
  | .create | .modify => some write.object
  | .remove => none

def apply [DecidableEq Key] (write : StoreWrite Key Object) (store : Store Key Object) :
    Store Key Object :=
  Function.update store write.key write.outcome

end StoreWrite

variable [DecidableEq Key]

/-- Performing a list of writes on a store. -/
inductive Performs : Store Key Object → List (StoreWrite Key Object) → Store Key Object → Prop
  | nil {store : Store Key Object} : Performs store [] store
  | write {store final : Store Key Object} {write : StoreWrite Key Object}
      {writes : List (StoreWrite Key Object)} :
      write.Permitted store → Performs (write.apply store) writes final →
        Performs store (write :: writes) final
  | skip {store final : Store Key Object} {write : StoreWrite Key Object}
      {writes : List (StoreWrite Key Object)} :
      write.isOptional → write.kind = .create → store write.key ≠ none →
        Performs store writes final → Performs store (write :: writes) final

variable {store final : Store Key Object} {write : StoreWrite Key Object}
  {writes : List (StoreWrite Key Object)}

@[simp] theorem performs_nil : Performs store [] final ↔ final = store := by
  constructor
  · rintro ⟨⟩
    rfl
  · rintro rfl
    exact Performs.nil

theorem performs_cons :
    Performs store (write :: writes) final ↔
      (write.Permitted store ∧ Performs (write.apply store) writes final) ∨
        (write.isOptional ∧ write.kind = .create ∧ store write.key ≠ none ∧
          Performs store writes final) := by
  constructor
  · rintro (_ | ⟨permitted, rest⟩ | ⟨isOptional, isCreate, present, rest⟩)
    · exact Or.inl ⟨permitted, rest⟩
    · exact Or.inr ⟨isOptional, isCreate, present, rest⟩
  · rintro (⟨permitted, rest⟩ | ⟨isOptional, isCreate, present, rest⟩)
    · exact Performs.write permitted rest
    · exact Performs.skip isOptional isCreate present rest

/-- A write that is not optional is performed. -/
theorem performs_cons_of_required (isRequired : write.isOptional = false) :
    Performs store (write :: writes) final ↔
      write.Permitted store ∧ Performs (write.apply store) writes final := by
  simp [performs_cons, isRequired]

/-- What no write is about stays as it is. -/
theorem Performs.frame (performs : Performs store writes final) {key : Key}
    (untouched : ∀ write ∈ writes, write.key ≠ key) : final key = store key := by
  induction performs with
  | nil => rfl
  | @write store final write writes _ _ ih =>
      rw [ih fun other otherMem => untouched other (List.mem_cons_of_mem write otherMem)]
      exact Function.update_of_ne (untouched write List.mem_cons_self).symm _ _
  | @skip store final write writes _ _ _ _ ih =>
      exact ih fun other otherMem => untouched other (List.mem_cons_of_mem write otherMem)

end Deltacat.Library
