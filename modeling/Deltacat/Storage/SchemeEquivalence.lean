import Deltacat.Storage.Schema
import Deltacat.Storage.Schemes
import Mathlib.Data.List.Forall2
import Mathlib.Tactic

/-!
# Equivalence of partition and sort schemes

`equivalent_to` compares two schemes key by key. It goes through the positions of the first
scheme's keys and looks up the other scheme's key at each of them, so a longer list of keys
in the other scheme goes unnoticed and a shorter one raises. Two partition keys count as
equivalent if their definitions agree and identifiers are not checked, `or` if their
identifiers agree: two keys without name and identifier are always equivalent.
-/

namespace Deltacat.Storage

variable {Locator : Type}

section Specification

/-- Two lists of keys agree if they have one length and agree at each position. -/
def KeysAgree {Key : Type} (agree : Key → Key → Prop) :
    Option (List Key) → Option (List Key) → Prop
  | none, none => True
  | some keys, some otherKeys => List.Forall₂ agree keys otherKeys
  | _, _ => False

def PartitionKey.SameDefinition (key other : PartitionKey Locator) : Prop :=
  key.key = other.key ∧ key.transform = other.transform

def PartitionKey.SameIdentifiers (key other : PartitionKey Locator) : Prop :=
  key.name = other.name ∧ key.fieldId = other.fieldId

def PartitionKey.Agrees (key other : PartitionKey Locator) (checkIdentifiers : Bool) : Prop :=
  key.SameDefinition other ∧ (checkIdentifiers → key.SameIdentifiers other)

def PartitionScheme.SameIdentifiers (scheme other : PartitionScheme Locator) : Prop :=
  scheme.name = other.name ∧ scheme.id = other.id

def PartitionScheme.Agrees (scheme other : PartitionScheme Locator) (checkIdentifiers : Bool) :
    Prop :=
  KeysAgree (·.Agrees · checkIdentifiers) scheme.keys other.keys ∧
    (checkIdentifiers → scheme.SameIdentifiers other)

def SortKey.Agrees (key other : SortKey Locator) : Prop :=
  key.key = other.key ∧ key.transform = other.transform ∧ key.sortOrder = other.sortOrder ∧
    key.nullOrder = other.nullOrder

def SortScheme.SameIdentifiers (scheme other : SortScheme Locator) : Prop :=
  scheme.name = other.name ∧ scheme.id = other.id

def SortScheme.Agrees (scheme other : SortScheme Locator) (checkIdentifiers : Bool) : Prop :=
  KeysAgree SortKey.Agrees scheme.keys other.keys ∧
    (checkIdentifiers → scheme.SameIdentifiers other)

/-- A comparison of schemes is total, is an equivalence relation and decides agreement. -/
structure ReflectsSchemes {Scheme : Type}
    (equivalentTo : Scheme → Scheme → Bool → Except Error Bool)
    (agrees : Scheme → Scheme → Bool → Prop) (schemes : Set Scheme) : Prop where
  total : ∀ checkIdentifiers, ∀ scheme ∈ schemes, ∀ other ∈ schemes,
    ∃ answer, equivalentTo scheme other checkIdentifiers = .ok answer
  refl : ∀ checkIdentifiers, ∀ scheme ∈ schemes,
    equivalentTo scheme scheme checkIdentifiers = .ok true
  symm : ∀ checkIdentifiers, ∀ scheme ∈ schemes, ∀ other ∈ schemes,
    equivalentTo scheme other checkIdentifiers = .ok true →
      equivalentTo other scheme checkIdentifiers = .ok true
  trans : ∀ checkIdentifiers, ∀ scheme ∈ schemes, ∀ middle ∈ schemes, ∀ other ∈ schemes,
    equivalentTo scheme middle checkIdentifiers = .ok true →
      equivalentTo middle other checkIdentifiers = .ok true →
        equivalentTo scheme other checkIdentifiers = .ok true
  exact : ∀ checkIdentifiers, ∀ scheme ∈ schemes, ∀ other ∈ schemes,
    equivalentTo scheme other checkIdentifiers = .ok true ↔ agrees scheme other checkIdentifiers

end Specification

section Agreement

variable {Key : Type} {agree : Key → Key → Prop}

theorem KeysAgree.refl (agreeRefl : ∀ key, agree key key) (keys : Option (List Key)) :
    KeysAgree agree keys keys := by
  cases keys with
  | none => trivial
  | some keys => exact List.forall₂_same.mpr fun key _ => agreeRefl key

theorem KeysAgree.symm (agreeSymm : ∀ {key other}, agree key other → agree other key)
    {keys otherKeys : Option (List Key)} (keysAgree : KeysAgree agree keys otherKeys) :
    KeysAgree agree otherKeys keys := by
  match keys, otherKeys, keysAgree with
  | none, none, _ => trivial
  | some _, some _, keysAgree => exact (keysAgree.imp fun _ _ => agreeSymm).flip

theorem KeysAgree.trans (agreeTrans : ∀ {key middle other}, agree key middle →
      agree middle other → agree key other)
    {keys middleKeys otherKeys : Option (List Key)} (first : KeysAgree agree keys middleKeys)
    (second : KeysAgree agree middleKeys otherKeys) : KeysAgree agree keys otherKeys := by
  match keys, middleKeys, otherKeys, first, second with
  | none, none, none, _, _ => trivial
  | some keys, some middleKeys, some otherKeys, first, second =>
      simp only [KeysAgree] at first second ⊢
      induction first generalizing otherKeys with
      | nil => exact second
      | cons headAgrees _ ih =>
          cases second with
          | cons nextAgrees rest => exact .cons (agreeTrans headAgrees nextAgrees) (ih _ rest)

theorem PartitionScheme.equivalence_agrees (checkIdentifiers : Bool) :
    Equivalence fun scheme other : PartitionScheme Locator =>
      scheme.Agrees other checkIdentifiers where
  refl scheme := by
    refine ⟨KeysAgree.refl (fun key => ⟨⟨rfl, rfl⟩, fun _ => ⟨rfl, rfl⟩⟩) _, fun _ => ⟨rfl, rfl⟩⟩
  symm := by
    rintro scheme other ⟨keysAgree, sameIds⟩
    refine ⟨keysAgree.symm ?_, fun isChecked => ⟨(sameIds isChecked).1.symm,
      (sameIds isChecked).2.symm⟩⟩
    rintro key otherKey ⟨⟨sameKey, sameTransform⟩, sameKeyIds⟩
    exact ⟨⟨sameKey.symm, sameTransform.symm⟩, fun isChecked =>
      ⟨(sameKeyIds isChecked).1.symm, (sameKeyIds isChecked).2.symm⟩⟩
  trans := by
    rintro scheme middle other ⟨firstAgree, firstIds⟩ ⟨secondAgree, secondIds⟩
    refine ⟨firstAgree.trans ?_ secondAgree, fun isChecked =>
      ⟨(firstIds isChecked).1.trans (secondIds isChecked).1,
        (firstIds isChecked).2.trans (secondIds isChecked).2⟩⟩
    rintro key middleKey otherKey ⟨⟨firstKey, firstTransform⟩, firstKeyIds⟩
      ⟨⟨secondKey, secondTransform⟩, secondKeyIds⟩
    exact ⟨⟨firstKey.trans secondKey, firstTransform.trans secondTransform⟩, fun isChecked =>
      ⟨(firstKeyIds isChecked).1.trans (secondKeyIds isChecked).1,
        (firstKeyIds isChecked).2.trans (secondKeyIds isChecked).2⟩⟩

theorem SortScheme.equivalence_agrees (checkIdentifiers : Bool) :
    Equivalence fun scheme other : SortScheme Locator => scheme.Agrees other checkIdentifiers where
  refl scheme := ⟨KeysAgree.refl (fun key => ⟨rfl, rfl, rfl, rfl⟩) _, fun _ => ⟨rfl, rfl⟩⟩
  symm := by
    rintro scheme other ⟨keysAgree, sameIds⟩
    refine ⟨keysAgree.symm ?_, fun isChecked => ⟨(sameIds isChecked).1.symm,
      (sameIds isChecked).2.symm⟩⟩
    rintro key otherKey ⟨sameKey, sameTransform, sameOrder, sameNullOrder⟩
    exact ⟨sameKey.symm, sameTransform.symm, sameOrder.symm, sameNullOrder.symm⟩
  trans := by
    rintro scheme middle other ⟨firstAgree, firstIds⟩ ⟨secondAgree, secondIds⟩
    refine ⟨firstAgree.trans ?_ secondAgree, fun isChecked =>
      ⟨(firstIds isChecked).1.trans (secondIds isChecked).1,
        (firstIds isChecked).2.trans (secondIds isChecked).2⟩⟩
    rintro key middleKey otherKey ⟨key₁, transform₁, order₁, null₁⟩
      ⟨key₂, transform₂, order₂, null₂⟩
    exact ⟨key₁.trans key₂, transform₁.trans transform₂, order₁.trans order₂, null₁.trans null₂⟩

end Agreement

section Comparison

variable {Key : Type} {equivalent : Key → Key → Bool} {agree : Key → Key → Prop}

/-- The comparison of keys stops at the first difference or at the end of a list. -/
theorem equivalentKeys_eq (keys otherKeys : List Key) :
    equivalentKeys equivalent keys otherKeys =
      if ∀ pair ∈ keys.zip otherKeys, equivalent pair.1 pair.2 = true then
        if keys.length ≤ otherKeys.length then .ok true else .error .indexError
      else .ok false := by
  induction keys generalizing otherKeys with
  | nil => simp [equivalentKeys]
  | cons key keys ih =>
      cases otherKeys with
      | nil => simp [equivalentKeys]
      | cons other otherKeys =>
          cases isEquivalent : equivalent key other with
          | false => simp [equivalentKeys, isEquivalent]
          | true =>
              simp only [equivalentKeys, isEquivalent, if_true, ih, List.zip_cons_cons,
                List.forall_mem_cons, true_and, List.length_cons, Nat.add_le_add_iff_right]

/--
Lists of keys that resemble each other at all common positions: the second one is not
shorter, and if the identifiers of the schemes do not tell them apart, the lists agree.
-/
def KeysDecide (resembles agree : Key → Key → Prop) (sameIdentifiers : Prop)
    (keys otherKeys : Option (List Key)) : Prop :=
  ∀ listed ∈ keys, ∀ otherListed ∈ otherKeys,
    (∀ pair ∈ listed.zip otherListed, resembles pair.1 pair.2) →
      listed.length ≤ otherListed.length ∧
        (sameIdentifiers → listed.length = otherListed.length ∧
          ∀ pair ∈ listed.zip otherListed, agree pair.1 pair.2)

/-- A comparison of keys decides their agreement under the condition of `KeysDecide`. -/
theorem equivalentSchemes_iff {keys otherKeys : Option (List Key)} {sameIdentifiers : Bool}
    (resembles : ∀ {key other}, agree key other → equivalent key other = true) :
    (∃ answer, equivalentSchemes equivalent keys otherKeys sameIdentifiers = .ok answer ∧
        (answer = true ↔ KeysAgree agree keys otherKeys ∧ sameIdentifiers = true)) ↔
      KeysDecide (fun key other => equivalent key other = true) agree (sameIdentifiers = true) keys
        otherKeys := by
  match keys, otherKeys with
  | none, none => simp [equivalentSchemes, KeysAgree, KeysDecide]
  | none, some _ => simp [equivalentSchemes, KeysAgree, KeysDecide]
  | some _, none => simp [equivalentSchemes, KeysAgree, KeysDecide]
  | some keys, some otherKeys =>
      have agreeIff : List.Forall₂ agree keys otherKeys ↔
          keys.length = otherKeys.length ∧ ∀ pair ∈ keys.zip otherKeys, agree pair.1 pair.2 := by
        rw [List.forall₂_iff_zip]
        simp only [Prod.forall]
      simp only [KeysAgree, KeysDecide, Option.mem_def, Option.some.injEq, forall_eq', agreeIff]
      have compared := @equivalentKeys_eq _ equivalent keys otherKeys
      by_cases resembling : ∀ pair ∈ keys.zip otherKeys, equivalent pair.1 pair.2 = true
      · rw [if_pos resembling] at compared
        rw [forall_prop_of_true resembling]
        by_cases covers : keys.length ≤ otherKeys.length
        · rw [if_pos covers] at compared
          have result : equivalentSchemes equivalent (some keys) (some otherKeys)
              sameIdentifiers = .ok sameIdentifiers := by
            simp only [equivalentSchemes, compared, bind, Except.bind, if_true]
            rfl
          rw [result, and_iff_right covers]
          constructor
          · rintro ⟨answer, isAnswer, decides⟩ same
            rw [← Except.ok.inj isAnswer] at decides
            exact (decides.mp same).1
          · intro agrees
            exact ⟨sameIdentifiers, rfl, fun same => ⟨agrees same, same⟩, And.right⟩
        · rw [if_neg covers] at compared
          have result : equivalentSchemes equivalent (some keys) (some otherKeys)
              sameIdentifiers = .error .indexError := by
            simp only [equivalentSchemes, compared, bind, Except.bind]
          rw [result]
          simp [covers]
      · rw [if_neg resembling] at compared
        have result : equivalentSchemes equivalent (some keys) (some otherKeys)
            sameIdentifiers = .ok false := by
          simp only [equivalentSchemes, compared, bind, Except.bind, Bool.false_eq_true, if_false]
          rfl
        rw [result]
        refine iff_of_true ⟨false, rfl, ?_⟩ fun all => absurd all resembling
        have notAgree : ¬∀ pair ∈ keys.zip otherKeys, agree pair.1 pair.2 :=
          fun all => resembling fun pair pairMem => resembles (all pair pairMem)
        constructor
        · intro impossible
          cases impossible
        · rintro ⟨⟨_, all⟩, _⟩
          exact absurd all notAgree

end Comparison

section Reflection

/-- A comparison that decides an equivalence relation pair by pair reflects it. -/
theorem reflectsSchemes_iff_decides {Scheme : Type}
    {equivalentTo : Scheme → Scheme → Bool → Except Error Bool}
    {agrees : Scheme → Scheme → Bool → Prop} {schemes : Set Scheme}
    (isEquivalence : ∀ checkIdentifiers, Equivalence (agrees · · checkIdentifiers)) :
    ReflectsSchemes equivalentTo agrees schemes ↔
      ∀ checkIdentifiers, ∀ scheme ∈ schemes, ∀ other ∈ schemes, ∃ answer,
        equivalentTo scheme other checkIdentifiers = .ok answer ∧
          (answer = true ↔ agrees scheme other checkIdentifiers) := by
  constructor
  · intro reflects checkIdentifiers scheme schemeMem other otherMem
    rcases reflects.total checkIdentifiers scheme schemeMem other otherMem with ⟨answer, isAnswer⟩
    have exact := reflects.exact checkIdentifiers scheme schemeMem other otherMem
    rw [isAnswer, Except.ok.injEq] at exact
    exact ⟨answer, isAnswer, exact⟩
  · intro decides
    have exact : ∀ checkIdentifiers, ∀ scheme ∈ schemes, ∀ other ∈ schemes,
        equivalentTo scheme other checkIdentifiers = .ok true ↔
          agrees scheme other checkIdentifiers := by
      intro checkIdentifiers scheme schemeMem other otherMem
      rcases decides checkIdentifiers scheme schemeMem other otherMem with ⟨answer, isAnswer, iff⟩
      rw [isAnswer, Except.ok.injEq]
      exact iff
    refine ⟨?_, ?_, ?_, ?_, exact⟩
    · intro checkIdentifiers scheme schemeMem other otherMem
      rcases decides checkIdentifiers scheme schemeMem other otherMem with ⟨answer, isAnswer, _⟩
      exact ⟨answer, isAnswer⟩
    · intro checkIdentifiers scheme schemeMem
      rw [exact checkIdentifiers scheme schemeMem scheme schemeMem]
      exact (isEquivalence checkIdentifiers).refl scheme
    · intro checkIdentifiers scheme schemeMem other otherMem
      rw [exact checkIdentifiers scheme schemeMem other otherMem,
        exact checkIdentifiers other otherMem scheme schemeMem]
      exact (isEquivalence checkIdentifiers).symm
    · intro checkIdentifiers scheme schemeMem middle middleMem other otherMem
      rw [exact checkIdentifiers scheme schemeMem middle middleMem,
        exact checkIdentifiers middle middleMem other otherMem,
        exact checkIdentifiers scheme schemeMem other otherMem]
      exact (isEquivalence checkIdentifiers).trans

/--
Two partition keys that are taken for the same: their names and identifiers agree, or
identifiers are not checked and their definitions agree.
-/
def PartitionKey.Resembles (key other : PartitionKey Locator) (checkIdentifiers : Bool) : Prop :=
  key.SameIdentifiers other ∨ ¬checkIdentifiers ∧ key.SameDefinition other

theorem PartitionKey.Agrees.resembles {key other : PartitionKey Locator} {checkIdentifiers : Bool}
    (agrees : key.Agrees other checkIdentifiers) : key.Resembles other checkIdentifiers := by
  rcases agrees with ⟨sameDefinition, sameIds⟩
  cases checkIdentifiers with
  | false => exact Or.inr ⟨Bool.false_ne_true, sameDefinition⟩
  | true => exact Or.inl (sameIds rfl)

variable [DecidableEq Locator]

theorem PartitionKey.equivalentTo_eq_true {key other : PartitionKey Locator}
    {checkIdentifiers : Bool} :
    key.equivalentTo other checkIdentifiers = true ↔ key.Resembles other checkIdentifiers := by
  simp only [PartitionKey.equivalentTo, decide_eq_true_eq, Resembles, SameIdentifiers,
    SameDefinition]
  tauto

/--
The condition under which the comparison of two partition schemes is right: if their keys
resemble each other at all common positions, then the second scheme has at least as many
keys, and unless the identifiers of the schemes differ and are checked, their keys agree.
-/
def PartitionScheme.Decides (scheme other : PartitionScheme Locator) (checkIdentifiers : Bool) :
    Prop :=
  KeysDecide (·.Resembles · checkIdentifiers) (·.Agrees · checkIdentifiers)
    (checkIdentifiers → scheme.SameIdentifiers other) scheme.keys other.keys

/-- The condition for two sort schemes, whose keys resemble each other only if they agree. -/
def SortScheme.Decides (scheme other : SortScheme Locator) (checkIdentifiers : Bool) : Prop :=
  KeysDecide SortKey.Agrees SortKey.Agrees
    (checkIdentifiers → scheme.SameIdentifiers other) scheme.keys other.keys

theorem PartitionScheme.decides_iff {scheme other : PartitionScheme Locator}
    {checkIdentifiers : Bool} :
    (∃ answer, scheme.equivalentTo other checkIdentifiers = .ok answer ∧
        (answer = true ↔ scheme.Agrees other checkIdentifiers)) ↔
      scheme.Decides other checkIdentifiers := by
  have compared := @equivalentSchemes_iff _ (·.equivalentTo · checkIdentifiers)
    (·.Agrees · checkIdentifiers) scheme.keys other.keys
    (decide (¬checkIdentifiers ∨ scheme.name = other.name ∧ scheme.id = other.id))
    fun agrees => PartitionKey.equivalentTo_eq_true.mpr agrees.resembles
  simp only [decide_eq_true_eq, PartitionKey.equivalentTo_eq_true] at compared
  simp only [PartitionScheme.Decides, PartitionScheme.Agrees, PartitionScheme.SameIdentifiers,
    imp_iff_not_or]
  exact compared

theorem SortKey.equivalentTo_eq_true {key other : SortKey Locator} :
    key.equivalentTo other = true ↔ key.Agrees other := by
  simp only [SortKey.equivalentTo, decide_eq_true_eq, SortKey.Agrees]

theorem SortScheme.decides_iff {scheme other : SortScheme Locator} {checkIdentifiers : Bool} :
    (∃ answer, scheme.equivalentTo other checkIdentifiers = .ok answer ∧
        (answer = true ↔ scheme.Agrees other checkIdentifiers)) ↔
      scheme.Decides other checkIdentifiers := by
  have compared := @equivalentSchemes_iff _ SortKey.equivalentTo SortKey.Agrees scheme.keys
    other.keys (decide (¬checkIdentifiers ∨ scheme.name = other.name ∧ scheme.id = other.id))
    fun agrees => SortKey.equivalentTo_eq_true.mpr agrees
  simp only [decide_eq_true_eq, SortKey.equivalentTo_eq_true] at compared
  simp only [SortScheme.Decides, SortScheme.Agrees, SortScheme.SameIdentifiers, imp_iff_not_or]
  exact compared

/--
Among any partition schemes and sort schemes, `equivalent_to` is a total equivalence relation
that holds exactly for agreeing schemes if and only if no two of them are mistaken.
-/
theorem reflectsSchemes_iff (partitionSchemes : Set (PartitionScheme FieldLocator))
    (sortSchemes : Set (SortScheme FieldLocator)) :
    ReflectsSchemes PartitionScheme.equivalentTo PartitionScheme.Agrees partitionSchemes ∧
        ReflectsSchemes SortScheme.equivalentTo SortScheme.Agrees sortSchemes ↔
      (∀ checkIdentifiers, ∀ scheme ∈ partitionSchemes, ∀ other ∈ partitionSchemes,
          scheme.Decides other checkIdentifiers) ∧
        ∀ checkIdentifiers, ∀ scheme ∈ sortSchemes, ∀ other ∈ sortSchemes,
          scheme.Decides other checkIdentifiers := by
  rw [reflectsSchemes_iff_decides PartitionScheme.equivalence_agrees,
    reflectsSchemes_iff_decides SortScheme.equivalence_agrees]
  simp only [PartitionScheme.decides_iff, SortScheme.decides_iff]

/-- A partition scheme that was built with nothing but the fields it partitions by. -/
def partitionedBy (fields : List String) : PartitionScheme FieldLocator where
  keys := some (fields.map fun field => { key := [.name field] })

/-- Schemes by different fields are equivalent, and shorter schemes raise. -/
theorem not_reflectsSchemes :
    ¬(ReflectsSchemes PartitionScheme.equivalentTo PartitionScheme.Agrees
          (Set.univ : Set (PartitionScheme FieldLocator)) ∧
        ReflectsSchemes SortScheme.equivalentTo SortScheme.Agrees
          (Set.univ : Set (SortScheme FieldLocator))) := by
  rintro ⟨reflects, _⟩
  have agrees := (reflects.exact false (partitionedBy ["a"]) trivial (partitionedBy ["b"])
    trivial).mp rfl
  simp [PartitionScheme.Agrees, KeysAgree, partitionedBy, PartitionKey.Agrees,
    PartitionKey.SameDefinition] at agrees

example : (partitionedBy ["a", "b"]).equivalentTo (partitionedBy ["a"]) false =
    .error .indexError := rfl

end Reflection

end Deltacat.Storage
