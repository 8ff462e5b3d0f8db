import Deltacat.Utils.Filesystem
import Mathlib.Algebra.Order.Floor.Div
import Mathlib.Tactic

/-!
# The capacities of exponential partitions

The directories of a value are named after the capacities that the value needs
level by level. Read back in full they stand for the least multiple of the base
that is at least the value. A search also reads back the first directories of a
path alone, at depths other than those they were written for. What it finds then
is that multiple for the unit of the last of them, and a surplus on top that
depends on the depth only (`prefixCapacity`). The order of the values is kept, but
the surplus may exceed 64 bits where the capacities do not, and the parser then
takes the directories for none of its own.
-/

namespace Deltacat.Utils

variable {base levels value other : ℕ}

/-- The least multiple of a unit that is at least the value. -/
def leastMultiple (unit value : ℕ) : ℕ := value ⌈/⌉ unit * unit

theorem isLeast_leastMultiple {unit : ℕ} (positive : 0 < unit) (value : ℕ) :
    IsLeast {multiple | unit ∣ multiple ∧ value ≤ multiple} (leastMultiple unit value) := by
  constructor
  · refine ⟨Nat.dvd_mul_left _ _, ?_⟩
    rw [leastMultiple, Nat.mul_comm]
    exact le_smul_ceilDiv positive
  · rintro multiple ⟨⟨count, rfl⟩, le⟩
    rw [leastMultiple, Nat.mul_comm unit count]
    exact Nat.mul_le_mul_right unit ((ceilDiv_le_iff_le_mul positive).mpr le)

theorem leastMultiple_mono {unit : ℕ} (positive : 0 < unit) : Monotone (leastMultiple unit) := by
  intro left right le
  apply Nat.mul_le_mul_right
  exact (gc_mul_ceilDiv positive).monotone_l le

/-- Whole units may be taken off before the value is rounded up. -/
theorem leastMultiple_sub_mul {unit : ℕ} (positive : 0 < unit) {count : ℕ}
    (less : unit * count ≤ value) :
    leastMultiple unit (value - unit * count) = leastMultiple unit value - unit * count := by
  obtain ⟨rest, rfl⟩ := Nat.exists_eq_add_of_le less
  have quotient : (unit * count + rest) ⌈/⌉ unit = count + rest ⌈/⌉ unit := by
    rw [Nat.ceilDiv_eq_add_pred_div, Nat.ceilDiv_eq_add_pred_div]
    rw [show unit * count + rest + unit - 1 = rest + unit - 1 + unit * count by omega,
      Nat.add_mul_div_left _ _ positive, Nat.add_comm]
  rw [Nat.add_sub_cancel_left, leastMultiple, leastMultiple, quotient, Nat.add_mul,
    Nat.mul_comm count, Nat.add_sub_cancel_left]

/-- The surplus that the first directories of a path have if they are read back alone. -/
def surplus (base depth : ℕ) : ℕ := ∑ level ∈ Finset.range (depth - 1), base ^ (level + 2)

/-- The value that the first directories of a path are read back as, before it is bounded. -/
def prefixCapacity (base levels depth value : ℕ) : ℕ :=
  leastMultiple (base ^ (levels - depth + 1)) value +
    (base ^ (levels - depth) - 1) * surplus base depth

theorem prefixCapacity_mono (positive : 0 < base) (depth : ℕ) :
    Monotone (prefixCapacity base levels depth) :=
  fun _ _ le => Nat.add_le_add_right (leastMultiple_mono (Nat.pow_pos positive) le) _

/-- The multipliers that the first directories of a path are read back as. -/
def prefixMultipliers (base : ℕ) : ℕ → ℕ → ℕ → List ℕ
  | levels + 1, depth + 1, value =>
      let multiplier := value ⌈/⌉ base ^ (levels + 1)
      multiplier * base ^ (levels - depth) ::
        prefixMultipliers base levels depth (value - (multiplier - 1) * base ^ (levels + 1))
  | _, _, _ => []

theorem length_prefixMultipliers {depth : ℕ} (isDepth : depth ≤ levels) :
    (prefixMultipliers base levels depth value).length = depth := by
  induction depth generalizing levels value with
  | zero => cases levels <;> rfl
  | succ depth ih =>
      cases levels with
      | zero => omega
      | succ levels => rw [prefixMultipliers, List.length_cons, ih (by omega)]

section Remainder

variable (baseLarge : 1 < base) (valuePos : 0 < value)
include baseLarge valuePos

theorem multiplier_pos : 0 < value ⌈/⌉ base ^ (levels + 1) := by
  by_contra notPos
  have le := (ceilDiv_le_iff_le_mul (Nat.pow_pos (Nat.zero_lt_of_lt baseLarge))).mp
    (Nat.le_zero.mp (Nat.le_of_not_lt notPos)).le
  simp at le
  omega

/-- What is left for the levels below is positive. -/
theorem remainder_pos :
    (value ⌈/⌉ base ^ (levels + 1) - 1) * base ^ (levels + 1) < value := by
  by_contra notLess
  have positive : 0 < base ^ (levels + 1) := Nat.pow_pos (Nat.zero_lt_of_lt baseLarge)
  have le : value ⌈/⌉ base ^ (levels + 1) ≤ value ⌈/⌉ base ^ (levels + 1) - 1 := by
    rw [ceilDiv_le_iff_le_mul positive, Nat.mul_comm]
    exact Nat.le_of_not_lt notLess
  have multiplierPos := @multiplier_pos base levels value baseLarge valuePos
  omega

end Remainder

theorem length_exponentialPartitionValues (base levels value : ℕ) :
    (exponentialPartitionValues base levels value).length = levels := by
  induction levels generalizing value with
  | zero => rfl
  | succ levels ih => rw [exponentialPartitionValues, List.length_cons, ih]

/-- The names of the first directories are valid ones, also without the directories below. -/
theorem partitionMultipliers_take (baseLarge : 1 < base) (valuePos : 0 < value) {depth : ℕ}
    (isDepth : depth ≤ levels) :
    partitionMultipliers base
        (((exponentialPartitionValues base levels value).map Nat.repr).take depth) =
      some (prefixMultipliers base levels depth value) := by
  induction depth generalizing levels value with
  | zero => cases levels <;> rfl
  | succ depth ih =>
      cases levels with
      | zero => omega
      | succ levels =>
          have basePos : 0 < base := Nat.zero_lt_of_lt baseLarge
          have multiplierPos := @multiplier_pos base levels value baseLarge valuePos
          have remainderPos := @remainder_pos base levels value baseLarge valuePos
          have rest := @ih levels
            (value - (value ⌈/⌉ base ^ (levels + 1) - 1) * base ^ (levels + 1))
            (by omega) (by omega)
          have depthLe : depth ≤ levels := by omega
          have power : base ^ (levels + 1) = base ^ (levels - depth) * base ^ (depth + 1) := by
            rw [← Nat.pow_add]
            congr 1
            omega
          have head : partitionMultiplier base (depth + 1)
              (value ⌈/⌉ base ^ (levels + 1) * base ^ (levels + 1)).repr =
                some (value ⌈/⌉ base ^ (levels + 1) * base ^ (levels - depth)) := by
            have parsed := @partitionMultiplier_repr base (depth + 1)
              (value ⌈/⌉ base ^ (levels + 1) * base ^ (levels - depth))
              (Nat.mul_pos multiplierPos (Nat.pow_pos basePos)) basePos
            rwa [Nat.mul_assoc, ← power] at parsed
          rw [exponentialPartitionValues, List.map_cons, List.take_succ_cons, partitionMultipliers,
            prefixMultipliers]
          rw [← Nat.ceilDiv_eq_add_pred_div, rest, List.length_take, List.length_map,
            length_exponentialPartitionValues, Nat.min_eq_left depthLe, head]
          rfl

theorem prefixCapacity_one (value : ℕ) :
    prefixCapacity base (levels + 1) 1 value =
      value ⌈/⌉ base ^ (levels + 1) * base ^ (levels + 1) := by
  simp [prefixCapacity, surplus, leastMultiple]

/-- What the directory of a level adds to the levels below. -/
theorem prefixCapacity_succ (baseLarge : 1 < base) (valuePos : 0 < value) {depth : ℕ}
    (depthPos : 0 < depth) (isDepth : depth ≤ levels) :
    (value ⌈/⌉ base ^ (levels + 1) * base ^ (levels - depth) - 1) * base ^ (depth + 1) +
        prefixCapacity base levels depth
          (value - (value ⌈/⌉ base ^ (levels + 1) - 1) * base ^ (levels + 1)) =
      prefixCapacity base (levels + 1) (depth + 1) value := by
  have basePos : 0 < base := Nat.zero_lt_of_lt baseLarge
  have multiplierPos := @multiplier_pos base levels value baseLarge valuePos
  have remainderPos := @remainder_pos base levels value baseLarge valuePos
  obtain ⟨count, isCount⟩ : ∃ count, value ⌈/⌉ base ^ (levels + 1) = count + 1 :=
    Nat.exists_eq_succ_of_ne_zero multiplierPos.ne'
  obtain ⟨lower, isLower⟩ : ∃ lower, base ^ (levels - depth) = lower + 1 :=
    Nat.exists_eq_succ_of_ne_zero (Nat.pow_pos basePos).ne'
  have power : base ^ (levels + 1) = base ^ (levels - depth) * base ^ (depth + 1) := by
    rw [← Nat.pow_add]
    congr 1
    omega
  have unitPower : base ^ (levels + 1) = base ^ (levels - depth + 1) * base ^ depth := by
    rw [← Nat.pow_add]
    congr 1
    omega
  have surplusSucc : surplus base (depth + 1) = surplus base depth + base ^ (depth + 1) := by
    obtain ⟨before, rfl⟩ := Nat.exists_eq_succ_of_ne_zero depthPos.ne'
    exact Finset.sum_range_succ _ _
  -- Whole directories of this level are whole units of the level that is rounded at.
  have taken : count * base ^ (levels + 1) =
      base ^ (levels - depth + 1) * (count * base ^ depth) := by
    rw [unitPower]
    ring
  rw [isCount, Nat.add_sub_cancel] at remainderPos ⊢
  have rounded := @leastMultiple_sub_mul value _ (Nat.pow_pos basePos) _ (taken ▸ remainderPos.le)
  have roundedUp := (@isLeast_leastMultiple (base ^ (levels - depth + 1))
    (Nat.pow_pos basePos) value).1.2
  rw [← taken] at rounded
  obtain ⟨rest, isRest⟩ := Nat.exists_eq_add_of_le (remainderPos.le.trans roundedUp)
  simp only [prefixCapacity, Nat.add_sub_add_right]
  rw [rounded, isRest, Nat.add_sub_cancel_left, surplusSucc, power, isLower, Nat.add_sub_cancel]
  have folded : (count + 1) * (lower + 1) - 1 = count * (lower + 1) + lower := by
    rw [Nat.add_mul, Nat.one_mul, ← Nat.add_assoc, Nat.add_sub_cancel]
  rw [folded]
  ring

/-- The parsed value of the first directories, unless it exceeds 64 bits. -/
theorem totalContribution_prefixMultipliers (baseLarge : 1 < base) (valuePos : 0 < value)
    {depth : ℕ} (depthPos : 0 < depth) (isDepth : depth ≤ levels) (total : ℕ) :
    totalContribution base (prefixMultipliers base levels depth value) total =
      if total + prefixCapacity base levels depth value ≤ unsignedInt64MaxValue then
        some (total + prefixCapacity base levels depth value)
      else none := by
  induction depth generalizing levels value total with
  | zero => omega
  | succ depth ih =>
      cases levels with
      | zero => omega
      | succ levels =>
          have depthLe : depth ≤ levels := by omega
          have remainderPos := @remainder_pos base levels value baseLarge valuePos
          rw [prefixMultipliers, totalContribution]
          simp only [length_prefixMultipliers depthLe]
          rcases Nat.eq_zero_or_pos depth with rfl | below
          · have isLast : prefixMultipliers base levels 0
                (value - (value ⌈/⌉ base ^ (levels + 1) - 1) * base ^ (levels + 1)) = [] := by
              cases levels <;> rfl
            have capacity : value ⌈/⌉ base ^ (levels + 1) * base ^ (levels - 0) * base ^ (0 + 1) =
                prefixCapacity base (levels + 1) 1 value := by
              rw [prefixCapacity_one, Nat.mul_assoc, ← Nat.pow_add, Nat.sub_zero, Nat.zero_add]
            rw [isLast, if_pos rfl, capacity]
            simp only [totalContribution, gt_iff_lt, ← Nat.not_le, ite_not]
          · have notLast : prefixMultipliers base levels depth
                (value - (value ⌈/⌉ base ^ (levels + 1) - 1) * base ^ (levels + 1)) ≠ [] := by
              rw [← List.length_pos_iff, length_prefixMultipliers depthLe]
              exact below
            have capacity := prefixCapacity_succ baseLarge valuePos below depthLe
            rw [if_neg notLast, ih (by omega) below depthLe, Nat.add_assoc, capacity]
            split_ifs with exceeds fits fits
            · omega
            · rfl
            · rfl
            · rfl

/-- The first directories of a path are read back as their capacity, or not at all. -/
theorem parseExponentialPartitions_take (baseLarge : 1 < base) (valuePos : 0 < value) {depth : ℕ}
    (depthPos : 0 < depth) (isDepth : depth ≤ levels) :
    parseExponentialPartitions
        (((exponentialPartitionValues base levels value).map Nat.repr).take depth) base =
      if prefixCapacity base levels depth value ≤ unsignedInt64MaxValue then
        some (prefixCapacity base levels depth value)
      else none := by
  have nonempty :
      ((exponentialPartitionValues base levels value).map Nat.repr).take depth ≠ [] := by
    rw [← List.length_pos_iff, List.length_take, List.length_map,
      length_exponentialPartitionValues]
    omega
  have capacityPos : 1 ≤ prefixCapacity base levels depth value := by
    have unitPos : 0 < base ^ (levels - depth + 1) := Nat.pow_pos (Nat.zero_lt_of_lt baseLarge)
    have roundedUp := (isLeast_leastMultiple unitPos value).1.2
    unfold prefixCapacity
    omega
  rw [parseExponentialPartitions, if_neg nonempty,
    partitionMultipliers_take baseLarge valuePos isDepth]
  simp only [Option.bind_eq_bind, Option.bind_some, Nat.zero_add,
    totalContribution_prefixMultipliers baseLarge valuePos depthPos isDepth]
  split_ifs
  · simp [capacityPos]
  · rfl

/-- What `exponentialPartitionTransform` returns for a value that it does not reject. -/
structure IsWritten (base levels value : ℕ) (dirs : List String) : Prop where
  baseLarge : 1 < base
  levelsPos : 0 < levels
  valuePos : 0 < value
  isDirs : dirs = (exponentialPartitionValues base levels value).map Nat.repr
  fits : ∀ capacity ∈ exponentialPartitionValues base levels value,
    capacity ≤ unsignedInt64MaxValue

theorem exponentialPartitionTransform_eq_ok_iff {dirs : List String} :
    exponentialPartitionTransform value base levels = .ok dirs ↔
      IsWritten base levels value dirs := by
  constructor
  · intro written
    simp only [exponentialPartitionTransform] at written
    split_ifs at written with isZero isSmall noLevels exceeds
    cases written
    refine ⟨by omega, by omega, by omega, rfl, ?_⟩
    simpa using exceeds
  · rintro ⟨baseLarge, levelsPos, valuePos, rfl, fits⟩
    have notAbove : ¬(exponentialPartitionValues base levels value).any
        fun capacity => capacity > unsignedInt64MaxValue := by
      simpa using fits
    rw [exponentialPartitionTransform, if_neg valuePos.ne', if_neg (by omega), if_neg levelsPos.ne']
    exact if_neg notAbove

theorem prefixCapacity_levels (value : ℕ) :
    prefixCapacity base levels levels value = leastMultiple base value := by
  simp [prefixCapacity]

/-- A value that is not rejected is below the capacity of its outermost directory. -/
theorem IsWritten.leastMultiple_le {dirs : List String}
    (written : IsWritten base levels value dirs) :
    leastMultiple base value ≤ unsignedInt64MaxValue := by
  rcases written with ⟨baseLarge, levelsPos, -, -, fits⟩
  obtain ⟨below, rfl⟩ := Nat.exists_eq_succ_of_ne_zero levelsPos.ne'
  have basePos : 0 < base := Nat.zero_lt_of_lt baseLarge
  rw [exponentialPartitionValues, ← Nat.ceilDiv_eq_add_pred_div] at fits
  refine le_trans ?_ (fits _ List.mem_cons_self)
  apply (isLeast_leastMultiple basePos value).2
  refine ⟨Dvd.dvd.mul_left (dvd_pow_self base (Nat.succ_ne_zero below)) _, ?_⟩
  exact (isLeast_leastMultiple (Nat.pow_pos basePos) value).1.2

theorem IsWritten.parse_eq {dirs : List String} (written : IsWritten base levels value dirs) :
    parseExponentialPartitions dirs base = some (leastMultiple base value) := by
  have parsed := @parseExponentialPartitions_take base levels value written.baseLarge
    written.valuePos levels written.levelsPos le_rfl
  rw [prefixCapacity_levels, if_pos written.leastMultiple_le, List.take_of_length_le
    (by rw [List.length_map, length_exponentialPartitionValues])] at parsed
  rwa [written.isDirs]

theorem ceilDiv_ceilDiv {first second : ℕ} (firstPos : 0 < first) (secondPos : 0 < second)
    (value : ℕ) : value ⌈/⌉ first ⌈/⌉ second = value ⌈/⌉ (first * second) := by
  apply eq_of_forall_ge_iff
  intro bound
  rw [ceilDiv_le_iff_le_mul secondPos, ceilDiv_le_iff_le_mul firstPos,
    ceilDiv_le_iff_le_mul (Nat.mul_pos firstPos secondPos), Nat.mul_assoc]

/-- The directories depend on the least multiple of the base only. -/
theorem exponentialPartitionValues_congr (baseLarge : 1 < base) (valuePos : 0 < value)
    (otherPos : 0 < other) (same : leastMultiple base value = leastMultiple base other) :
    exponentialPartitionValues base levels value =
      exponentialPartitionValues base levels other := by
  induction levels generalizing value other with
  | zero => rfl
  | succ levels ih =>
      have basePos : 0 < base := Nat.zero_lt_of_lt baseLarge
      have sameQuotient : value ⌈/⌉ base = other ⌈/⌉ base := Nat.eq_of_mul_eq_mul_right basePos same
      have sameMultiplier : value ⌈/⌉ base ^ (levels + 1) = other ⌈/⌉ base ^ (levels + 1) := by
        rw [Nat.pow_succ', ← ceilDiv_ceilDiv basePos (Nat.pow_pos basePos),
          ← ceilDiv_ceilDiv basePos (Nat.pow_pos basePos), sameQuotient]
      have valueRemainder := @remainder_pos base levels value baseLarge valuePos
      have otherRemainder := @remainder_pos base levels other baseLarge otherPos
      have taken : (value ⌈/⌉ base ^ (levels + 1) - 1) * base ^ (levels + 1) =
          base * ((value ⌈/⌉ base ^ (levels + 1) - 1) * base ^ levels) := by
        rw [Nat.pow_succ']
        ring
      rw [exponentialPartitionValues, exponentialPartitionValues, ← Nat.ceilDiv_eq_add_pred_div,
        ← Nat.ceilDiv_eq_add_pred_div]
      rw [← sameMultiplier] at otherRemainder ⊢
      congr 1
      apply ih (by omega) (by omega)
      rw [taken] at valueRemainder otherRemainder ⊢
      rw [leastMultiple_sub_mul basePos valueRemainder.le,
        leastMultiple_sub_mul basePos otherRemainder.le, same]

/--
The encoding keeps the order of two values at every depth, stands for the least
multiple of the base, and gives the two values one path where these are equal.
-/
structure FaithfulPartitions (base levels value other : ℕ) (dirs otherDirs : List String) :
    Prop where
  ordered : value ≤ other → ∀ depth, 0 < depth → depth ≤ levels →
    ∃ capacity otherCapacity,
      parseExponentialPartitions (dirs.take depth) base = some capacity ∧
      parseExponentialPartitions (otherDirs.take depth) base = some otherCapacity ∧
      capacity ≤ otherCapacity
  least : ∃ capacity, parseExponentialPartitions dirs base = some capacity ∧
    IsLeast {multiple | base ∣ multiple ∧ value ≤ multiple} capacity
  same_iff : dirs = otherDirs ↔
    ∃ capacity, IsLeast {multiple | base ∣ multiple ∧ value ≤ multiple} capacity ∧
      IsLeast {multiple | base ∣ multiple ∧ other ≤ multiple} capacity

theorem IsWritten.eq_iff {dirs otherDirs : List String} (written : IsWritten base levels value dirs)
    (otherWritten : IsWritten base levels other otherDirs) :
    dirs = otherDirs ↔ leastMultiple base value = leastMultiple base other := by
  constructor
  · rintro rfl
    have parsed := written.parse_eq
    rwa [otherWritten.parse_eq, Option.some.injEq, eq_comm] at parsed
  · intro same
    rw [written.isDirs, otherWritten.isDirs, exponentialPartitionValues_congr written.baseLarge
      written.valuePos otherWritten.valuePos same]

/--
The order is kept unless the first directories of the greater value have too large
a surplus. There is none with up to two levels.
-/
theorem faithfulPartitions_iff {dirs otherDirs : List String}
    (written : exponentialPartitionTransform value base levels = .ok dirs)
    (otherWritten : exponentialPartitionTransform other base levels = .ok otherDirs) :
    FaithfulPartitions base levels value other dirs otherDirs ↔
      (value ≤ other → ∀ depth, 0 < depth → depth < levels →
        prefixCapacity base levels depth other ≤ unsignedInt64MaxValue) := by
  rw [exponentialPartitionTransform_eq_ok_iff] at written otherWritten
  have basePos : 0 < base := Nat.zero_lt_of_lt written.baseLarge
  have isLeast := @isLeast_leastMultiple base basePos
  constructor
  · intro faithful le depth depthPos isDepth
    rcases faithful.ordered le depth depthPos isDepth.le with ⟨-, otherCapacity, -, parsed, -⟩
    by_contra exceeds
    rw [otherWritten.isDirs, parseExponentialPartitions_take otherWritten.baseLarge
      otherWritten.valuePos depthPos isDepth.le, if_neg exceeds] at parsed
    cases parsed
  · intro fits
    refine ⟨?_, ⟨_, written.parse_eq, isLeast value⟩, ?_⟩
    · intro le depth depthPos isDepth
      have mono := @prefixCapacity_mono base levels basePos depth _ _ le
      have otherFits : prefixCapacity base levels depth other ≤ unsignedInt64MaxValue := by
        rcases isDepth.lt_or_eq with isInner | rfl
        · exact fits le depth depthPos isInner
        · rw [prefixCapacity_levels]
          exact otherWritten.leastMultiple_le
      refine ⟨_, _, ?_, ?_, mono⟩
      · rw [written.isDirs, parseExponentialPartitions_take written.baseLarge written.valuePos
          depthPos isDepth, if_pos (mono.trans otherFits)]
      · rw [otherWritten.isDirs, parseExponentialPartitions_take otherWritten.baseLarge
          otherWritten.valuePos depthPos isDepth, if_pos otherFits]
    · rw [written.eq_iff otherWritten]
      constructor
      · intro same
        exact ⟨_, isLeast value, same ▸ isLeast other⟩
      · rintro ⟨capacity, isCapacity, isOther⟩
        rw [(isLeast value).unique isCapacity, (isLeast other).unique isOther]

/-- With three levels of base 1000, as far as the first directories of a small value go. -/
theorem faithfulPartitions_small :
    FaithfulPartitions 1000 3 1500 2000500 ["1000000000", "1000000", "2000"]
      ["1000000000", "3000000", "1000"] :=
  (faithfulPartitions_iff (by decide +kernel) (by decide +kernel)).mpr
    (by
      intro _ depth depthPos isDepth
      interval_cases depth <;> decide +kernel)

/-- Two directories of the greatest values are read back as more than 64 bits. -/
theorem not_faithfulPartitions :
    ¬∀ (base levels value other : ℕ) (dirs otherDirs : List String),
      exponentialPartitionTransform value base levels = .ok dirs →
      exponentialPartitionTransform other base levels = .ok otherDirs →
        FaithfulPartitions base levels value other dirs otherDirs := by
  intro allFaithful
  have faithful := allFaithful 10 3 18446744073709551000 18446744073709551000
    ["18446744073709551000", "1000", "100"] ["18446744073709551000", "1000", "100"]
    (by decide +kernel) (by decide +kernel)
  rcases faithful.ordered le_rfl 2 (by norm_num) (by norm_num) with ⟨capacity, -, parsed, -⟩
  have rejected : parseExponentialPartitions
      (["18446744073709551000", "1000", "100"].take 2) 10 = none := by
    decide +kernel
  rw [rejected] at parsed
  cases parsed

end Deltacat.Utils
