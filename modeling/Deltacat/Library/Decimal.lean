import Mathlib.Data.String.Basic
import Mathlib.Data.Nat.Digits.Lemmas
import Mathlib.Tactic

/-!
# Zero-padded decimal numerals

Numerals padded to a common width compare as texts in the way their values
compare as numbers. File names that begin with such a numeral are therefore
sorted by it first, whatever follows.
-/

namespace Deltacat.Library

theorem toString_injective {left right : ℕ} (same : toString left = toString right) :
    left = right := by
  have sameDigits : Nat.toDigits 10 left = Nat.toDigits 10 right := by
    simpa [Nat.repr] using congrArg String.toList same
  calc left = Nat.ofDigitChars 10 (Nat.toDigits 10 left) 0 := Nat.ofDigitChars_ten_toDigits.symm
    _ = Nat.ofDigitChars 10 (Nat.toDigits 10 right) 0 := by rw [sameDigits]
    _ = right := Nat.ofDigitChars_ten_toDigits

/-- The decimal numeral of `value`, padded with zeros to at least `width` digits. -/
def paddedDigits (width value : ℕ) : List Char :=
  (Nat.toDigits 10 value).leftpad width '0'

theorem length_paddedDigits {width value : ℕ} (positive : 0 < width) (fits : value < 10 ^ width) :
    (paddedDigits width value).length = width := by
  have short : (Nat.toDigits 10 value).length ≤ width :=
    (Nat.length_toDigits_le_iff (by norm_num) positive).mpr fits
  simp [paddedDigits, List.leftpad, short]

theorem isDigit_of_mem_paddedDigits {width value : ℕ} {char : Char}
    (charMem : char ∈ paddedDigits width value) : char.isDigit := by
  simp only [paddedDigits, List.leftpad, List.mem_append, List.mem_replicate] at charMem
  rcases charMem with ⟨_, rfl⟩ | digitMem
  · decide
  · exact Nat.isDigit_of_mem_toDigits (by norm_num) (by norm_num) digitMem

theorem ofDigitChars_paddedDigits (width value : ℕ) :
    Nat.ofDigitChars 10 (paddedDigits width value) 0 = value := by
  simp only [paddedDigits, List.leftpad, Nat.ofDigitChars_append,
    Nat.ofDigitChars_replicate_zero, Nat.mul_zero]
  exact Nat.ofDigitChars_ten_toDigits

/-- The value of a digit. -/
private theorem digit_lt_ten {char : Char} (isDigit : char.isDigit) :
    char.toNat - '0'.toNat < 10 := by
  simp only [Char.isDigit, Bool.and_eq_true, decide_eq_true_eq] at isDigit
  have upper := isDigit.2
  simp only [UInt32.le_iff_toNat_le] at upper
  change char.toNat ≤ 57 at upper
  change char.toNat - 48 < 10
  omega

private theorem digit_lt_digit {left right : Char} (leftDigit : left.isDigit)
    (smaller : left.toNat - '0'.toNat < right.toNat - '0'.toNat) : left < right := by
  simp only [Char.isDigit, Bool.and_eq_true, decide_eq_true_eq] at leftDigit
  have lower := leftDigit.1
  simp only [UInt32.le_iff_toNat_le] at lower
  change 48 ≤ left.toNat at lower
  change left.toNat - 48 < right.toNat - 48 at smaller
  have less : left.toNat < right.toNat := by omega
  exact less

private theorem digit_injective {left right : Char} (leftDigit : left.isDigit)
    (rightDigit : right.isDigit) (same : left.toNat - '0'.toNat = right.toNat - '0'.toNat) :
    left = right := by
  simp only [Char.isDigit, Bool.and_eq_true, decide_eq_true_eq] at leftDigit rightDigit
  have leftLower := leftDigit.1
  have rightLower := rightDigit.1
  simp only [UInt32.le_iff_toNat_le] at leftLower rightLower
  change 48 ≤ left.toNat at leftLower
  change 48 ≤ right.toNat at rightLower
  change left.toNat - 48 = right.toNat - 48 at same
  exact Char.toNat_inj.mp (by omega)

private theorem ofDigitChars_lt {digits : List Char} (allDigits : ∀ char ∈ digits, char.isDigit) :
    Nat.ofDigitChars 10 digits 0 < 10 ^ digits.length := by
  induction digits with
  | nil => simp
  | cons char digits ih =>
      have digitBound := digit_lt_ten (allDigits char (by simp))
      have tailBound := ih fun other otherMem => allDigits other (by simp [otherMem])
      rw [Nat.ofDigitChars_cons, Nat.ofDigitChars_eq_ofDigitChars_zero, List.length_cons, pow_succ]
      nlinarith [digitBound, tailBound]

/-- Digit lists of one length compare as their values do, whatever follows them. -/
theorem append_lt_append_of_ofDigitChars_lt {left right leftRest rightRest : List Char}
    (sameLength : left.length = right.length)
    (leftDigits : ∀ char ∈ left, char.isDigit) (rightDigits : ∀ char ∈ right, char.isDigit)
    (smaller : Nat.ofDigitChars 10 left 0 < Nat.ofDigitChars 10 right 0) :
    left ++ leftRest < right ++ rightRest := by
  induction left generalizing right with
  | nil =>
      have isNil : right = [] := List.length_eq_zero_iff.mp sameLength.symm
      simp [isNil] at smaller
  | cons leftChar left ih =>
      cases right with
      | nil => simp at sameLength
      | cons rightChar right =>
          simp only [List.length_cons, Nat.add_right_cancel_iff] at sameLength
          rw [Nat.ofDigitChars_cons, Nat.ofDigitChars_cons, Nat.ofDigitChars_eq_ofDigitChars_zero,
            Nat.ofDigitChars_eq_ofDigitChars_zero (l := right), sameLength] at smaller
          have leftBound := ofDigitChars_lt fun char charMem =>
            leftDigits char (List.mem_cons_of_mem leftChar charMem)
          have rightBound := ofDigitChars_lt fun char charMem =>
            rightDigits char (List.mem_cons_of_mem rightChar charMem)
          rw [sameLength] at leftBound
          rw [List.cons_append, List.cons_append, List.cons_lt_cons_iff]
          rcases Nat.lt_trichotomy (leftChar.toNat - '0'.toNat) (rightChar.toNat - '0'.toNat) with
            headLess | headEq | headGreater
          · exact Or.inl (digit_lt_digit (leftDigits leftChar (by simp)) headLess)
          · have sameHead : leftChar = rightChar :=
              digit_injective (leftDigits leftChar (by simp)) (rightDigits rightChar (by simp))
                headEq
            refine Or.inr ⟨sameHead, ih sameLength ?_ ?_ ?_⟩
            · exact fun char charMem => leftDigits char (List.mem_cons_of_mem _ charMem)
            · exact fun char charMem => rightDigits char (List.mem_cons_of_mem _ charMem)
            · rw [headEq] at smaller
              omega
          · nlinarith [headGreater, leftBound, rightBound]

/-- Padded numerals of one width compare as their values do, whatever follows them. -/
theorem paddedDigits_append_lt {width left right : ℕ} (positive : 0 < width)
    (smaller : left < right) (fits : right < 10 ^ width) (leftRest rightRest : List Char) :
    paddedDigits width left ++ leftRest < paddedDigits width right ++ rightRest := by
  apply append_lt_append_of_ofDigitChars_lt
  · rw [length_paddedDigits positive (smaller.trans fits), length_paddedDigits positive fits]
  · exact fun char charMem => isDigit_of_mem_paddedDigits charMem
  · exact fun char charMem => isDigit_of_mem_paddedDigits charMem
  · rw [ofDigitChars_paddedDigits, ofDigitChars_paddedDigits]
    exact smaller

section Reading

/-- The zeros of all scripts with decimal digits; the other nine digits follow each of them. -/
def decimalZeros : List ℕ :=
  [0x0030, 0x0660, 0x06f0, 0x07c0, 0x0966, 0x09e6, 0x0a66, 0x0ae6, 0x0b66, 0x0be6,
    0x0c66, 0x0ce6, 0x0d66, 0x0de6, 0x0e50, 0x0ed0, 0x0f20, 0x1040, 0x1090, 0x17e0,
    0x1810, 0x1946, 0x19d0, 0x1a80, 0x1a90, 0x1b50, 0x1bb0, 0x1c40, 0x1c50, 0xa620,
    0xa8d0, 0xa900, 0xa9d0, 0xa9f0, 0xaa50, 0xabf0, 0xff10, 0x104a0, 0x10d30, 0x11066,
    0x110f0, 0x11136, 0x111d0, 0x112f0, 0x11450, 0x114d0, 0x11650, 0x116c0, 0x11730, 0x118e0,
    0x11950, 0x11c50, 0x11d50, 0x11da0, 0x16a60, 0x16ac0, 0x16b50, 0x1d7ce, 0x1d7d8, 0x1d7e2,
    0x1d7ec, 0x1d7f6, 0x1e140, 0x1e2f0, 0x1e950, 0x1fbf0]

/-- The value of a decimal digit of any script. -/
def decimalDigit (char : Char) : Option ℕ :=
  (decimalZeros.find? fun first => first ≤ char.toNat ∧ char.toNat ≤ first + 9).map
    fun first => char.toNat - first

/-- The number that a text of decimal digits stands for. -/
def readDecimal (text : List Char) : Option ℕ :=
  if text = [] then none
  else text.foldlM (fun value char => (decimalDigit char).map (10 * value + ·)) 0

theorem decimalDigit_of_isDigit {char : Char} (isDigit : char.isDigit) :
    decimalDigit char = some (char.toNat - '0'.toNat) := by
  simp only [Char.isDigit, Bool.and_eq_true, decide_eq_true_eq, UInt32.le_iff_toNat_le] at isDigit
  have inRange : 0x30 ≤ char.toNat ∧ char.toNat ≤ 0x30 + 9 := isDigit
  simp only [decimalDigit, decimalZeros, List.find?_cons, inRange, and_self, decide_true,
    Option.map_some]
  rfl

theorem readDecimal_of_isDigit {digits : List Char} (nonempty : digits ≠ [])
    (areDigits : ∀ char ∈ digits, char.isDigit) :
    readDecimal digits = some (Nat.ofDigitChars 10 digits 0) := by
  have reads (rest : List Char) (value : ℕ) (restDigits : ∀ char ∈ rest, char.isDigit) :
      rest.foldlM (fun value char => (decimalDigit char).map (10 * value + ·)) value =
        some (Nat.ofDigitChars 10 rest value) := by
    induction rest generalizing value with
    | nil => rfl
    | cons char rest ih =>
        rw [List.foldlM_cons, decimalDigit_of_isDigit (restDigits char List.mem_cons_self),
          Nat.ofDigitChars_cons]
        exact ih _ fun other otherMem => restDigits other (List.mem_cons_of_mem _ otherMem)
  rw [readDecimal, if_neg nonempty, reads digits 0 areDigits]

@[simp]
theorem readDecimal_toDigits (number : ℕ) :
    readDecimal (Nat.toDigits 10 number) = some number := by
  rw [readDecimal_of_isDigit Nat.toDigits_ne_nil, Nat.ofDigitChars_ten_toDigits]
  exact fun char charMem => Nat.isDigit_of_mem_toDigits (by norm_num) (by norm_num) charMem

example : readDecimal "١٠٢".toList = some 102 := by decide +kernel

end Reading

end Deltacat.Library
