/-
# Numbers of any length

Numbers are compared as texts, by their lengths without leading zeros and then digit by digit. For
texts of ASCII digits that is the order of the natural numbers they write.
-/
import Mathlib.Algebra.Order.Ring.Nat
import Mathlib.Order.Compare
import Mathlib.Tactic.Linarith
import VersionRanges.Version.Part

namespace VersionRanges.Version.Part

/-- The natural number that a text of ASCII digits writes. -/
def value (digits : Text) : Nat := Nat.ofDigitChars 10 digits 0

/-- The number that one digit writes. -/
def digitValue (c : Char) : Nat := c.toNat - '0'.toNat

/-- A text of ASCII digits. -/
def IsDecimal (digits : Text) : Prop := ∀ c ∈ digits, c.isDigit = true

instance (digits : Text) : Decidable (IsDecimal digits) :=
  decidable_of_iff (digits.all Char.isDigit = true) List.all_eq_true

theorem IsDecimal.tail {c : Char} {rest : Text} (decimal : IsDecimal (c :: rest)) :
    IsDecimal rest :=
  fun d inside => decimal d (List.mem_cons_of_mem c inside)

theorem isDecimal_ofNat (n : Nat) : IsDecimal (Text.ofNat n) :=
  fun _ inside => Nat.isDigit_of_mem_toDigits (by norm_num) (by norm_num) inside

theorem value_ofNat (n : Nat) : value (Text.ofNat n) = n := Nat.ofDigitChars_ten_toDigits

theorem value_cons (c : Char) (rest : Text) :
    value (c :: rest) = 10 ^ rest.length * digitValue c + value rest := by
  rw [value, Nat.ofDigitChars_cons, Nat.ofDigitChars_eq_ofDigitChars_zero]
  simp [value, digitValue]

theorem toNat_of_isDigit {c : Char} (digit : c.isDigit = true) :
    48 ≤ c.toNat ∧ c.toNat ≤ 57 := by
  simpa [Char.isDigit, UInt32.le_iff_toNat_le] using digit

theorem digitValue_lt {c : Char} (digit : c.isDigit = true) : digitValue c < 10 := by
  have bounds := toNat_of_isDigit digit
  simp only [digitValue, Char.reduceToNat]
  omega

/-- A number stays below the power of ten that its length names. -/
theorem value_lt {digits : Text} (decimal : IsDecimal digits) :
    value digits < 10 ^ digits.length := by
  induction digits with
  | nil => simp [value]
  | cons c rest ih =>
      have first := digitValue_lt (decimal c List.mem_cons_self)
      have further := ih decimal.tail
      rw [value_cons, List.length_cons, pow_succ]
      nlinarith

/-- A number without leading zeros reaches the power of ten below its length. -/
theorem le_value {c : Char} {rest : Text} (digit : c.isDigit = true) (leading : c ≠ '0') :
    10 ^ rest.length ≤ value (c :: rest) := by
  have bounds := toNat_of_isDigit digit
  have code : c.toNat ≠ 48 := fun zero => leading (Char.toNat_inj.mp zero)
  have positive : 1 ≤ digitValue c := by
    simp only [digitValue, Char.reduceToNat]
    omega
  rw [value_cons]
  nlinarith [Nat.zero_le (value rest), Nat.pow_pos (n := rest.length) (show 0 < 10 by norm_num)]

/-- Leading zeros leave the number as it is. -/
theorem value_dropWhile_zero (digits : Text) :
    value (digits.dropWhile (· == '0')) = value digits := by
  induction digits with
  | nil => rfl
  | cons c rest ih =>
      by_cases zero : c = '0'
      · subst zero
        rw [List.dropWhile_cons_of_pos rfl, ih, value_cons]
        simp [digitValue]
      · rw [List.dropWhile_cons_of_neg (by simpa using zero)]

/-- An ASCII digit takes one byte. -/
theorem byteLength_of_isDecimal {digits : Text} (decimal : IsDecimal digits) :
    byteLength digits = digits.length := by
  induction digits with
  | nil => rfl
  | cons c rest ih =>
      have bounds := toNat_of_isDigit (decimal c List.mem_cons_self)
      have single : c.utf8Size = 1 := by
        rw [Char.utf8Size_eq_one_iff, UInt32.le_iff_toNat_le]
        exact bounds.2.trans (by decide)
      rw [byteLength, single, ih decimal.tail, List.length_cons, Nat.add_comm]

/-! ## Order -/

/-- Digits are ordered as characters in the same way as by value. -/
theorem compare_digits {c d : Char} (digit : c.isDigit = true) (digit' : d.isDigit = true) :
    (Ord.compare c d).Compares (digitValue c) (digitValue d) := by
  have bounds := toNat_of_isDigit digit
  have bounds' := toNat_of_isDigit digit'
  have less {x y : Char} : x < y ↔ x.toNat < y.toNat := UInt32.lt_iff_toNat_lt
  change (compareOfLessAndEq c d).Compares _ _
  rcases lt_trichotomy c.toNat d.toNat with below | same | above
  · rw [compareOfLessAndEq_eq_lt.mpr (less.mpr below)]
    simp only [Ordering.Compares, digitValue, Char.reduceToNat]
    omega
  · obtain rfl := Char.toNat_inj.mp same
    simp [compareOfLessAndEq, Ordering.Compares]
  · have apart : c ≠ d := by
      intro same
      subst same
      omega
    rw [compareOfLessAndEq, if_neg (by rw [less]; omega), if_neg apart]
    simp only [Ordering.Compares, digitValue, Char.reduceToNat]
    omega

/-- Numbers of one length are ordered digit by digit. -/
theorem compareLex_compares {first second : Text} (decimal : IsDecimal first)
    (decimal' : IsDecimal second) (length : first.length = second.length) :
    (List.compareLex Ord.compare first second).Compares (value first) (value second) := by
  induction first generalizing second with
  | nil =>
      obtain rfl := List.eq_nil_of_length_eq_zero length.symm
      rfl
  | cons c rest ih =>
      cases second with
      | nil => simp at length
      | cons d rest' =>
          have same : rest.length = rest'.length := by simpa using length
          have first := compare_digits (decimal c List.mem_cons_self)
            (decimal' d List.mem_cons_self)
          have further := ih decimal.tail decimal'.tail same
          have small := value_lt decimal.tail
          have small' := value_lt decimal'.tail
          rw [same] at small
          rw [List.compareLex_cons_cons, value_cons, value_cons, same]
          cases order : Ord.compare c d with
          | lt =>
              rw [order] at first
              simp only [Ordering.Compares] at first
              simp only [Ordering.lt_then, Ordering.Compares]
              nlinarith
          | gt =>
              rw [order] at first
              simp only [Ordering.Compares] at first
              simp only [Ordering.gt_then, Ordering.Compares]
              nlinarith
          | eq =>
              rw [order] at first
              rw [Ordering.eq_then, show digitValue c = digitValue d from first]
              cases tail : List.compareLex Ord.compare rest rest' <;>
                simp only [tail, Ordering.Compares] at further ⊢ <;> omega

/-- Without leading zeros, a longer number is a greater one. -/
theorem value_lt_of_length_lt {first second : Text} (decimal : IsDecimal first)
    (decimal' : IsDecimal second) (leading : second.head? ≠ some '0')
    (shorter : first.length < second.length) : value first < value second := by
  cases second with
  | nil => simp at shorter
  | cons d rest =>
      have distinct : d ≠ '0' := by simpa using leading
      calc
        value first < 10 ^ first.length := value_lt decimal
        _ ≤ 10 ^ rest.length :=
          Nat.pow_le_pow_right (by norm_num) (by simpa [Nat.lt_succ_iff] using shorter)
        _ ≤ value (d :: rest) := le_value (decimal' d List.mem_cons_self) distinct

/-- The comparison of numbers as texts is the comparison of the numbers that they write. -/
theorem compareNumbers_eq_cmp {first second : Text} (decimal : IsDecimal first)
    (decimal' : IsDecimal second) :
    compareNumbers first second = cmp (value first) (value second) := by
  have stripped {digits : Text} (decimal : IsDecimal digits) :
      IsDecimal (digits.dropWhile (· == '0')) :=
    fun c inside => decimal c ((List.dropWhile_sublist _).subset inside)
  have leading (digits : Text) : (digits.dropWhile (· == '0')).head? ≠ some '0' := by
    intro zero
    have kept := List.head?_dropWhile_not (· == '0') digits
    simp [zero] at kept
  have lengths : compareNumbers first second =
      (Ord.compare (first.dropWhile (· == '0')).length (second.dropWhile (· == '0')).length).then
        (List.compareLex Ord.compare (first.dropWhile (· == '0'))
          (second.dropWhile (· == '0'))) := by
    rw [← byteLength_of_isDecimal (stripped decimal),
      ← byteLength_of_isDecimal (stripped decimal')]
    rfl
  rw [lengths, ← value_dropWhile_zero first, ← value_dropWhile_zero second]
  symm
  apply Ordering.Compares.cmp_eq
  rcases lt_trichotomy (first.dropWhile (· == '0')).length
    (second.dropWhile (· == '0')).length with shorter | same | longer
  · rw [Nat.compare_eq_lt.mpr shorter]
    exact value_lt_of_length_lt (stripped decimal) (stripped decimal') (leading second) shorter
  · rw [Nat.compare_eq_eq.mpr same]
    exact compareLex_compares (stripped decimal) (stripped decimal') same
  · rw [Nat.compare_eq_gt.mpr longer]
    exact value_lt_of_length_lt (stripped decimal') (stripped decimal) (leading first) longer

end VersionRanges.Version.Part
