import Mathlib.Data.List.Induction
import ParserCombinators.Proofs.Numeral.CheckedDigits
import ParserCombinators.Proofs.Numeral.DigitRun

/-! # Written integers

An integer is written with a sign and digits in many ways, of which one is its decimal rendering:
without leading zeros, and without a sign before zero.

* **`WrittenInteger`** — a sign and digits; **`WrittenInteger.text`** and
  **`WrittenInteger.value`** — the characters and the integer.
* **`WrittenInteger.ofInt`** — an integer as it is rendered; **`WrittenInteger.text_ofInt`** and
  **`WrittenInteger.value_ofInt`** — it has the characters of the rendering and denotes the integer.
* **`WrittenInteger.canonicalText`** — the characters without leading zeros and without the sign of
  zero; **`WrittenInteger.toList_toString_value`** — this is how the integer is rendered.
* **`WrittenInteger.numeralAt_text`**, **`WrittenInteger.exists_of_numeralAt`** — the numerals at
  the beginning of a content are the written integers there. -/

namespace ParserCombinators

open Digits

/-! ## Digits of natural numbers -/

namespace Digits

/-- A zero in front of digits changes nothing. -/
theorem toNat_cons_zero (digits : List Char) : toNat ('0' :: digits) = toNat digits := rfl

/-- Without leading zeros the digits denote the same number. -/
theorem toNat_dropWhile_zero (digits : List Char) :
    toNat (digits.dropWhile (· == '0')) = toNat digits := by
  induction digits with
  | nil => rfl
  | cons digit others ih =>
      by_cases zero : digit = '0'
      · subst zero
        rw [List.dropWhile_cons_of_pos rfl, ih, toNat_cons_zero]
      · rw [List.dropWhile_cons_of_neg (by simpa using zero)]

/-- The digits of a number denote it. -/
theorem toNat_toDigits (n : Nat) : toNat (Nat.toDigits 10 n) = n := by
  have fold : toNat (Nat.toDigits 10 n) = Nat.ofDigitChars 10 (Nat.toDigits 10 n) 0 := by
    simp only [toNat, Nat.ofDigitChars, value, Nat.mul_comm]
  rw [fold, Nat.ofDigitChars_toDigits (by decide) (by decide)]

/-- A digit is the digit of the number that it denotes. -/
theorem digitChar_value {digit : Char} (isDigit : digit.isDigit = true) :
    value digit < 10 ∧ (value digit).digitChar = digit := by
  have bounds : 48 ≤ digit.toNat ∧ digit.toNat ≤ 57 := Char.isDigit_iff_toNat.1 isDigit
  have small : value digit < 10 := by
    simp only [value, Char.reduceToNat]
    omega
  refine ⟨small, Char.toNat_inj.1 ?_⟩
  rw [Nat.toNat_digitChar_of_lt_ten small, value]
  simp only [Char.reduceToNat]
  omega

/-- Digits that are not zero and are the digits of a number do not denote zero. -/
theorem toNat_pos_of_toDigits {digits : List Char} (head : digits.head? ≠ some '0')
    (rendered : Nat.toDigits 10 (toNat digits) = digits) : 0 < toNat digits := by
  refine Nat.pos_of_ne_zero fun zero => head ?_
  rw [zero, Nat.toDigits_zero] at rendered
  rw [← rendered]
  rfl

/-- Digits without a leading zero are the digits of the number that they denote. -/
theorem toDigits_toNat {digits : List Char} (nonempty : digits ≠ [])
    (areDigits : ∀ digit ∈ digits, digit.isDigit = true) (head : digits.head? ≠ some '0') :
    Nat.toDigits 10 (toNat digits) = digits := by
  induction digits using List.reverseRecOn with
  | nil => exact absurd rfl nonempty
  | append_singleton digits digit ih =>
      obtain ⟨small, same⟩ := digitChar_value (areDigits digit (by simp))
      have lastDigit : Nat.toDigits 10 (value digit) = [digit] := by
        rw [Nat.toDigits_of_lt_base small, same]
      rw [toNat_append_singleton]
      cases digits with
      | nil => simpa using lastDigit
      | cons first others =>
          have before := ih (List.cons_ne_nil first others)
            (fun d mem => areDigits d (List.mem_append_left _ mem)) head
          -- the digits before the last denote a number that is not zero
          have pos : 0 < toNat (first :: others) := toNat_pos_of_toDigits head before
          rw [Nat.mul_comm, ← Nat.toDigits_append_toDigits (by decide) pos small, before, lastDigit]

/-- The magnitude of an integer does not depend on its sign. -/
theorem natAbs_withSign (negative : Bool) (magnitude : Nat) :
    (withSign negative magnitude).natAbs = magnitude := by
  cases negative <;> simp [withSign]

/-- The sign of an integer other than zero shows. -/
theorem decide_withSign_neg (negative : Bool) {magnitude : Nat} (pos : 0 < magnitude) :
    decide (withSign negative magnitude < 0) = negative := by
  cases negative with
  | false => exact decide_eq_false (Int.not_lt.2 (Int.natCast_nonneg magnitude))
  | true => exact decide_eq_true (Int.neg_neg_of_pos (Int.natCast_pos.2 pos))

end Digits

/-! ## Integers with a sign -/

/-- An integer as it is written: a sign, if it is a minus sign, and digits. -/
structure WrittenInteger where
  /-- Whether there is a minus sign. -/
  negative : Bool
  /-- The digits. -/
  digits : List Char
  /-- There is a digit. -/
  digits_ne_nil : digits ≠ []
  /-- The digits are digits. -/
  isDigit_of_mem : ∀ digit ∈ digits, digit.isDigit = true

namespace WrittenInteger

/-- The characters of a written integer. -/
def text (n : WrittenInteger) : List Char :=
  signText n.negative ++ n.digits

/-- The integer that is written. -/
def value (n : WrittenInteger) : Int :=
  withSign n.negative (positionalValue n.digits)

/-- An integer, written as it is rendered. -/
def ofInt (v : Int) : WrittenInteger where
  negative := decide (v < 0)
  digits := Nat.toDigits 10 v.natAbs
  digits_ne_nil := Nat.toDigits_ne_nil
  isDigit_of_mem := fun _ mem => Nat.isDigit_of_mem_toDigits (by decide) (by decide) mem

/-- The characters that are left of a written integer without leading zeros and without the sign of
zero. -/
def canonicalText (n : WrittenInteger) : List Char :=
  if n.digits.dropWhile (· == '0') = [] then ['0']
  else signText n.negative ++ n.digits.dropWhile (· == '0')

/-- The rendering of an integer is its sign and the digits of its magnitude. -/
theorem toList_toString (v : Int) :
    (toString v).toList = signText (decide (v < 0)) ++ Nat.toDigits 10 v.natAbs := by
  rw [Int.toString_eq_repr, Int.repr_eq_if]
  by_cases nonneg : 0 ≤ v
  · have magnitude : v.toNat = v.natAbs := by omega
    rw [if_pos nonneg, Nat.toList_repr, magnitude, decide_eq_false (Int.not_lt.2 nonneg)]
    rfl
  · have magnitude : (-v).toNat = v.natAbs := by omega
    rw [if_neg nonneg, String.toList_append, Nat.toList_repr, magnitude,
      decide_eq_true (Int.not_le.1 nonneg)]
    rfl

/-- An integer that is written as it is rendered has the characters of its rendering. -/
theorem text_ofInt (v : Int) : (ofInt v).text = (toString v).toList :=
  (toList_toString v).symm

/-- An integer that is written as it is rendered is the one that is written. -/
theorem value_ofInt (v : Int) : (ofInt v).value = v := by
  rw [value, ← toNat_eq_positionalValue, ofInt, toNat_toDigits, withSign]
  by_cases negative : v < 0
  · rw [decide_eq_true negative, if_pos rfl]
    omega
  · rw [decide_eq_false negative, if_neg Bool.false_ne_true]
    omega

/-- **Rendering the integer that is written takes away the leading zeros and the sign of zero**, and
nothing else. -/
theorem toList_toString_value (n : WrittenInteger) :
    (toString n.value).toList = n.canonicalText := by
  have same := toNat_dropWhile_zero n.digits
  rw [value, ← toNat_eq_positionalValue, ← same, canonicalText, toList_toString]
  by_cases zeros : n.digits.dropWhile (· == '0') = []
  · rw [if_pos zeros, zeros, toNat_nil, withSign_zero]
    rfl
  · have areDigits : ∀ digit ∈ n.digits.dropWhile (· == '0'), digit.isDigit = true :=
      fun digit mem => n.isDigit_of_mem digit ((List.dropWhile_suffix _).subset mem)
    have noZero : (n.digits.dropWhile (· == '0')).head? ≠ some '0' := by
      intro zero
      have stopped := List.head?_dropWhile_not (· == '0') n.digits
      rw [zero] at stopped
      cases stopped
    have digits := toDigits_toNat zeros areDigits noZero
    have pos := toNat_pos_of_toDigits noZero digits
    rw [if_neg zeros, natAbs_withSign, digits, decide_withSign_neg n.negative pos]

/-- A written integer at the beginning of a content is a numeral there, if no digit follows. -/
theorem numeralAt_text (n : WrittenInteger) {after : List Char}
    (ends : ∀ next ∈ after.head?, next.isDigit = false) :
    NumeralAt (n.text ++ after) n.negative n.digits after :=
  ⟨n.digits ++ after, List.append_assoc _ _ _, rfl, n.digits_ne_nil, n.isDigit_of_mem, ends⟩

/-- A numeral at the beginning of a content is a written integer there. -/
theorem exists_of_numeralAt {content digits after : List Char} {negative : Bool}
    (numeral : NumeralAt content negative digits after) :
    ∃ n : WrittenInteger,
      n.negative = negative ∧ n.digits = digits ∧ content = n.text ++ after := by
  obtain ⟨unsigned, rfl, rfl, nonempty, areDigits, -⟩ := numeral
  exact ⟨⟨negative, digits, nonempty, areDigits⟩, rfl, rfl, (List.append_assoc _ _ _).symm⟩

end WrittenInteger

end ParserCombinators
