import Mathlib.Data.List.Induction
import Mathlib.Data.Nat.Digits.Defs
import ParserCombinators.Numeral.IntRange

/-! # Checked accumulation of digits

Every step on the way from zero to the integer that digits denote goes away from zero, so an integer
on the way lies between zero and the last one. A range that has zero in it therefore has all of
them if it has the last one, and the checks on the way refuse nothing that the last one would not.

* **`Digits.positionalValue`** — the sum of the digits, each multiplied by a power of ten;
  **`Digits.toNat_eq_positionalValue`** — it is the number that the digits denote.
* **`Digits.withSign`** — the integer of a sign and a magnitude.
* **`IntRange.withSign_mem_of_le`** — a range has every integer between zero and one of its own.
* **`IntRange.ofDigits?_eq_check`** — checking every step is checking the result. -/

namespace ParserCombinators

namespace Digits

/-- No digits denote zero. -/
@[simp] theorem toNat_nil : toNat [] = 0 := rfl

/-- A digit after others shifts them by one place. -/
theorem toNat_append_singleton (digits : List Char) (digit : Char) :
    toNat (digits ++ [digit]) = toNat digits * 10 + value digit := by
  rw [toNat, List.foldl_append]
  rfl

/-- The positional value of digits: the last one counts once, and each of the others ten times as
much as it would one place further on. -/
def positionalValue (digits : List Char) : Nat :=
  Nat.ofDigits 10 (digits.map value).reverse

/-- The number that digits denote is their positional value. -/
theorem toNat_eq_positionalValue (digits : List Char) : toNat digits = positionalValue digits := by
  induction digits using List.reverseRecOn with
  | nil => rfl
  | append_singleton digits digit ih =>
      rw [toNat_append_singleton, ih, positionalValue, positionalValue, List.map_append,
        List.reverse_append, List.map_singleton, List.reverse_singleton, List.singleton_append,
        Nat.ofDigits_cons]
      omega

/-- The integer of a magnitude, negated if the sign tells so. -/
def withSign (negative : Bool) (magnitude : Nat) : Int :=
  if negative then -magnitude else magnitude

/-- Zero has no sign. -/
@[simp] theorem withSign_zero (negative : Bool) : withSign negative 0 = 0 := by
  cases negative <;> rfl

/-- The factor ten keeps the sign. -/
theorem withSign_mul_ten (negative : Bool) (magnitude : Nat) :
    withSign negative magnitude * 10 = withSign negative (magnitude * 10) := by
  cases negative <;> simp [withSign]

/-- A digit is put away from zero. -/
theorem withSign_add (negative : Bool) (magnitude further : Nat) :
    (if negative then withSign negative magnitude - further
      else withSign negative magnitude + further) = withSign negative (magnitude + further) := by
  cases negative <;> simp only [withSign, if_true, Bool.false_eq_true, if_false] <;> omega

end Digits

namespace IntRange

open Digits

variable (range : IntRange) (negative : Bool)

/-- A range has every integer between zero and one of its own. -/
theorem withSign_mem_of_le {magnitude greater : Nat} (le : magnitude ≤ greater)
    (inside : withSign negative greater ∈ range) : withSign negative magnitude ∈ range := by
  obtain ⟨above, below⟩ := inside
  have leastNonpos := range.least_nonpos
  have greatestNonneg := range.greatest_nonneg
  cases negative with
  | false =>
      simp only [withSign, Bool.false_eq_true, if_false] at above below ⊢
      exact ⟨by omega, by omega⟩
  | true =>
      simp only [withSign, if_true] at above below ⊢
      exact ⟨by omega, by omega⟩

/-- Whether a range has an integer without a sign is decided by its greatest one. -/
theorem withSign_false_mem_iff (magnitude : Nat) :
    withSign false magnitude ∈ range ↔ (magnitude : Int) ≤ range.greatest := by
  constructor
  · intro inside
    exact inside.2
  · intro below
    have leastNonpos := range.least_nonpos
    exact ⟨leastNonpos.trans (Int.natCast_nonneg magnitude), below⟩

/-- An integer of the range passes the check. -/
theorem check_of_mem {n : Int} (inside : n ∈ range) : range.check n = some n :=
  if_pos inside

/-- An integer outside the range does not pass the check. -/
theorem check_of_not_mem {n : Int} (outside : n ∉ range) : range.check n = none :=
  if_neg outside

/-- Before the check of an integer, the check of one on the way to it makes no difference. -/
theorem check_bind_check {magnitude greater : Nat} (le : magnitude ≤ greater) :
    ((range.check (withSign negative magnitude)).bind fun _ =>
      range.check (withSign negative greater)) = range.check (withSign negative greater) := by
  by_cases inside : withSign negative greater ∈ range
  · rw [range.check_of_mem (range.withSign_mem_of_le negative le inside), Option.bind_some]
  · rw [range.check_of_not_mem inside, Option.bind_fun_none]

/-- What follows a check goes on with the integer that was checked. -/
theorem check_bind {α : Type} (n : Int) (next : Int → Option α) :
    (range.check n).bind next = (range.check n).bind fun _ => next n := by
  by_cases inside : n ∈ range
  · rw [range.check_of_mem inside, Option.bind_some, Option.bind_some]
  · rw [range.check_of_not_mem inside, Option.bind_none, Option.bind_none]

/-- One step: a digit put after an integer gives the greater integer, if the range has it. -/
theorem appendDigit?_withSign (magnitude : Nat) (digit : Char) :
    range.appendDigit? negative (withSign negative magnitude) digit =
      range.check (withSign negative (magnitude * 10 + value digit)) := by
  have shift : magnitude * 10 ≤ magnitude * 10 + value digit := Nat.le_add_right _ _
  calc range.appendDigit? negative (withSign negative magnitude) digit
      = (range.check (withSign negative magnitude * 10)).bind fun shifted =>
          range.check (if negative then shifted - value digit else shifted + value digit) := rfl
    _ = (range.check (withSign negative (magnitude * 10))).bind fun _ =>
          range.check (withSign negative (magnitude * 10 + value digit)) := by
        rw [check_bind, withSign_mul_ten, withSign_add]
    _ = range.check (withSign negative (magnitude * 10 + value digit)) :=
        range.check_bind_check negative shift

/-- **Checked accumulation is exact.** The digits of a numeral are accumulated without an overflow
exactly when the integer that they denote is in the range; leading zeros do not matter. -/
theorem ofDigits?_eq_check (digits : List Char) :
    range.ofDigits? negative digits = range.check (withSign negative (toNat digits)) := by
  -- by the last digit, so that the total before it is one that was checked
  induction digits using List.reverseRecOn with
  | nil =>
      rw [toNat_nil, withSign_zero, range.check_of_mem range.zero_mem]
      rfl
  | append_singleton digits digit ih =>
      have shorter : toNat digits ≤ toNat digits * 10 + value digit := by omega
      calc range.ofDigits? negative (digits ++ [digit])
          = (range.ofDigits? negative digits).bind fun total =>
              range.appendDigit? negative total digit := by
            rw [ofDigits?, List.foldlM_append]
            simp [ofDigits?]
        _ = (range.check (withSign negative (toNat digits))).bind fun _ =>
              range.check (withSign negative (toNat (digits ++ [digit]))) := by
            rw [ih, check_bind, appendDigit?_withSign, toNat_append_singleton]
        _ = range.check (withSign negative (toNat (digits ++ [digit]))) := by
            rw [toNat_append_singleton]
            exact range.check_bind_check negative shorter

/-- The digits of the least integer of a type are accumulated, although its magnitude is not an
integer of the type. -/
example : (IntType.range .i8).ofDigits? true ['1', '2', '8'] = some (-128) := by decide

end IntRange

end ParserCombinators
