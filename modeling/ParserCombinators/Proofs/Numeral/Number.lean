import ParserCombinators.Proofs.Numeral.Decimal
import ParserCombinators.Proofs.Numeral.Integer
import ParserCombinators.Proofs.Numeral.Written

/-! # Numbers are decimal fractions or integers

A number is read as a decimal fraction and, where that is refused, from the same cursor as an integer.
A decimal fraction can be refused although one stands there, because it is too great for its format;
then the digits before its point are too great for an integer of 64 bits as well.

* **`DecimalAt.decimalValue_lt`** — a fraction adds less than one to the digits before the point.
* **`FloatType.two_pow_lt_overflowThreshold`** — the floating-point numbers of 64 bits overflow far
  above the integers of 64 bits.
* **`DecimalAt.withSign_not_mem_i64`** — if a decimal fraction overflows, the digits before its point
  are no integer of 64 bits.
* **`Grammar.parse_number_cases`** — what a number is read as, for every content: a decimal fraction
  if one stands there, otherwise an integer if a numeral does, and nothing else. -/

namespace ParserCombinators

open Digits

/-! ## The two ranges -/

/-- The digits of a run denote less than the power of ten that has one digit more. -/
theorem DigitRun.positionalValue_lt {content digits after : List Char}
    (run : DigitRun content digits after) : positionalValue digits < 10 ^ digits.length := by
  have small : ∀ d ∈ (digits.map value).reverse, d < 10 := by
    intro d mem
    obtain ⟨digit, inDigits, rfl⟩ := List.mem_map.1 (List.mem_reverse.1 mem)
    exact (digitChar_value (run.isDigit_of_mem digit inDigits)).1
  have bound := Nat.ofDigits_lt_base_pow_length (by decide) small
  rwa [List.length_reverse, List.length_map] at bound

/-- A fraction adds less than one to the digits before the point. -/
theorem DecimalAt.decimalValue_lt {content whole fraction after : List Char} {negative : Bool}
    (decimal : DecimalAt content negative whole fraction after) :
    decimalValue whole fraction < positionalValue whole + 1 := by
  obtain ⟨behind, -, run⟩ := decimal
  have scaled : (0 : ℚ) < 10 ^ fraction.length := by positivity
  have below : (positionalValue fraction : ℚ) / 10 ^ fraction.length < 1 := by
    rw [div_lt_one scaled]
    exact_mod_cast run.positionalValue_lt
  rw [decimalValue]
  linarith

/-- Floating-point numbers of 64 bits overflow far above the integers of 64 bits. -/
theorem FloatType.two_pow_lt_overflowThreshold : 2 ^ 63 + 1 < overflowThreshold .f64 := by
  have last : (2 : ℚ) ^ 64 ≤ 2 ^ 970 := pow_le_pow_right₀ (by norm_num) (by norm_num)
  have first : (2 : ℚ) ^ 1024 = 2 ^ 54 * 2 ^ 970 := by rw [← pow_add]
  rw [overflowThreshold, first]
  -- the great power stays unknown, because nothing but `last` has to be known of it
  generalize (2 : ℚ) ^ 970 = step at last
  linarith

/-- An integer of 64 bits is not above `2 ^ 63`, with either sign. -/
theorem IntType.le_of_withSign_mem_i64 {negative : Bool} {magnitude : Nat}
    (inside : withSign negative magnitude ∈ IntType.range .i64) : magnitude ≤ 2 ^ 63 := by
  have least : (IntType.range .i64).least = -2 ^ 63 := by decide
  have greatest : (IntType.range .i64).greatest = 2 ^ 63 - 1 := by decide
  obtain ⟨above, below⟩ := inside
  rw [least] at above
  rw [greatest] at below
  cases negative with
  | false =>
      have same : withSign false magnitude = magnitude := rfl
      omega
  | true =>
      have same : withSign true magnitude = -magnitude := rfl
      omega

/-- **A decimal fraction that is too great for a floating-point number of 64 bits has no integer of 64
bits before its point.** -/
theorem DecimalAt.withSign_not_mem_i64 {content whole fraction after : List Char} {negative : Bool}
    (decimal : DecimalAt content negative whole fraction after)
    (above : FloatType.overflowThreshold .f64 ≤ decimalValue whole fraction) :
    withSign negative (positionalValue whole) ∉ IntType.range .i64 := by
  intro inside
  -- the digits before the point would bring the whole number far below the threshold
  have small : (positionalValue whole : ℚ) ≤ 2 ^ 63 := by
    exact_mod_cast IntType.le_of_withSign_mem_i64 inside
  have less := decimal.decimalValue_lt
  have far := FloatType.two_pow_lt_overflowThreshold
  linarith

/-! ## Reading -/

namespace Grammar

variable {ν : Type} {τ : ν → Type} (g : Grammar Char τ) (c : Cursor Char)

/-- A number is read as a decimal fraction or, from the same cursor, as an integer. -/
theorem parse_number :
    g.parse .number c =
      ((g.parse (.decimal .binary64) c).map Number.real).orElse fun _ =>
        (g.parse (.integer (IntType.range .i64)) c).map Number.integer := by
  rw [Parser.number, parse_orElse, parse_map, parse_map, IntType.range]

section Fraction

variable {negative : Bool} {whole fraction after : List Char}
  (decimal : DecimalAt c.remaining negative whole fraction after)
include decimal

/-- Where a decimal fraction stands that is not too great, it is the number. -/
theorem parse_number_of_lt (below : decimalValue whole fraction < FloatType.overflowThreshold .f64) :
    ∃ bits, BinaryFormat.RoundsTo negative (decimalValue whole fraction) bits ∧
      g.parse .number c =
        .matched (.real bits) (c.advanceBy (decimalLength negative whole fraction)) := by
  have standard : BinaryFormat.binary64.IsStandard := FloatType.isStandard .f64
  rw [← FloatType.overflowThreshold_eq] at below
  obtain ⟨bits, rounds, read⟩ := g.parse_decimal_of_lt c standard decimal below
  refine ⟨bits, rounds, ?_⟩
  rw [parse_number, read, Outcome.map_matched, Outcome.orElse_matched]

/-- Where a decimal fraction stands that is too great, there is no number: the digits before its point
are refused as an integer. -/
theorem parse_number_of_le (above : FloatType.overflowThreshold .f64 ≤ decimalValue whole fraction) :
    g.parse .number c = .noMatch := by
  have standard : BinaryFormat.binary64.IsStandard := FloatType.isStandard .f64
  have outside := decimal.withSign_not_mem_i64 above
  rw [← toNat_eq_positionalValue] at outside
  rw [← FloatType.overflowThreshold_eq] at above
  have refused : g.parse (.decimal .binary64) c = .noMatch :=
    g.parse_decimal_of_le c standard decimal above
  -- the integer starts over at the sign and takes the digits before the point
  obtain ⟨behind, numeral, -⟩ := decimal
  rw [parse_number, refused, Outcome.map_noMatch, Outcome.orElse_noMatch,
    g.parse_integer_of_numeralAt _ c numeral, IntRange.readAs, if_neg outside, Outcome.map_noMatch]

end Fraction

/-- Where no decimal fraction stands, a number is an integer. -/
theorem parse_number_of_no_decimal
    (none : ∀ negative whole fraction after, ¬ DecimalAt c.remaining negative whole fraction after) :
    g.parse .number c = (g.parse (.integer (IntType.range .i64)) c).map Number.integer := by
  have refused : g.parse (.decimal .binary64) c = .noMatch := by
    rw [parse_decimal_eq_noMatch_iff]
    intro negative whole fraction after decimal
    exact absurd decimal (none negative whole fraction after)
  rw [parse_number, refused, Outcome.map_noMatch, Outcome.orElse_noMatch]

/-- **A number is never cut down to the digits before its point.** Where a decimal fraction stands, it
is read as a whole and rounded, or it overflows and is refused. Where none stands but a numeral, the
integer of all its digits is read if it is one of 64 bits, and refused otherwise; a point that follows
is left. Nothing else is a number. -/
theorem parse_number_cases :
    (∀ negative whole fraction after, DecimalAt c.remaining negative whole fraction after →
      decimalValue whole fraction < FloatType.overflowThreshold .f64 ∧
          (∃ bits rest, g.parse .number c = .matched (.real bits) rest ∧
            BinaryFormat.RoundsTo negative (decimalValue whole fraction) bits ∧
            rest = c.advanceBy (decimalLength negative whole fraction) ∧ rest.remaining = after) ∨
        FloatType.overflowThreshold .f64 ≤ decimalValue whole fraction ∧
          g.parse .number c = .noMatch) ∧
    ((∀ negative whole fraction after, ¬ DecimalAt c.remaining negative whole fraction after) →
      ∀ negative digits after, NumeralAt c.remaining negative digits after →
        withSign negative (positionalValue digits) ∈ IntType.range .i64 ∧
            (∃ rest, g.parse .number c =
                .matched (.integer (withSign negative (positionalValue digits))) rest ∧
              rest = c.advanceBy ((signText negative).length + digits.length) ∧
              rest.remaining = after) ∨
          withSign negative (positionalValue digits) ∉ IntType.range .i64 ∧
            g.parse .number c = .noMatch) ∧
    ((∀ negative digits after, ¬ NumeralAt c.remaining negative digits after) →
      g.parse .number c = .noMatch) := by
  refine ⟨fun negative whole fraction after decimal => ?_,
    fun none negative digits after numeral => ?_, fun noNumeral => ?_⟩
  · rcases lt_or_ge (decimalValue whole fraction) (FloatType.overflowThreshold .f64) with
      below | above
    · obtain ⟨bits, rounds, read⟩ := g.parse_number_of_lt c decimal below
      exact Or.inl ⟨below, bits, _, read, rounds, rfl, decimal.remaining_advanceBy⟩
    · exact Or.inr ⟨above, g.parse_number_of_le c decimal above⟩
  · rw [g.parse_number_of_no_decimal c none, g.parse_integer_of_numeralAt _ c numeral,
      IntRange.readAs, toNat_eq_positionalValue]
    by_cases inside : withSign negative (positionalValue digits) ∈ IntType.range .i64
    · rw [if_pos inside]
      exact Or.inl ⟨inside, _, rfl, rfl, numeral.remaining_advanceBy⟩
    · rw [if_neg inside]
      exact Or.inr ⟨inside, rfl⟩
  · have none : ∀ negative whole fraction after,
        ¬ DecimalAt c.remaining negative whole fraction after := by
      rintro negative whole fraction after ⟨behind, numeral, -⟩
      exact noNumeral negative whole ('.' :: behind) numeral
    have refused : g.parse (.integer (IntType.range .i64)) c = .noMatch := by
      rw [parse_integer_eq_noMatch_iff]
      intro negative digits after numeral
      exact absurd numeral (noNumeral negative digits after)
    rw [g.parse_number_of_no_decimal c none, refused, Outcome.map_noMatch]

/-- In `-0.5e` the fraction is read, in `-12.x` the integer before the point, which no digit follows,
and `x1` is no number. -/
theorem parse_number_cases_texts :
    let parseNumber := (ruleless (τ := fun _ => Nat)).parse .number
    let fraction := Cursor.ofBuffer #['-', '0', '.', '5', 'e']
    let point := Cursor.ofBuffer #['-', '1', '2', '.', 'x']
    let letter := Cursor.ofBuffer #['x', '1']
    DecimalAt fraction.remaining true ['0'] ['5'] ['e'] ∧
      (∃ bits, parseNumber fraction = .matched (.real bits) (fraction.advanceBy 4)) ∧
      NumeralAt point.remaining true ['1', '2'] ['.', 'x'] ∧
      (∀ negative whole fraction after, ¬ DecimalAt point.remaining negative whole fraction after) ∧
      parseNumber point = .matched (.integer (-12)) (point.advanceBy 3) ∧
      (∀ negative digits after, ¬ NumeralAt letter.remaining negative digits after) ∧
      parseNumber letter = .noMatch := by
  intro parseNumber fraction point letter
  have decimal : DecimalAt fraction.remaining true ['0'] ['5'] ['e'] :=
    ⟨['5', 'e'], ⟨_, rfl, digitRun_iff.2 ⟨List.cons_ne_nil _ _, rfl, rfl⟩⟩,
      digitRun_iff.2 ⟨List.cons_ne_nil _ _, rfl, rfl⟩⟩
  have numeral : NumeralAt point.remaining true ['1', '2'] ['.', 'x'] :=
    ⟨_, rfl, digitRun_iff.2 ⟨List.cons_ne_nil _ _, rfl, rfl⟩⟩
  have none : ∀ negative whole fraction after,
      ¬ DecimalAt point.remaining negative whole fraction after := by
    rintro negative whole fraction after ⟨behind, numeral', run⟩
    obtain ⟨-, -, same⟩ := numeral.unique numeral'
    obtain rfl : behind = ['x'] := (List.cons.inj same).2
    have other : Char.isDigit 'x' = false := by decide
    exact run.head?_ne other rfl
  have noNumeral : ∀ negative digits after,
      ¬ NumeralAt letter.remaining negative digits after := by
    intro negative digits after numeral'
    have noMinus : letter.remaining.head? ≠ some '-' := by decide
    obtain ⟨-, run⟩ := (numeralAt_of_head?_ne noMinus).1 numeral'
    have other : Char.isDigit 'x' = false := by decide
    exact run.head?_ne other rfl
  have below : decimalValue ['0'] ['5'] < FloatType.overflowThreshold .f64 := by
    have less := decimal.decimalValue_lt
    have zero : positionalValue ['0'] = 0 := by decide
    have far := FloatType.two_pow_lt_overflowThreshold
    rw [zero] at less
    norm_num at less far
    linarith
  have inside : withSign true (positionalValue ['1', '2']) ∈ IntType.range .i64 := by decide
  obtain ⟨ofFraction, -, -⟩ := (ruleless (τ := fun _ => Nat)).parse_number_cases fraction
  obtain ⟨-, ofPoint, -⟩ := (ruleless (τ := fun _ => Nat)).parse_number_cases point
  obtain ⟨-, -, ofLetter⟩ := (ruleless (τ := fun _ => Nat)).parse_number_cases letter
  refine ⟨decimal, ?_, numeral, none, ?_, noNumeral, ofLetter noNumeral⟩
  · rcases ofFraction _ _ _ _ decimal with ⟨-, bits, rest, read, -, rfl, -⟩ | ⟨above, -⟩
    · exact ⟨bits, read⟩
    · exact absurd above (not_le.2 below)
  · rcases ofPoint none _ _ _ numeral with ⟨-, rest, read, rfl, -⟩ | ⟨outside, -⟩
    · exact read
    · exact absurd inside outside

end Grammar

end ParserCombinators
