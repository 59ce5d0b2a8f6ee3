import ParserCombinators.Proofs.Numeral.CheckedDigits
import ParserCombinators.Proofs.Numeral.DigitRun

/-! # Integer numerals are read exactly

* **`IntRange.readAs`** — what becomes of digits that have been read with a sign.
* **`Grammar.parse_natural`**, **`Grammar.parse_integer`** — a numeral is a run of digits, after its
  sign, whose integer is in the range.
* **`Grammar.parse_integer_of_numeralAt`** — what becomes of a numeral depends on its integer alone.
* **`Grammar.parse_integerNumerals`** — what the parsers of integers read, for every type and every
  content, and where they refuse it.

A run of digits is never cut: where its integer is not in the range, the content is refused. -/

namespace ParserCombinators

open Digits

variable {ν : Type} {τ : ν → Type}

/-- The outcome of having read a sign and digits: their integer, if it is in the range. -/
def IntRange.readAs (range : IntRange) (negative : Bool) (digits : List Char) (rest : Cursor Char) :
    Outcome Char Int :=
  if withSign negative (toNat digits) ∈ range then .matched (withSign negative (toNat digits)) rest
  else .noMatch

namespace Grammar

variable (g : Grammar Char τ) (range : IntRange) (c : Cursor Char)

/-- To accumulate the digits that a parser yields is to read them as an integer of the range. -/
theorem parse_filterMap_ofDigits? {α : Type} (p : Parser Char τ α) (negative : α → Bool)
    (digits : α → List Char) :
    g.parse (p.filterMap fun value => range.ofDigits? (negative value) (digits value)) c =
      (g.parse p c).bind fun value => range.readAs (negative value) (digits value) := by
  rw [parse_filterMap]
  congr 1
  funext value rest
  rw [range.ofDigits?_eq_check, IntRange.readAs]
  by_cases inside : withSign (negative value) (toNat (digits value)) ∈ range
  · rw [range.check_of_mem inside, if_pos inside]
  · rw [range.check_of_not_mem inside, if_neg inside]

/-- An unsigned numeral is its digits. -/
theorem parse_natural :
    g.parse (.natural range) c = (g.parse .digits c).bind (range.readAs false) :=
  g.parse_filterMap_ofDigits? range c .digits (fun _ => false) id

/-- A signed numeral is its digits, after a minus sign if one is next. -/
theorem parse_integer :
    g.parse (.integer range) c =
      if c.remaining.head? = some '-' then (g.parse .digits c.advance).bind (range.readAs true)
      else (g.parse .digits c).bind (range.readAs false) := by
  have accumulated : g.parse (.integer range) c =
      (g.parse (Parser.minus.optional.both .digits) c).bind fun value =>
        range.readAs value.1.isSome value.2 :=
    g.parse_filterMap_ofDigits? range c (Parser.minus.optional.both .digits)
      (fun value => value.1.isSome) Prod.snd
  rw [accumulated, parse_minus_both]
  -- what is done with the pair of a sign and digits is done with the digits, the sign being known
  by_cases minusNext : c.remaining.head? = some '-'
  · rw [if_pos minusNext, if_pos minusNext, Outcome.map_bind]
    rfl
  · rw [if_neg minusNext, if_neg minusNext, Outcome.map_bind]
    rfl

/-- Digits that are read as an integer of the range are a run of digits whose integer is in the
range. -/
theorem bind_readAs_eq_matched_iff {negative : Bool} {value : Int} {rest : Cursor Char} :
    (g.parse .digits c).bind (range.readAs negative) = .matched value rest ↔
      ∃ digits, DigitRun c.remaining digits rest.remaining ∧ rest = c.advanceBy digits.length ∧
        value = withSign negative (toNat digits) ∧ value ∈ range := by
  rw [Outcome.bind_eq_matched_iff]
  constructor
  · rintro ⟨digits, middle, read, accepted⟩
    obtain ⟨run, position⟩ := (g.parse_digits_eq_matched_iff c).1 read
    rw [IntRange.readAs] at accepted
    by_cases inside : withSign negative (toNat digits) ∈ range
    · rw [if_pos inside] at accepted
      cases accepted
      exact ⟨digits, run, position, rfl, inside⟩
    · rw [if_neg inside] at accepted
      cases accepted
  · rintro ⟨digits, run, position, rfl, inside⟩
    exact ⟨digits, rest, (g.parse_digits_eq_matched_iff c).2 ⟨run, position⟩, if_pos inside⟩

/-- Reading digits as an integer of a range ends. -/
theorem bind_readAs_ne_unfinished (negative : Bool) :
    (g.parse .digits c).bind (range.readAs negative) ≠ .unfinished := by
  refine Outcome.bind_ne_unfinished (g.parse_digits_ne_unfinished c) fun digits rest _ => ?_
  rw [IntRange.readAs]
  by_cases inside : withSign negative (toNat digits) ∈ range
  · rw [if_pos inside]
    exact Outcome.matched_ne_unfinished _ rest
  · rw [if_neg inside]
    exact Outcome.noMatch_ne_unfinished

/-- An unsigned numeral is read where one stands whose integer is in the range. -/
theorem parse_natural_eq_matched_iff {value : Int} {rest : Cursor Char} :
    g.parse (.natural range) c = .matched value rest ↔
      ∃ digits, NumeralAt c.remaining false digits rest.remaining ∧
        rest = c.advanceBy digits.length ∧
        value = withSign false (toNat digits) ∧ value ∈ range := by
  simp only [parse_natural, bind_readAs_eq_matched_iff, numeralAt_false_iff]

/-- A signed numeral is read where one stands whose integer is in the range. -/
theorem parse_integer_eq_matched_iff {value : Int} {rest : Cursor Char} :
    g.parse (.integer range) c = .matched value rest ↔
      ∃ negative digits, NumeralAt c.remaining negative digits rest.remaining ∧
        rest = c.advanceBy ((signText negative).length + digits.length) ∧
        value = withSign negative (toNat digits) ∧ value ∈ range := by
  rw [parse_integer]
  by_cases minusNext : c.remaining.head? = some '-'
  · obtain ⟨unsigned, content⟩ := List.head?_eq_some_iff.1 minusNext
    have afterMinus : c.advance.remaining = unsigned := by
      rw [Cursor.remaining_advance, content, List.tail_cons]
    rw [if_pos minusNext, bind_readAs_eq_matched_iff, afterMinus, content]
    simp [numeralAt_cons_minus, signText, Cursor.advanceBy_advance, Nat.add_comm]
  · rw [if_neg minusNext, bind_readAs_eq_matched_iff]
    simp [numeralAt_of_head?_ne minusNext, signText]

/-- Numerals always end. -/
theorem parse_natural_ne_unfinished : g.parse (.natural range) c ≠ .unfinished := by
  rw [parse_natural]
  exact g.bind_readAs_ne_unfinished range c false

/-- Signed numerals always end. -/
theorem parse_integer_ne_unfinished : g.parse (.integer range) c ≠ .unfinished := by
  rw [parse_integer]
  by_cases minusNext : c.remaining.head? = some '-'
  · rw [if_pos minusNext]
    exact g.bind_readAs_ne_unfinished range c.advance true
  · rw [if_neg minusNext]
    exact g.bind_readAs_ne_unfinished range c false

/-- An unsigned numeral is refused where none stands whose integer is in the range. -/
theorem parse_natural_eq_noMatch_iff :
    g.parse (.natural range) c = .noMatch ↔
      ∀ digits after, NumeralAt c.remaining false digits after →
        withSign false (toNat digits) ∉ range := by
  rw [Outcome.eq_noMatch_iff (g.parse_natural_ne_unfinished range c)]
  constructor
  · intro refused digits after numeral inside
    have rest : (c.advanceBy digits.length).remaining = after := by
      simpa [signText] using numeral.remaining_advanceBy
    exact refused _ _ ((g.parse_natural_eq_matched_iff range c).2
      ⟨digits, rest.symm ▸ numeral, rfl, rfl, inside⟩)
  · intro none value rest read
    obtain ⟨digits, numeral, -, rfl, inside⟩ := (g.parse_natural_eq_matched_iff range c).1 read
    exact none digits rest.remaining numeral inside

/-- A signed numeral is refused where none stands whose integer is in the range. -/
theorem parse_integer_eq_noMatch_iff :
    g.parse (.integer range) c = .noMatch ↔
      ∀ negative digits after, NumeralAt c.remaining negative digits after →
        withSign negative (toNat digits) ∉ range := by
  rw [Outcome.eq_noMatch_iff (g.parse_integer_ne_unfinished range c)]
  constructor
  · intro refused negative digits after numeral inside
    have rest := numeral.remaining_advanceBy
    exact refused _ _ ((g.parse_integer_eq_matched_iff range c).2
      ⟨negative, digits, rest.symm ▸ numeral, rfl, rfl, inside⟩)
  · intro none value rest read
    obtain ⟨negative, digits, numeral, -, rfl, inside⟩ :=
      (g.parse_integer_eq_matched_iff range c).1 read
    exact none negative digits rest.remaining numeral inside

/-- What becomes of a numeral depends on its integer alone. -/
theorem parse_integer_of_numeralAt {negative : Bool} {digits after : List Char}
    (numeral : NumeralAt c.remaining negative digits after) :
    g.parse (.integer range) c =
      range.readAs negative digits
        (c.advanceBy ((signText negative).length + digits.length)) := by
  rw [IntRange.readAs]
  by_cases inside : withSign negative (toNat digits) ∈ range
  · have rest := numeral.remaining_advanceBy
    rw [if_pos inside, parse_integer_eq_matched_iff]
    exact ⟨negative, digits, rest.symm ▸ numeral, rfl, rfl, inside⟩
  · -- no other numeral stands there
    rw [if_neg inside, parse_integer_eq_noMatch_iff]
    intro negative' digits' after' numeral'
    obtain ⟨rfl, rfl, -⟩ := numeral.unique numeral'
    exact inside

/-- Zeros are read as zero, with a minus sign too and in every range. -/
theorem parse_integer_of_zeros {negative : Bool} {digits after : List Char}
    (numeral : NumeralAt c.remaining negative digits after) (zeros : toNat digits = 0) :
    g.parse (.integer range) c =
      .matched 0 (c.advanceBy ((signText negative).length + digits.length)) := by
  rw [g.parse_integer_of_numeralAt range c numeral, IntRange.readAs, zeros, withSign_zero]
  exact if_pos range.zero_mem

/-- A numeral of the least integer of a range is read. -/
theorem parse_integer_of_least {negative : Bool} {digits after : List Char}
    (numeral : NumeralAt c.remaining negative digits after)
    (least : withSign negative (toNat digits) = range.least) :
    g.parse (.integer range) c =
      .matched range.least (c.advanceBy ((signText negative).length + digits.length)) := by
  rw [g.parse_integer_of_numeralAt range c numeral, IntRange.readAs, least]
  exact if_pos ⟨Int.le_refl _, range.least_nonpos.trans range.greatest_nonneg⟩

/-- A range without negative integers refuses the numerals of all of them. -/
theorem parse_integer_of_negative {digits after : List Char}
    (unsigned : range.least = 0) (numeral : NumeralAt c.remaining true digits after)
    (notZero : toNat digits ≠ 0) : g.parse (.integer range) c = .noMatch := by
  rw [g.parse_integer_of_numeralAt range c numeral, IntRange.readAs]
  refine if_neg fun inside => notZero ?_
  have above : range.least ≤ -(toNat digits : Int) := inside.1
  omega

/-- **Integer numerals are exact.** An unsigned numeral of a type matches where a run of digits
begins whose positional value is not above the greatest integer of the type. A signed one matches
where a run of digits begins, or a minus sign directly before one, if the integer that they denote
is one of the type. The match takes the whole numeral and yields its integer. Everything else is
refused: no run of digits is cut down to a beginning that would fit. -/
theorem parse_integerNumerals (type : IntType) :
    (∀ value rest, g.parse (.natural type.range) c = .matched value rest ↔
      ∃ digits, NumeralAt c.remaining false digits rest.remaining ∧
        rest = c.advanceBy digits.length ∧
        value = positionalValue digits ∧ value ≤ type.range.greatest) ∧
    (g.parse (.natural type.range) c = .noMatch ↔
      ∀ digits after, NumeralAt c.remaining false digits after →
        type.range.greatest < positionalValue digits) ∧
    (∀ value rest, g.parse (.integer type.range) c = .matched value rest ↔
      ∃ negative digits, NumeralAt c.remaining negative digits rest.remaining ∧
        rest = c.advanceBy ((signText negative).length + digits.length) ∧
        value = withSign negative (positionalValue digits) ∧ value ∈ type.range) ∧
    (g.parse (.integer type.range) c = .noMatch ↔
      ∀ negative digits after, NumeralAt c.remaining negative digits after →
        withSign negative (positionalValue digits) ∉ type.range) := by
  simp only [← toNat_eq_positionalValue]
  refine ⟨fun value rest => ?_, ?_, fun value rest => ?_, ?_⟩
  · rw [parse_natural_eq_matched_iff]
    refine exists_congr fun digits => and_congr_right fun _ => and_congr_right fun _ => ?_
    refine and_congr_right fun same => ?_
    rw [same]
    exact type.range.withSign_false_mem_iff (toNat digits)
  · rw [parse_natural_eq_noMatch_iff]
    refine forall₃_congr fun digits after _ => ?_
    rw [IntRange.withSign_false_mem_iff, Int.not_le]
  · exact g.parse_integer_eq_matched_iff type.range c
  · exact g.parse_integer_eq_noMatch_iff type.range c

end Grammar

end ParserCombinators
