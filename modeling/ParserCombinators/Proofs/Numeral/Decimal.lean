import ParserCombinators.Proofs.Numeral.CheckedDigits
import ParserCombinators.Proofs.Numeral.DigitRun
import ParserCombinators.Proofs.Numeral.Encoding
import ParserCombinators.Proofs.Text.Literal

/-! # Decimal fractions are read exactly

* **`DecimalAt`** — a decimal fraction at the beginning of a content: a sign, digits, a point, and
  all the digits after it; **`DecimalAt.unique`** — there is at most one.
* **`decimalText`** — the digits of a decimal fraction as a text; **`BinaryFormat.ofText?_decimalText`**
  — what the text is rounded to is the quotient of its digits.
* **`Digits.decimalValue`** — the rational number that the digits before and after a point denote.
* **`FloatType`** — the types of binary floating-point numbers, each with its format and its
  overflow threshold.
* **`Grammar.parse_decimal_eq_matched_iff`**, **`Grammar.parse_decimal_eq_noMatch_iff`** — a decimal
  fraction is read where one stands that has bits in the format.
* **`Grammar.parse_decimalNumerals`** — what the parsers of decimal fractions read, for each type and
  every content, and where they refuse it.

The digits before and after the point are rounded as one quotient, so that nothing is rounded
twice, however many digits there are. The sign is set after the rounding, which does not depend on
it. -/

namespace ParserCombinators

open Digits

/-! ## Decimal fractions in a content -/

/-- A decimal fraction at the beginning of the content: its sign, the digits before the point, all the
digits after it, and the rest of the content. -/
def DecimalAt (content : List Char) (negative : Bool) (whole fraction after : List Char) : Prop :=
  ∃ behind, NumeralAt content negative whole ('.' :: behind) ∧ DigitRun behind fraction after

/-- The number of characters of a decimal fraction. -/
def decimalLength (negative : Bool) (whole fraction : List Char) : Nat :=
  (signText negative).length + whole.length + 1 + fraction.length

/-- The digits of a decimal fraction with the point between them, as a text. -/
def decimalText (whole fraction : List Char) : String :=
  String.ofList whole ++ "." ++ String.ofList fraction

/-- The characters of a decimal fraction. -/
theorem toList_decimalText (whole fraction : List Char) :
    (decimalText whole fraction).toList = whole ++ '.' :: fraction := by
  rw [decimalText, String.toList_append, String.toList_append, String.toList_ofList,
    String.toList_ofList, String.toList_ofList, List.append_assoc, List.singleton_append]

section Content

variable {content unsigned whole fraction after : List Char} {negative : Bool}

/-- After a minus sign a decimal fraction is negative. -/
theorem decimalAt_cons_minus :
    DecimalAt ('-' :: unsigned) negative whole fraction after ↔
      negative = true ∧ DecimalAt unsigned false whole fraction after := by
  simp [DecimalAt, numeralAt_cons_minus, numeralAt_false_iff, and_assoc]

/-- Without a minus sign a decimal fraction starts with its digits. -/
theorem decimalAt_of_head?_ne (noMinus : content.head? ≠ some '-') :
    DecimalAt content negative whole fraction after ↔
      negative = false ∧ DecimalAt content false whole fraction after := by
  simp [DecimalAt, numeralAt_of_head?_ne noMinus, and_assoc]

/-- A content has at most one decimal fraction at its beginning. -/
theorem DecimalAt.unique {whole' fraction' after' : List Char} {negative' : Bool}
    (decimal : DecimalAt content negative whole fraction after)
    (decimal' : DecimalAt content negative' whole' fraction' after') :
    negative' = negative ∧ whole' = whole ∧ fraction' = fraction ∧ after' = after := by
  obtain ⟨behind, numeral, run⟩ := decimal
  obtain ⟨behind', numeral', run'⟩ := decimal'
  obtain ⟨rfl, rfl, point⟩ := numeral.unique numeral'
  obtain rfl : behind' = behind := (List.cons.inj point).2
  obtain ⟨rfl, rfl⟩ := run.unique run'
  exact ⟨rfl, rfl, rfl, rfl⟩

/-- After the characters of a decimal fraction stands the rest of the content. -/
theorem DecimalAt.remaining_advanceBy {c : Cursor Char}
    (decimal : DecimalAt c.remaining negative whole fraction after) :
    (c.advanceBy (decimalLength negative whole fraction)).remaining = after := by
  obtain ⟨behind, numeral, run⟩ := decimal
  have point := numeral.remaining_advanceBy
  rw [decimalLength, Nat.add_assoc, Cursor.advanceBy_add, Cursor.remaining_advanceBy, point,
    run.content_eq, Nat.add_comm, List.drop_succ_cons, List.drop_left]

end Content

namespace Digits

/-- The rational number that the digits before and after a point denote. -/
def decimalValue (whole fraction : List Char) : ℚ :=
  positionalValue whole + positionalValue fraction / 10 ^ fraction.length

/-- To leave out the point is to multiply by ten for every digit after it. -/
theorem toNat_append_div (whole fraction : List Char) :
    ((toNat (whole ++ fraction) : ℚ) / (Nat.pow 10 fraction.length : Nat)) =
      decimalValue whole fraction := by
  have shifted : toNat (whole ++ fraction) =
      positionalValue whole * 10 ^ fraction.length + positionalValue fraction := by
    rw [toNat_eq_positionalValue, positionalValue, List.map_append, List.reverse_append,
      Nat.ofDigits_append, List.length_reverse, List.length_map, Nat.add_comm, Nat.mul_comm]
    rfl
  have scaled : (10 ^ fraction.length : ℚ) ≠ 0 := by positivity
  rw [shifted, decimalValue, Nat.pow_eq]
  push_cast
  rw [add_div, mul_div_cancel_right₀ _ scaled]

end Digits

/-! ## Rounding the digits -/

namespace BinaryFormat

/-- The bits of the number nearest to what the digits before and after a point denote, unless it is
infinite. -/
def ofDecimal? (format : BinaryFormat) (negative : Bool) (whole fraction : List Char) :
    Option (BitVec format.width) :=
  format.ofRatio? negative (toNat (whole ++ fraction)) (Nat.pow 10 fraction.length)

/-- **The text of a decimal fraction is rounded as the quotient of its digits.** -/
theorem ofText?_decimalText (format : BinaryFormat) {content whole fraction after : List Char}
    {negative : Bool} (decimal : DecimalAt content negative whole fraction after) :
    format.ofText? (decimalText whole fraction) =
      some (format.ofRatio (toNat (whole ++ fraction)) (Nat.pow 10 fraction.length)) := by
  obtain ⟨behind, ⟨unsigned, -, wholeRun⟩, fractionRun⟩ := decimal
  -- no digit is a point, so the first point of the text is the one between the digits
  have noDigit : ¬ Char.isDigit '.' = true := by decide
  have beforePoint : (whole ++ '.' :: fraction).takeWhile Char.isDigit = whole := by
    rw [List.takeWhile_append_of_pos wholeRun.isDigit_of_mem, List.takeWhile_cons_of_neg noDigit,
      List.append_nil]
  have fromPoint : (whole ++ '.' :: fraction).dropWhile Char.isDigit = '.' :: fraction := by
    rw [List.dropWhile_append_of_pos wholeRun.isDigit_of_mem, List.dropWhile_cons_of_neg noDigit]
  have digits : fraction.all Char.isDigit = true := List.all_eq_true.2 fractionRun.isDigit_of_mem
  have some : whole ++ fraction ≠ [] := fun none =>
    wholeRun.digits_ne_nil (List.append_eq_nil_iff.1 none).1
  simp only [ofText?, toList_decimalText, beforePoint, fromPoint, List.head?_cons, List.drop_one,
    List.tail_cons, true_and]
  exact if_pos ⟨digits, some⟩

/-- With its sign, the text of a decimal fraction has the bits that its digits have. -/
theorem ofSignedText?_decimalText (format : BinaryFormat) {content whole fraction after : List Char}
    {negative : Bool} (decimal : DecimalAt content negative whole fraction after) :
    format.ofSignedText? negative (decimalText whole fraction) =
      format.ofDecimal? negative whole fraction := by
  rw [ofSignedText?, format.ofText?_decimalText decimal]
  rfl

variable {format : BinaryFormat} (standard : format.IsStandard)
include standard

/-- The bits of a decimal fraction are those that the number it denotes rounds to, below the overflow
threshold. -/
theorem ofDecimal?_eq_some_iff {negative : Bool} {whole fraction : List Char}
    {bits : BitVec format.width} :
    format.ofDecimal? negative whole fraction = some bits ↔
      decimalValue whole fraction < format.overflowThreshold ∧
        RoundsTo negative (decimalValue whole fraction) bits := by
  have pos : 0 < Nat.pow 10 fraction.length := Nat.pow_pos (by decide)
  rw [ofDecimal?, ofRatio?_eq_some_iff standard _ _ pos, toNat_append_div]

/-- From the overflow threshold on a decimal fraction has no bits. -/
theorem ofDecimal?_eq_none_iff {negative : Bool} {whole fraction : List Char} :
    format.ofDecimal? negative whole fraction = none ↔
      format.overflowThreshold ≤ decimalValue whole fraction := by
  have pos : 0 < Nat.pow 10 fraction.length := Nat.pow_pos (by decide)
  rw [ofDecimal?, ofRatio?_eq_none_iff standard _ _ pos, toNat_append_div]

end BinaryFormat

/-! ## Floating-point types -/

/-- The types of binary floating-point numbers. -/
inductive FloatType where
  | f32 | f64
  deriving DecidableEq

namespace FloatType

/-- The format of a type. -/
def format : FloatType → BinaryFormat
  | f32 => .binary32
  | f64 => .binary64

/-- The magnitude from which on the numbers of a type are infinite. -/
def overflowThreshold : FloatType → ℚ
  | f32 => 2 ^ 128 - 2 ^ 103
  | f64 => 2 ^ 1024 - 2 ^ 970

/-- The formats of the types have a fraction, and exponents enough for it. -/
theorem isStandard (type : FloatType) : type.format.IsStandard := by
  cases type <;> exact ⟨by decide, by decide⟩

/-- The numbers of a type overflow halfway after the greatest number of its format. -/
theorem overflowThreshold_eq (type : FloatType) :
    type.format.overflowThreshold = type.overflowThreshold := by
  cases type <;> rfl

end FloatType

/-! ## Reading -/

namespace Grammar

variable {ν : Type} {τ : ν → Type} (g : Grammar Char τ) (c : Cursor Char)

/-- A value comes through a partial change from one where the change is defined. -/
theorem parse_filterMap_eq_matched_iff {α β : Type} {p : Parser Char τ α} {f : α → Option β}
    {changed : β} {rest : Cursor Char} :
    g.parse (p.filterMap f) c = .matched changed rest ↔
      ∃ value, g.parse p c = .matched value rest ∧ f value = some changed := by
  rw [parse_filterMap, Outcome.bind_eq_matched_iff]
  constructor
  · rintro ⟨value, middle, read, kept⟩
    cases defined : f value with
    | none =>
        rw [defined] at kept
        cases kept
    | some found =>
        rw [defined] at kept
        cases kept
        exact ⟨value, read, defined⟩
  · rintro ⟨value, read, defined⟩
    refine ⟨value, rest, read, ?_⟩
    rw [defined]

/-- A partial change ends where the reading does. -/
theorem parse_filterMap_ne_unfinished {α β : Type} {p : Parser Char τ α} {f : α → Option β}
    (ends : g.parse p c ≠ .unfinished) : g.parse (p.filterMap f) c ≠ .unfinished := by
  rw [parse_filterMap]
  refine Outcome.bind_ne_unfinished ends fun value rest _ => ?_
  split
  · exact Outcome.matched_ne_unfinished _ rest
  · exact Outcome.noMatch_ne_unfinished

/-- Two parsers in a row read a pair where the second reads on behind the first. -/
theorem parse_both_eq_matched_iff {α β : Type} {p : Parser Char τ α} {q : Parser Char τ β} {first : α}
    {second : β} {rest : Cursor Char} :
    g.parse (p.both q) c = .matched (first, second) rest ↔
      ∃ d, g.parse p c = .matched first d ∧ g.parse q d = .matched second rest := by
  rw [Parser.both, parse_sequence, Outcome.bind_eq_matched_iff]
  constructor
  · rintro ⟨value, d, read, further⟩
    obtain ⟨value', read', same⟩ := Outcome.map_eq_matched_iff.1 further
    cases same
    exact ⟨d, read, read'⟩
  · rintro ⟨d, read, further⟩
    exact ⟨first, d, read, Outcome.map_eq_matched_iff.2 ⟨second, further, rfl⟩⟩

/-- Digits are read as a text where a run of them begins. -/
theorem parse_digitString_eq_matched_iff {text : String} {rest : Cursor Char} :
    g.parse .digitString c = .matched text rest ↔
      ∃ digits, (DigitRun c.remaining digits rest.remaining ∧ rest = c.advanceBy digits.length) ∧
        String.ofList digits = text := by
  rw [Parser.digitString, parse_map, Outcome.map_eq_matched_iff]
  simp only [parse_digits_eq_matched_iff]

/-- Digits as a text always end. -/
theorem parse_digitString_ne_unfinished : g.parse .digitString c ≠ .unfinished := by
  rw [Parser.digitString, parse_map]
  exact Outcome.map_ne_unfinished (g.parse_digits_ne_unfinished c)

/-- Digits and a point are read where a run of digits ends at a point. -/
theorem parse_digitString_both_point_eq_matched_iff {text point : String} {rest : Cursor Char} :
    g.parse (Parser.digitString.both (.literal ".")) c = .matched (text, point) rest ↔
      ∃ whole, (DigitRun c.remaining whole ('.' :: rest.remaining) ∧
        rest = c.advanceBy (whole.length + 1)) ∧ String.ofList whole = text ∧ "." = point := by
  rw [parse_both_eq_matched_iff]
  constructor
  · rintro ⟨d, read, further⟩
    obtain ⟨whole, ⟨run, rfl⟩, rfl⟩ := (g.parse_digitString_eq_matched_iff c).1 read
    obtain ⟨⟨behind, split⟩, rfl, rfl⟩ := (g.parse_literal_eq_matched_iff _).1 further
    rw [← split] at run
    refine ⟨whole, ⟨?_, (Cursor.advanceBy_add c whole.length 1).symm⟩, rfl, rfl⟩
    rw [Cursor.remaining_advanceBy, ← split]
    exact run
  · rintro ⟨whole, ⟨run, rfl⟩, rfl, rfl⟩
    -- the point is what the digits leave
    have split : (c.advanceBy whole.length).remaining =
        '.' :: (c.advanceBy (whole.length + 1)).remaining := by
      rw [Cursor.remaining_advanceBy, run.content_eq, List.drop_left]
    refine ⟨c.advanceBy whole.length,
      (g.parse_digitString_eq_matched_iff c).2 ⟨whole, ⟨split ▸ run, rfl⟩, rfl⟩,
      (g.parse_literal_eq_matched_iff _).2 ⟨⟨_, split.symm⟩, rfl, ?_⟩⟩
    exact Cursor.advanceBy_add c whole.length 1

/-- Digits on both sides of a point are read, as a text, where a decimal fraction without a sign
stands. -/
theorem parse_decimalString_eq_matched_iff {text : String} {rest : Cursor Char} :
    g.parse .decimalString c = .matched text rest ↔
      ∃ whole fraction, (DecimalAt c.remaining false whole fraction rest.remaining ∧
        rest = c.advanceBy (decimalLength false whole fraction)) ∧
          decimalText whole fraction = text := by
  rw [Parser.decimalString, Parser.extendPair, parse_map, parse_sequence,
    Outcome.map_eq_matched_iff]
  constructor
  · rintro ⟨parts, read, rfl⟩
    obtain ⟨⟨wholeText, point⟩, d, front, back⟩ := Outcome.bind_eq_matched_iff.1 read
    obtain ⟨whole, ⟨run, rfl⟩, rfl, rfl⟩ :=
      (g.parse_digitString_both_point_eq_matched_iff c).1 front
    obtain ⟨fractionText, read', rfl⟩ := Outcome.map_eq_matched_iff.1 back
    obtain ⟨fraction, ⟨run', position⟩, rfl⟩ := (g.parse_digitString_eq_matched_iff _).1 read'
    refine ⟨whole, fraction, ⟨⟨_, numeralAt_false_iff.2 run, run'⟩, ?_⟩, rfl⟩
    rw [position, ← Cursor.advanceBy_add]
    simp [decimalLength, signText]
  · rintro ⟨whole, fraction, ⟨⟨behind, numeral, run⟩, rfl⟩, rfl⟩
    have wholeRun := numeralAt_false_iff.1 numeral
    have afterPoint : (c.advanceBy (whole.length + 1)).remaining = behind := by
      rw [Cursor.remaining_advanceBy, wholeRun.content_eq, ← List.drop_drop, List.drop_left]
      rfl
    have position : c.advanceBy (decimalLength false whole fraction) =
        (c.advanceBy (whole.length + 1)).advanceBy fraction.length := by
      rw [← Cursor.advanceBy_add]
      simp [decimalLength, signText]
    have front := (g.parse_digitString_both_point_eq_matched_iff c).2
      ⟨whole, ⟨afterPoint ▸ wholeRun, rfl⟩, rfl, rfl⟩
    have back := (g.parse_digitString_eq_matched_iff (c.advanceBy (whole.length + 1))).2
      ⟨fraction, ⟨afterPoint.symm ▸ run, position⟩, rfl⟩
    exact ⟨_, Outcome.bind_eq_matched_iff.2
      ⟨_, _, front, Outcome.map_eq_matched_iff.2 ⟨_, back, rfl⟩⟩, rfl⟩

/-- Digits on both sides of a point always end. -/
theorem parse_decimalString_ne_unfinished : g.parse .decimalString c ≠ .unfinished := by
  rw [Parser.decimalString, Parser.extendPair, Parser.both, parse_map, parse_sequence,
    parse_sequence]
  refine Outcome.map_ne_unfinished (Outcome.bind_ne_unfinished
    (Outcome.bind_ne_unfinished (g.parse_digitString_ne_unfinished c) fun whole d _ => ?_)
    fun parts d _ => ?_)
  · exact Outcome.map_ne_unfinished (g.parse_literal_ne_unfinished d ".")
  · exact Outcome.map_ne_unfinished (g.parse_digitString_ne_unfinished d)

/-- With the minus sign before it, the text is read where a decimal fraction stands. -/
theorem parse_signedDecimal_eq_matched_iff {minusSign : Option Char} {text : String}
    {rest : Cursor Char} :
    g.parse (Parser.minus.optional.both .decimalString) c = .matched (minusSign, text) rest ↔
      ∃ negative whole fraction, minusSign = (if negative then some '-' else none) ∧
        decimalText whole fraction = text ∧
        DecimalAt c.remaining negative whole fraction rest.remaining ∧
        rest = c.advanceBy (decimalLength negative whole fraction) := by
  rw [parse_minus_both]
  by_cases minusNext : c.remaining.head? = some '-'
  · obtain ⟨unsigned, content⟩ := List.head?_eq_some_iff.1 minusNext
    have afterMinus : c.advance.remaining = unsigned := by
      rw [Cursor.remaining_advance, content, List.tail_cons]
    have position (whole fraction : List Char) :
        c.advance.advanceBy (decimalLength false whole fraction) =
          c.advanceBy (decimalLength true whole fraction) := by
      rw [Cursor.advanceBy_advance]
      simp [decimalLength, signText, Nat.add_comm, Nat.add_left_comm]
    rw [if_pos minusNext, Outcome.map_eq_matched_iff, content]
    constructor
    · rintro ⟨value, read, same⟩
      cases same
      obtain ⟨whole, fraction, ⟨decimal, rfl⟩, same⟩ :=
        (g.parse_decimalString_eq_matched_iff c.advance).1 read
      rw [afterMinus] at decimal
      exact ⟨true, whole, fraction, rfl, same, decimalAt_cons_minus.2 ⟨rfl, decimal⟩, position _ _⟩
    · rintro ⟨negative, whole, fraction, rfl, same, decimal, rfl⟩
      obtain ⟨rfl, unsignedDecimal⟩ := decimalAt_cons_minus.1 decimal
      rw [← afterMinus] at unsignedDecimal
      exact ⟨_, (g.parse_decimalString_eq_matched_iff c.advance).2
        ⟨whole, fraction, ⟨unsignedDecimal, (position _ _).symm⟩, same⟩, rfl⟩
  · rw [if_neg minusNext, Outcome.map_eq_matched_iff]
    constructor
    · rintro ⟨value, read, same⟩
      cases same
      obtain ⟨whole, fraction, ⟨decimal, reached⟩, same⟩ :=
        (g.parse_decimalString_eq_matched_iff c).1 read
      exact ⟨false, whole, fraction, rfl, same, decimal, reached⟩
    · rintro ⟨negative, whole, fraction, rfl, same, decimal, reached⟩
      obtain ⟨rfl, unsignedDecimal⟩ := (decimalAt_of_head?_ne minusNext).1 decimal
      exact ⟨_, (g.parse_decimalString_eq_matched_iff c).2
        ⟨whole, fraction, ⟨unsignedDecimal, reached⟩, same⟩, rfl⟩

variable (format : BinaryFormat)

/-- A decimal fraction is read where one stands that has bits in the format. -/
theorem parse_decimal_eq_matched_iff {bits : BitVec format.width} {rest : Cursor Char} :
    g.parse (.decimal format) c = .matched bits rest ↔
      ∃ negative whole fraction, DecimalAt c.remaining negative whole fraction rest.remaining ∧
        rest = c.advanceBy (decimalLength negative whole fraction) ∧
        format.ofDecimal? negative whole fraction = some bits := by
  -- the text that is read and the digits that stand there have the same bits
  rw [Parser.decimal, parse_filterMap_eq_matched_iff]
  constructor
  · rintro ⟨⟨minusSign, text⟩, read, rounded⟩
    obtain ⟨negative, whole, fraction, rfl, rfl, decimal, position⟩ :=
      (g.parse_signedDecimal_eq_matched_iff c).1 read
    refine ⟨negative, whole, fraction, decimal, position, ?_⟩
    rw [← format.ofSignedText?_decimalText decimal]
    cases negative <;> exact rounded
  · rintro ⟨negative, whole, fraction, decimal, position, rounded⟩
    refine ⟨(if negative then some '-' else none, decimalText whole fraction),
      (g.parse_signedDecimal_eq_matched_iff c).2
        ⟨negative, whole, fraction, rfl, rfl, decimal, position⟩, ?_⟩
    rw [← format.ofSignedText?_decimalText decimal] at rounded
    cases negative <;> exact rounded

/-- Decimal fractions always end. -/
theorem parse_decimal_ne_unfinished : g.parse (.decimal format) c ≠ .unfinished := by
  rw [Parser.decimal]
  apply parse_filterMap_ne_unfinished
  rw [parse_minus_both]
  by_cases minusNext : c.remaining.head? = some '-'
  · rw [if_pos minusNext]
    exact Outcome.map_ne_unfinished (g.parse_decimalString_ne_unfinished c.advance)
  · rw [if_neg minusNext]
    exact Outcome.map_ne_unfinished (g.parse_decimalString_ne_unfinished c)

/-- A decimal fraction is refused where none stands that has bits in the format. -/
theorem parse_decimal_eq_noMatch_iff :
    g.parse (.decimal format) c = .noMatch ↔
      ∀ negative whole fraction after, DecimalAt c.remaining negative whole fraction after →
        format.ofDecimal? negative whole fraction = none := by
  rw [Outcome.eq_noMatch_iff (g.parse_decimal_ne_unfinished c format)]
  constructor
  · intro refused negative whole fraction after decimal
    rw [Option.eq_none_iff_forall_ne_some]
    intro bits rounded
    have rest := decimal.remaining_advanceBy
    exact refused _ _ ((g.parse_decimal_eq_matched_iff c format).2
      ⟨negative, whole, fraction, rest.symm ▸ decimal, rfl, rounded⟩)
  · intro none bits rest read
    obtain ⟨negative, whole, fraction, decimal, -, rounded⟩ :=
      (g.parse_decimal_eq_matched_iff c format).1 read
    rw [none negative whole fraction rest.remaining decimal] at rounded
    cases rounded

section Standard

variable {format} (standard : format.IsStandard) {negative : Bool} {whole fraction after : List Char}
include standard

/-- A decimal fraction below the overflow threshold is read as what it rounds to. -/
theorem parse_decimal_of_lt (decimal : DecimalAt c.remaining negative whole fraction after)
    (below : decimalValue whole fraction < format.overflowThreshold) :
    ∃ bits, BinaryFormat.RoundsTo negative (decimalValue whole fraction) bits ∧
      g.parse (.decimal format) c =
        .matched bits (c.advanceBy (decimalLength negative whole fraction)) := by
  have some : format.ofDecimal? negative whole fraction ≠ none := fun none =>
    not_le.2 below ((BinaryFormat.ofDecimal?_eq_none_iff standard).1 none)
  obtain ⟨bits, rounded⟩ := Option.ne_none_iff_exists'.1 some
  have rest := decimal.remaining_advanceBy
  exact ⟨bits, ((BinaryFormat.ofDecimal?_eq_some_iff standard).1 rounded).2,
    (g.parse_decimal_eq_matched_iff c format).2
      ⟨negative, whole, fraction, rest.symm ▸ decimal, rfl, rounded⟩⟩

/-- A decimal fraction from the overflow threshold on is refused. -/
theorem parse_decimal_of_le (decimal : DecimalAt c.remaining negative whole fraction after)
    (above : format.overflowThreshold ≤ decimalValue whole fraction) :
    g.parse (.decimal format) c = .noMatch := by
  rw [parse_decimal_eq_noMatch_iff]
  intro negative' whole' fraction' after' decimal'
  -- no other decimal fraction stands there
  obtain ⟨rfl, rfl, rfl, -⟩ := decimal.unique decimal'
  exact (BinaryFormat.ofDecimal?_eq_none_iff standard).2 above

end Standard

/-- **Decimal fractions are exact and never infinite.** One matches where an optional minus sign, a
run of digits, a point and a run of digits stand, if the number that the digits denote is below the
overflow threshold of the type. The match takes all of these characters. It yields the number
rounded once, to the nearest one of the type and to the even one of two, with the sign bit set if
the minus sign is there. Everything else is refused. -/
theorem parse_decimalNumerals (type : FloatType) :
    (∀ bits rest, g.parse (.decimal type.format) c = .matched bits rest ↔
      ∃ negative whole fraction, DecimalAt c.remaining negative whole fraction rest.remaining ∧
        rest = c.advanceBy (decimalLength negative whole fraction) ∧
        decimalValue whole fraction < type.overflowThreshold ∧
        BinaryFormat.RoundsTo negative (decimalValue whole fraction) bits) ∧
    ((∃ bits rest, g.parse (.decimal type.format) c = .matched bits rest) ↔
      ∃ negative whole fraction after, DecimalAt c.remaining negative whole fraction after ∧
        decimalValue whole fraction < type.overflowThreshold) ∧
    (g.parse (.decimal type.format) c = .noMatch ↔
      ∀ negative whole fraction after, DecimalAt c.remaining negative whole fraction after →
        type.overflowThreshold ≤ decimalValue whole fraction) := by
  have standard := type.isStandard
  simp only [← type.overflowThreshold_eq]
  refine ⟨fun bits rest => ?_, ?_, ?_⟩
  · simp only [parse_decimal_eq_matched_iff, BinaryFormat.ofDecimal?_eq_some_iff standard]
  · constructor
    · rintro ⟨bits, rest, read⟩
      obtain ⟨negative, whole, fraction, decimal, -, rounded⟩ :=
        (g.parse_decimal_eq_matched_iff c type.format).1 read
      exact ⟨negative, whole, fraction, rest.remaining, decimal,
        ((BinaryFormat.ofDecimal?_eq_some_iff standard).1 rounded).1⟩
    · rintro ⟨negative, whole, fraction, after, decimal, below⟩
      obtain ⟨bits, -, read⟩ := g.parse_decimal_of_lt c standard decimal below
      exact ⟨bits, _, read⟩
  · simp only [parse_decimal_eq_noMatch_iff, BinaryFormat.ofDecimal?_eq_none_iff standard]

/-- The integer after `2 ^ 24` lies halfway between two numbers of 32 bits. With a minus sign and a
fraction of zero, it is rounded to the even one. -/
theorem parse_decimalNumerals_tie :
    let start := Cursor.ofBuffer #['-', '1', '6', '7', '7', '7', '2', '1', '7', '.', '0', 'x']
    let bits : BitVec (FloatType.format .f32).width := 0xCB800000#32
    DecimalAt start.remaining true ['1', '6', '7', '7', '7', '2', '1', '7'] ['0'] ['x'] ∧
      (ruleless (τ := fun _ => Nat)).parse (.decimal (FloatType.format .f32)) start =
        .matched bits (start.advanceBy 11) ∧
      BinaryFormat.RoundsTo true (decimalValue ['1', '6', '7', '7', '7', '2', '1', '7'] ['0']) bits := by
  intro start bits
  have decimal : DecimalAt start.remaining true ['1', '6', '7', '7', '7', '2', '1', '7'] ['0']
      ['x'] :=
    ⟨['0', 'x'], ⟨_, rfl, digitRun_iff.2 ⟨List.cons_ne_nil _ _, rfl, rfl⟩⟩,
      digitRun_iff.2 ⟨List.cons_ne_nil _ _, rfl, rfl⟩⟩
  have rounded : (FloatType.format .f32).ofDecimal? true ['1', '6', '7', '7', '7', '2', '1', '7']
      ['0'] = some bits := by decide
  have read : (ruleless (τ := fun _ => Nat)).parse (.decimal (FloatType.format .f32)) start =
      .matched bits (start.advanceBy 11) :=
    (parse_decimal_eq_matched_iff _ _ _).2 ⟨true, _, _, decimal, rfl, rounded⟩
  obtain ⟨negative, whole, fraction, decimal', -, -, rounds⟩ :=
    ((ruleless (τ := fun _ => Nat)).parse_decimalNumerals start .f32).1 bits _ |>.1 read
  obtain ⟨rfl, rfl, rfl, -⟩ := decimal.unique decimal'
  exact ⟨decimal, read, rounds⟩

end Grammar

end ParserCombinators
