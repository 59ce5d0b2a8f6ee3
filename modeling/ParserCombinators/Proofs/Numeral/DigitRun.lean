import Mathlib.Data.List.TakeWhile
import ParserCombinators.Parser.Numeral
import ParserCombinators.Proofs.Repetition.Span

/-! # Runs of digits

* **`DigitRun`** — the digits at the beginning of a content, all that there are, and what comes
  after them.
* **`NumeralAt`** — a numeral at the beginning of a content: a minus sign if it is negative, and a
  run of digits.
* **`digitRun_iff`** — the run of digits of a content is unique: it is the span of the digits.
* **`numeralAt_cons_minus`**, **`numeralAt_of_head?_ne`** — the sign of a numeral is what the content
  starts with.
* **`Grammar.parse_optional_minus`** — a minus sign is read where it is next;
  **`Grammar.parse_minus_both`** — and something else behind it.
* **`Grammar.parse_digits_eq_matched_iff`** — the parser of digits reads the run of digits. -/

namespace ParserCombinators

/-- One or more digits at the beginning of the content, all that there are, and the rest of it. -/
structure DigitRun (content digits after : List Char) : Prop where
  /-- The content is made of the two. -/
  content_eq : content = digits ++ after
  /-- There is a digit. -/
  digits_ne_nil : digits ≠ []
  /-- The digits are digits. -/
  isDigit_of_mem : ∀ digit ∈ digits, digit.isDigit = true
  /-- The rest does not go on with a digit. -/
  not_isDigit_head : ∀ next ∈ after.head?, next.isDigit = false

/-- The text of a sign. -/
def signText (negative : Bool) : List Char :=
  if negative then ['-'] else []

/-- A numeral at the beginning of the content: its sign and its digits, all that there are, and the
rest of the content. -/
def NumeralAt (content : List Char) (negative : Bool) (digits after : List Char) : Prop :=
  ∃ unsigned, content = signText negative ++ unsigned ∧ DigitRun unsigned digits after

/-- A run of digits is the longest beginning of the content that consists of digits. -/
theorem digitRun_iff {content digits after : List Char} :
    DigitRun content digits after ↔
      digits ≠ [] ∧ content.takeWhile Char.isDigit = digits ∧
        content.dropWhile Char.isDigit = after := by
  constructor
  · rintro ⟨rfl, some, areDigits, ends⟩
    -- the span passes the digits and stops where the rest begins
    have stops : after.takeWhile Char.isDigit = [] ∧ after.dropWhile Char.isDigit = after := by
      cases after with
      | nil => exact ⟨rfl, rfl⟩
      | cons next others =>
          have other : ¬ next.isDigit = true := by
            rw [ends next rfl]
            exact Bool.false_ne_true
          exact ⟨List.takeWhile_cons_of_neg other, List.dropWhile_cons_of_neg other⟩
    rw [List.takeWhile_append_of_pos areDigits, List.dropWhile_append_of_pos areDigits, stops.1,
      stops.2, List.append_nil]
    exact ⟨some, rfl, rfl⟩
  · rintro ⟨some, rfl, rfl⟩
    refine ⟨List.takeWhile_append_dropWhile.symm, some, fun digit mem => ?_, fun next head => ?_⟩
    · exact List.mem_takeWhile_imp mem
    · have stopped := List.head?_dropWhile_not Char.isDigit content
      rw [Option.mem_def.1 head] at stopped
      simpa using stopped

/-- A run of digits starts with a digit. -/
theorem DigitRun.head?_ne {content digits after : List Char} (run : DigitRun content digits after)
    {c : Char} (other : c.isDigit = false) : content.head? ≠ some c := by
  obtain ⟨rfl, some, areDigits, -⟩ := run
  cases digits with
  | nil => exact absurd rfl some
  | cons digit others =>
      intro same
      have isDigit := areDigits digit List.mem_cons_self
      rw [List.cons_append, List.head?_cons, Option.some_inj] at same
      rw [same, other] at isDigit
      cases isDigit

/-- A numeral without a sign is a run of digits. -/
theorem numeralAt_false_iff {content digits after : List Char} :
    NumeralAt content false digits after ↔ DigitRun content digits after := by
  constructor
  · rintro ⟨body, same, run⟩
    obtain rfl : content = body := same
    exact run
  · intro run
    exact ⟨content, rfl, run⟩

/-- After a minus sign a numeral is negative. -/
theorem numeralAt_cons_minus {unsigned digits after : List Char} {negative : Bool} :
    NumeralAt ('-' :: unsigned) negative digits after ↔
      negative = true ∧ DigitRun unsigned digits after := by
  constructor
  · rintro ⟨body, same, run⟩
    cases negative with
    | true =>
        obtain rfl : unsigned = body := (List.cons.inj same).2
        exact ⟨rfl, run⟩
    | false =>
        obtain rfl : '-' :: unsigned = body := same
        exact absurd rfl (run.head?_ne (by decide))
  · rintro ⟨rfl, run⟩
    exact ⟨unsigned, rfl, run⟩

/-- Without a minus sign a numeral is its digits. -/
theorem numeralAt_of_head?_ne {content digits after : List Char} {negative : Bool}
    (noMinus : content.head? ≠ some '-') :
    NumeralAt content negative digits after ↔ negative = false ∧ DigitRun content digits after := by
  constructor
  · intro numeral
    cases negative with
    | true =>
        obtain ⟨body, rfl, -⟩ := numeral
        exact absurd rfl noMinus
    | false => exact ⟨rfl, numeralAt_false_iff.1 numeral⟩
  · rintro ⟨rfl, run⟩
    exact numeralAt_false_iff.2 run

/-- A content has at most one run of digits at its beginning. -/
theorem DigitRun.unique {content digits after digits' after' : List Char}
    (run : DigitRun content digits after) (run' : DigitRun content digits' after') :
    digits' = digits ∧ after' = after := by
  obtain ⟨-, rfl, rfl⟩ := digitRun_iff.1 run
  obtain ⟨-, rfl, rfl⟩ := digitRun_iff.1 run'
  exact ⟨rfl, rfl⟩

/-- A content has at most one numeral at its beginning. -/
theorem NumeralAt.unique {content digits after digits' after' : List Char}
    {negative negative' : Bool} (numeral : NumeralAt content negative digits after)
    (numeral' : NumeralAt content negative' digits' after') :
    negative' = negative ∧ digits' = digits ∧ after' = after := by
  by_cases minusNext : content.head? = some '-'
  · obtain ⟨unsigned, rfl⟩ := List.head?_eq_some_iff.1 minusNext
    obtain ⟨rfl, run⟩ := numeralAt_cons_minus.1 numeral
    obtain ⟨rfl, run'⟩ := numeralAt_cons_minus.1 numeral'
    exact ⟨rfl, run.unique run'⟩
  · obtain ⟨rfl, run⟩ := (numeralAt_of_head?_ne minusNext).1 numeral
    obtain ⟨rfl, run'⟩ := (numeralAt_of_head?_ne minusNext).1 numeral'
    exact ⟨rfl, run.unique run'⟩

/-- After the sign and the digits of a numeral stands the rest of the content. -/
theorem NumeralAt.remaining_advanceBy {c : Cursor Char} {negative : Bool} {digits after : List Char}
    (numeral : NumeralAt c.remaining negative digits after) :
    (c.advanceBy ((signText negative).length + digits.length)).remaining = after := by
  obtain ⟨unsigned, content, run⟩ := numeral
  rw [Cursor.remaining_advanceBy, content, run.content_eq, ← List.append_assoc, ← List.length_append,
    List.drop_left]

/-- The members of the set of digits are the decimal digits. -/
theorem CharSet.contains_decimalDigits : CharSet.decimalDigits.contains = Char.isDigit := by
  funext c
  rw [decimalDigits, contains_ofRange]
  rfl

namespace Grammar

variable {ν : Type} {τ : ν → Type} (g : Grammar Char τ) (c : Cursor Char)

/-- A given character is read where it is next. -/
theorem parse_char (expected : Char) :
    g.parse (.char expected) c =
      if c.remaining.head? = some expected then .matched expected c.advance else .noMatch := by
  rw [Parser.char, parse_satisfy]
  cases content : c.remaining with
  | nil =>
      rw [Parser.readElement_of_remaining_eq_nil _ content]
      rfl
  | cons head tail =>
      rw [Parser.readElement_of_remaining_eq_cons _ content, List.head?_cons]
      by_cases same : head = expected
      · subst same
        rw [if_pos (beq_self_eq_true head), if_pos rfl]
      · rw [if_neg (by simpa using same), if_neg fun equal => same (Option.some.inj equal)]

/-- A minus sign is taken where it is next. -/
theorem parse_optional_minus :
    g.parse Parser.minus.optional c =
      if c.remaining.head? = some '-' then .matched (some '-') c.advance else .matched none c := by
  rw [parse_optional, Parser.minus, parse_char]
  by_cases minusNext : c.remaining.head? = some '-'
  · rw [if_pos minusNext, if_pos minusNext]
    rfl
  · rw [if_neg minusNext, if_neg minusNext]
    rfl

/-- After a minus sign that may be missing, a parser reads where the minus sign ends. -/
theorem parse_minus_both {α : Type} (p : Parser Char τ α) :
    g.parse (Parser.minus.optional.both p) c =
      if c.remaining.head? = some '-' then (g.parse p c.advance).map fun value => (some '-', value)
      else (g.parse p c).map fun value => (none, value) := by
  rw [Parser.both, parse_sequence, parse_optional_minus]
  by_cases minusNext : c.remaining.head? = some '-'
  · rw [if_pos minusNext, if_pos minusNext, Outcome.bind_matched]
  · rw [if_neg minusNext, if_neg minusNext, Outcome.bind_matched]

/-- The parser of digits takes the span of the digits, if there is one. -/
theorem parse_digits :
    g.parse .digits c =
      if 1 ≤ (c.remaining.takeWhile Char.isDigit).length then
        .matched (c.remaining.takeWhile Char.isDigit)
          (c.advanceBy (c.remaining.takeWhile Char.isDigit).length)
      else .noMatch := by
  rw [Parser.digits, Parser.many1, Parser.digit, Parser.oneOf, CharSet.contains_decimalDigits]
  exact g.parse_repeated_satisfy Char.isDigit 1 c

/-- **The parser of digits is exact.** It matches where a run of digits begins, and takes the whole
run. -/
theorem parse_digits_eq_matched_iff {digits : List Char} {rest : Cursor Char} :
    g.parse .digits c = .matched digits rest ↔
      DigitRun c.remaining digits rest.remaining ∧ rest = c.advanceBy digits.length := by
  rw [parse_digits, digitRun_iff]
  constructor
  · intro found
    by_cases some : 1 ≤ (c.remaining.takeWhile Char.isDigit).length
    · rw [if_pos some] at found
      cases found
      exact ⟨⟨List.length_pos_iff.1 some, rfl, (c.remaining_advanceBy_span _).symm⟩, rfl⟩
    · rw [if_neg some] at found
      cases found
  · rintro ⟨⟨some, rfl, -⟩, rfl⟩
    exact if_pos (List.length_pos_iff.2 some)

/-- The parser of digits always ends. -/
theorem parse_digits_ne_unfinished : g.parse .digits c ≠ .unfinished := by
  rw [parse_digits]
  by_cases some : 1 ≤ (c.remaining.takeWhile Char.isDigit).length
  · rw [if_pos some]
    exact Outcome.matched_ne_unfinished _ _
  · rw [if_neg some]
    exact Outcome.noMatch_ne_unfinished

end Grammar

end ParserCombinators
