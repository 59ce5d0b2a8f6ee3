import ParserCombinators.Proofs.Input.Agreement
import ParserCombinators.Proofs.Numeral.Integer
import ParserCombinators.Proofs.Numeral.Written

/-! # Lists of integers

Integers with commas between them are read as far as each comma has an integer of the range behind
it. Reading undoes rendering, and the texts that are read as a whole are the written integers of the
range with commas between them.

* **`followersText`** — written integers of which each stands behind a comma.
* **`Grammar.parse_integer_of_text`** — a written integer is read, or refused as a whole.
* **`Grammar.whileAdvancing_afterComma`**, **`Grammar.exists_of_whileAdvancing_afterComma`** — the
  integers behind commas, as far as there are any, in both directions.
* **`Grammar.parse_integerList`** — lists of integers of every type. -/

namespace ParserCombinators

open Digits Repetition

/-- The characters of written integers of which each stands behind a comma. -/
def followersText (numerals : List WrittenInteger) : List Char :=
  numerals.flatMap fun n => ',' :: n.text

/-- Integers with commas between them are a first one and others behind commas. -/
theorem intercalate_text (first : WrittenInteger) (others : List WrittenInteger) :
    [','].intercalate ((first :: others).map WrittenInteger.text) =
      first.text ++ followersText others := by
  induction others generalizing first with
  | nil => simp [followersText]
  | cons next others ih =>
      rw [List.map_cons, List.map_cons, List.intercalate_cons_cons, ← List.map_cons, ih]
      simp [followersText]

/-- The renderings of integers with commas between them, character by character. -/
theorem toList_intercalate_toString (values : List Int) :
    (",".intercalate (values.map toString)).toList =
      [','].intercalate (values.map fun v => (toString v).toList) := by
  rw [String.toList_intercalate, List.map_map]
  rfl

/-- Behind integers with a comma before each of them no digit follows if none follows at the end. -/
theorem head?_followersText_append {after : List Char} (numerals : List WrittenInteger)
    (ends : ∀ next ∈ after.head?, next.isDigit = false) :
    ∀ next ∈ (followersText numerals ++ after).head?, next.isDigit = false := by
  cases numerals with
  | nil => exact ends
  | cons n others =>
      intro next head
      cases head
      rfl

namespace Grammar

variable {ν : Type} {τ : ν → Type} (g : Grammar Char τ) (range : IntRange)

/-- **A written integer is read if it is in the range and otherwise refused as a whole.** -/
theorem parse_integer_of_text (n : WrittenInteger) {c : Cursor Char} {after : List Char}
    (content : c.remaining = n.text ++ after) (ends : ∀ next ∈ after.head?, next.isDigit = false) :
    g.parse (.integer range) c =
      if n.value ∈ range then .matched n.value (c.advanceBy n.text.length) else .noMatch := by
  have numeral : NumeralAt c.remaining n.negative n.digits after := content ▸ n.numeralAt_text ends
  rw [g.parse_integer_of_numeralAt range c numeral, IntRange.readAs, toNat_eq_positionalValue,
    WrittenInteger.text, List.length_append]
  rfl

/-- An integer that is read is written at the beginning of the content. -/
theorem exists_text_of_parse_integer {c rest : Cursor Char} {v : Int}
    (found : g.parse (.integer range) c = .matched v rest) :
    ∃ n : WrittenInteger,
      c.remaining = n.text ++ rest.remaining ∧ n.value ∈ range ∧ v = n.value := by
  obtain ⟨negative, digits, numeral, -, same, inside⟩ :=
    (g.parse_integer_eq_matched_iff range c).1 found
  obtain ⟨n, rfl, rfl, content⟩ := WrittenInteger.exists_of_numeralAt numeral
  rw [toNat_eq_positionalValue] at same
  obtain rfl : v = n.value := same
  exact ⟨n, content, inside, rfl⟩

/-- Reads a comma and an integer behind it. -/
def afterComma (c : Cursor Char) : Outcome Char Int :=
  (g.parse (.char ',') c).bind fun _ behind => g.parse (.integer range) behind

/-- Where a comma is next, the integer behind it is read. -/
theorem afterComma_of_cons {c : Cursor Char} {tail : List Char}
    (content : c.remaining = ',' :: tail) :
    g.afterComma range c = g.parse (.integer range) c.advance ∧ c.advance.remaining = tail := by
  constructor
  · rw [afterComma, parse_char, content, List.head?_cons, if_pos rfl, Outcome.bind_matched]
  · rw [Cursor.remaining_advance, content, List.tail_cons]

/-- Where no comma is next, no further integer is read. -/
theorem afterComma_of_head?_ne {c : Cursor Char} (noComma : c.remaining.head? ≠ some ',') :
    g.afterComma range c = .noMatch := by
  rw [afterComma, parse_char, if_neg noComma, Outcome.bind_noMatch]

/-- Integers of the range behind commas are read up to a place where no further one is. -/
theorem whileAdvancing_afterComma {numerals : List WrittenInteger} {after : List Char}
    (inRange : ∀ n ∈ numerals, n.value ∈ range)
    (ends : ∀ next ∈ after.head?, next.isDigit = false)
    (refused : ∀ d : Cursor Char, d.remaining = after → g.afterComma range d = .noMatch)
    {c : Cursor Char} (content : c.remaining = followersText numerals ++ after) :
    ∃ rest, whileAdvancing (g.afterComma range) c =
        .matched (numerals.map WrittenInteger.value) rest ∧ rest.remaining = after := by
  induction numerals generalizing c with
  | nil =>
      refine ⟨c, ?_, content⟩
      rw [whileAdvancing, refused c content]
      rfl
  | cons n others ih =>
      have split : c.remaining = ',' :: (n.text ++ (followersText others ++ after)) := by
        rw [content]
        simp [followersText]
      obtain ⟨round, behind⟩ := g.afterComma_of_cons range split
      rw [g.parse_integer_of_text range n behind (head?_followersText_append others ends),
        if_pos (inRange n List.mem_cons_self)] at round
      have next :
          (c.advance.advanceBy n.text.length).remaining = followersText others ++ after := by
        rw [Cursor.remaining_advanceBy, behind, List.drop_left]
      have fewer : (c.advance.advanceBy n.text.length).remainingCount < c.remainingCount := by
        rw [← Cursor.length_remaining, ← Cursor.length_remaining, next, split]
        simp only [List.length_cons, List.length_append]
        omega
      obtain ⟨rest, found, last⟩ := ih (fun m mem => inRange m (List.mem_cons_of_mem n mem)) next
      refine ⟨rest, ?_, last⟩
      rw [whileAdvancing, round]
      simp only [if_pos fewer, found, Outcome.map_matched, List.map_cons]

/-- What is read of integers behind commas is written there. -/
theorem exists_of_whileAdvancing_afterComma {c rest : Cursor Char} {values : List Int}
    (found : whileAdvancing (g.afterComma range) c = .matched values rest) :
    ∃ numerals : List WrittenInteger, c.remaining = followersText numerals ++ rest.remaining ∧
      (∀ n ∈ numerals, n.value ∈ range) ∧ values = numerals.map WrittenInteger.value := by
  induction c using whileAdvancing.induct (g.afterComma range) generalizing values with
  | case1 c value middle round advances ih =>
      rw [whileAdvancing, round] at found
      simp only [if_pos advances] at found
      obtain ⟨others, tail, rfl⟩ := Outcome.map_eq_matched_iff.1 found
      obtain ⟨numerals, content, inRange, rfl⟩ := ih tail
      have comma : ∃ behind, c.remaining = ',' :: behind := by
        by_cases head : c.remaining.head? = some ','
        · exact List.head?_eq_some_iff.1 head
        · rw [g.afterComma_of_head?_ne range head] at round
          cases round
      obtain ⟨behind, split⟩ := comma
      obtain ⟨step, here⟩ := g.afterComma_of_cons range split
      obtain ⟨n, written, inside, rfl⟩ := g.exists_text_of_parse_integer range (step ▸ round)
      refine ⟨n :: numerals, ?_, ?_, rfl⟩
      · rw [split, ← here, written, content]
        simp [followersText]
      · intro m mem
        rcases List.mem_cons.1 mem with rfl | mem
        · exact inside
        · exact inRange m mem
  | case2 c value middle round stands =>
      rw [whileAdvancing, round] at found
      simp only [if_neg stands] at found
      cases found
  | case3 c round =>
      rw [whileAdvancing, round] at found
      cases found
      exact ⟨[], rfl, by simp, rfl⟩
  | case4 c round =>
      rw [whileAdvancing, round] at found
      cases found

/-- A list is its first integer and those behind commas. -/
theorem parse_separated_comma (c : Cursor Char) :
    g.parse ((Parser.integer range).separated (Parser.char ',')) c =
      (g.parse (.integer range) c).bind fun first rest =>
        (whileAdvancing (g.afterComma range) rest).map (first :: ·) :=
  g.parse_separated c (Parser.integer range) (Parser.char ',')

/-- Written integers of the range with commas between them are read as a list, up to a place where
no further one is. -/
theorem parse_separated_of_text {numerals : List WrittenInteger} {after : List Char}
    (nonempty : numerals ≠ []) (inRange : ∀ n ∈ numerals, n.value ∈ range)
    (ends : ∀ next ∈ after.head?, next.isDigit = false)
    (refused : ∀ d : Cursor Char, d.remaining = after → g.afterComma range d = .noMatch)
    {c : Cursor Char}
    (content : c.remaining = [','].intercalate (numerals.map WrittenInteger.text) ++ after) :
    ∃ rest, g.parse ((Parser.integer range).separated (Parser.char ',')) c =
        .matched (numerals.map WrittenInteger.value) rest ∧ rest.remaining = after := by
  obtain ⟨first, others, rfl⟩ := List.exists_cons_of_ne_nil nonempty
  rw [intercalate_text, List.append_assoc] at content
  have next : (c.advanceBy first.text.length).remaining = followersText others ++ after := by
    rw [Cursor.remaining_advanceBy, content, List.drop_left]
  obtain ⟨rest, found, last⟩ := g.whileAdvancing_afterComma range
    (fun n mem => inRange n (List.mem_cons_of_mem first mem)) ends refused next
  refine ⟨rest, ?_, last⟩
  rw [parse_separated_comma,
    g.parse_integer_of_text range first content (head?_followersText_append others ends),
    if_pos (inRange first List.mem_cons_self), Outcome.bind_matched, found]
  rfl

/-- A list that is read is written as integers of the range with commas between them. -/
theorem exists_text_of_parse_separated {c rest : Cursor Char} {values : List Int}
    (found : g.parse ((Parser.integer range).separated (Parser.char ',')) c =
      .matched values rest) :
    ∃ numerals : List WrittenInteger, numerals ≠ [] ∧
      c.remaining = [','].intercalate (numerals.map WrittenInteger.text) ++ rest.remaining ∧
      (∀ n ∈ numerals, n.value ∈ range) ∧ values = numerals.map WrittenInteger.value := by
  rw [parse_separated_comma] at found
  obtain ⟨v, middle, read, found⟩ := Outcome.bind_eq_matched_iff.1 found
  obtain ⟨followers, tail, rfl⟩ := Outcome.map_eq_matched_iff.1 found
  obtain ⟨first, content, inside, rfl⟩ := g.exists_text_of_parse_integer range read
  obtain ⟨others, content', inRange, rfl⟩ := g.exists_of_whileAdvancing_afterComma range tail
  refine ⟨first :: others, List.cons_ne_nil first others, ?_, ?_, rfl⟩
  · rw [intercalate_text, List.append_assoc, ← content', content]
  · intro n mem
    rcases List.mem_cons.1 mem with rfl | mem
    · exact inside
    · exact inRange n mem

/-- The renderings of integers of the range with commas between them are read as these integers, up
to a place where no further one is. -/
theorem parse_separated_of_rendering {values : List Int} {after : List Char}
    (nonempty : values ≠ []) (inRange : ∀ v ∈ values, v ∈ range)
    (ends : ∀ next ∈ after.head?, next.isDigit = false)
    (refused : ∀ d : Cursor Char, d.remaining = after → g.afterComma range d = .noMatch)
    {c : Cursor Char}
    (content : c.remaining = (",".intercalate (values.map toString)).toList ++ after) :
    ∃ rest, g.parse ((Parser.integer range).separated (Parser.char ',')) c = .matched values rest ∧
      rest.remaining = after := by
  have sameValues : (values.map WrittenInteger.ofInt).map WrittenInteger.value = values := by
    simp [Function.comp_def, WrittenInteger.value_ofInt]
  have sameText : (values.map WrittenInteger.ofInt).map WrittenInteger.text =
      values.map fun v => (toString v).toList := by
    simp only [List.map_map, Function.comp_def, WrittenInteger.text_ofInt]
  rw [toList_intercalate_toString, ← sameText] at content
  have found := g.parse_separated_of_text range (by simpa using nonempty) ?_ ends refused content
  · rwa [sameValues] at found
  · intro n mem
    obtain ⟨v, member, rfl⟩ := List.mem_map.1 mem
    rw [WrittenInteger.value_ofInt]
    exact inRange v member

/-- **Lists of integers: reading undoes rendering, and nothing but lists is read.** For every type,
the renderings of its integers with commas between them, in front of the end of the input or of a
character that is neither a digit nor a comma, are read as these integers, and what follows them is
left. In front of a comma and an integer outside the type, the list ends before the comma. A text is
read as a whole exactly if it consists of one or more written integers of the type with commas
between them. Rendering what is read gives the text back, without leading zeros and without the sign
of zero. -/
theorem parse_integerList (type : IntType) :
    (∀ (values : List Int) (suffix : List Char) (c : Cursor Char), values ≠ [] →
      (∀ v ∈ values, v ∈ type.range) →
      (∀ next ∈ suffix.head?, next.isDigit = false ∧ next ≠ ',') →
      c.remaining = (",".intercalate (values.map toString)).toList ++ suffix →
      ∃ rest, g.parse ((Parser.integer type.range).separated (Parser.char ',')) c =
        .matched values rest ∧ rest.remaining = suffix) ∧
    (∀ (values : List Int) (n : WrittenInteger) (suffix : List Char) (c : Cursor Char),
      values ≠ [] → (∀ v ∈ values, v ∈ type.range) → n.value ∉ type.range →
      (∀ next ∈ suffix.head?, next.isDigit = false) →
      c.remaining = (",".intercalate (values.map toString)).toList ++ ',' :: (n.text ++ suffix) →
      ∃ rest, g.parse ((Parser.integer type.range).separated (Parser.char ',')) c =
        .matched values rest ∧ rest.remaining = ',' :: (n.text ++ suffix)) ∧
    (∀ (text : String) (values : List Int),
      (Input.ofString text).parseComplete g
          ((Parser.integer type.range).separated (Parser.char ',')) = .ok values ↔
        ∃ numerals : List WrittenInteger, numerals ≠ [] ∧
          text.toList = [','].intercalate (numerals.map WrittenInteger.text) ∧
          (∀ n ∈ numerals, n.value ∈ type.range) ∧ values = numerals.map WrittenInteger.value) ∧
    ∀ numerals : List WrittenInteger,
      (",".intercalate ((numerals.map WrittenInteger.value).map toString)).toList =
        [','].intercalate (numerals.map WrittenInteger.canonicalText) := by
  refine ⟨fun values suffix c nonempty inRange ends content => ?_,
    fun values n suffix c nonempty inRange outside ends content => ?_, fun text values => ?_,
    fun numerals => ?_⟩
  · refine g.parse_separated_of_rendering type.range nonempty inRange
      (fun next head => (ends next head).1) (fun d left => ?_) content
    refine g.afterComma_of_head?_ne type.range fun comma => ?_
    rw [left] at comma
    exact (ends ',' comma).2 rfl
  · refine g.parse_separated_of_rendering type.range nonempty inRange ?_ (fun d left => ?_) content
    · intro next head
      cases head
      rfl
    · obtain ⟨step, behind⟩ := g.afterComma_of_cons type.range left
      rw [step, g.parse_integer_of_text type.range n behind ends, if_neg outside]
  · have start : (Input.ofString text).cursor.remaining = text.toList := by
      rw [Input.cursor, Cursor.remaining_ofBuffer, Input.toList_chars_ofString]
    rw [Input.parseComplete_eq_ok_iff]
    constructor
    · rintro ⟨rest, found, nothing⟩
      obtain ⟨numerals, nonempty, content, inRange, same⟩ :=
        g.exists_text_of_parse_separated type.range found
      rw [start, nothing, List.append_nil] at content
      exact ⟨numerals, nonempty, content, inRange, same⟩
    · rintro ⟨numerals, nonempty, content, inRange, rfl⟩
      refine g.parse_separated_of_text type.range nonempty inRange (by simp) (fun d nothing => ?_)
        (by rw [start, content, List.append_nil])
      exact g.afterComma_of_head?_ne type.range (by simp [nothing])
  · rw [toList_intercalate_toString, List.map_map]
    congr 2
    funext n
    exact n.toList_toString_value

/-- The list `1,-128,127` of signed bytes in front of a semicolon, and the list `7` in front of a
comma and an integer that is no signed byte. -/
theorem parse_integerList_signedBytes :
    ((∀ v ∈ [1, -128, 127], v ∈ IntType.range .i8) ∧
      ∃ rest, (ruleless (τ := fun _ => Nat)).parse
          ((Parser.integer (IntType.range .i8)).separated (Parser.char ','))
          (Input.ofString "1,-128,127;").cursor = .matched [1, -128, 127] rest ∧
        rest.remaining = [';']) ∧
    ((WrittenInteger.ofInt 128).value ∉ IntType.range .i8 ∧
      ∃ rest, (ruleless (τ := fun _ => Nat)).parse
          ((Parser.integer (IntType.range .i8)).separated (Parser.char ','))
          (Input.ofString "7,128").cursor = .matched [7] rest ∧
        rest.remaining = [',', '1', '2', '8']) := by
  have inRange : ∀ v ∈ [1, -128, 127], v ∈ IntType.range .i8 := by decide
  have outside : (WrittenInteger.ofInt 128).value ∉ IntType.range .i8 := by
    rw [WrittenInteger.value_ofInt]
    decide
  have ends : ∀ next ∈ [';'].head?, next.isDigit = false ∧ next ≠ ',' := by
    intro next head
    cases head
    exact ⟨rfl, by decide⟩
  refine ⟨⟨inRange, ?_⟩, outside, ?_⟩
  · exact (ruleless.parse_integerList .i8).1 [1, -128, 127] [';'] _ (by simp) inRange ends
      (by decide)
  · exact (ruleless.parse_integerList .i8).2.1 [7] (WrittenInteger.ofInt 128) [] _ (by simp)
      (by decide) outside (by simp) (by decide)

end Grammar

end ParserCombinators
