import ParserCombinators.Input
import ParserCombinators.Proofs.Cursor.Suffix
import ParserCombinators.Proofs.Diagnostic.SizeRange
import ParserCombinators.Grammar.Depth

/-! # The ways of parsing a text agree

A text is parsed for its outcome, for the value and the text that is left, or as a whole. All three
read the same.

* **`Input.buffer_eq_of_parse`** — a match in a text stays in the text.
* **`Input.parsePrefix_of_parse`**, **`Input.parseComplete_of_parse`** — what the other two make of
  a match.
* **`Input.entryPoints_agree`** — all of it, with the place that a complete parse reports. -/

namespace ParserCombinators.Input

variable {ν : Type} {τ : ν → Type} {α : Type} {g : Grammar Char τ} {p : Parser Char τ α}

/-- The input of a text holds its characters. -/
@[simp] theorem toList_chars_ofString (text : String) :
    (ofString text).chars.toList = text.toList := by
  simp [ofString]

/-- The input of a text is as long as the text. -/
@[simp] theorem size_chars_ofString (text : String) : (ofString text).chars.size = text.length := by
  simp [ofString, String.length_toList]

section Match

variable {input : Input} {value : α} {rest : Cursor Char}

/-- A match stays in the text. -/
theorem buffer_eq_of_parse (found : input.parse g p = .matched value rest) :
    rest.buffer = input.chars := by
  obtain ⟨count, -, rfl⟩ := g.parse_leadsOnFrom p input.cursor value rest found
  rw [Cursor.buffer_advanceBy, cursor, Cursor.buffer_ofBuffer]

/-- Behind a match stands the text without as many characters as the position tells. -/
theorem remaining_of_parse (found : input.parse g p = .matched value rest) :
    rest.remaining = input.chars.toList.drop rest.position := by
  rw [Cursor.remaining, buffer_eq_of_parse found]

/-- What a prefix parse makes of a match. -/
theorem parsePrefix_of_parse (found : input.parse g p = .matched value rest) :
    input.parsePrefix g p = .ok (value, String.ofList (input.chars.toList.drop rest.position)) := by
  simp only [parsePrefix, found, Outcome.toExcept, Cursor.remainingText, remaining_of_parse found]

/-- What a complete parse makes of a match: its value at the end of the text, and elsewhere an error
with the place where the match ends. -/
theorem parseComplete_of_parse (found : input.parse g p = .matched value rest) :
    input.parseComplete g p =
      if rest.position = input.chars.size then .ok value
      else .error (.trailing ⟨input.chars, rest.position⟩) := by
  have atEnd : rest.atEnd = true ↔ rest.position = input.chars.size := by
    rw [rest.atEnd_iff, ← rest.position_eq_size_iff, buffer_eq_of_parse found]
  simp only [parseComplete, found, Outcome.toExcept, Cursor.inner_eq, buffer_eq_of_parse found,
    atEnd]

/-- A complete parse yields what is read up to the end of the text. -/
theorem parseComplete_eq_ok_iff :
    input.parseComplete g p = .ok value ↔
      ∃ rest, input.parse g p = .matched value rest ∧ rest.remaining = [] := by
  cases found : input.parse g p with
  | matched value' rest =>
      have atEnd : rest.position = input.chars.size ↔ rest.remaining = [] := by
        rw [← rest.position_eq_size_iff, buffer_eq_of_parse found]
      rw [parseComplete_of_parse found]
      by_cases nothing : rest.remaining = []
      · rw [if_pos (atEnd.2 nothing)]
        constructor
        · intro same
          cases same
          exact ⟨rest, rfl, nothing⟩
        · rintro ⟨_, same, -⟩
          cases same
          rfl
      · rw [if_neg fun whole => nothing (atEnd.1 whole)]
        refine iff_of_false (fun same => by cases same) ?_
        rintro ⟨_, same, nothing'⟩
        cases same
        exact nothing nothing'
  | noMatch => simp [parseComplete, found, Outcome.toExcept]
  | unfinished => simp [parseComplete, found, Outcome.toExcept]

end Match

/-- A prefix parse is refused exactly where the text is. -/
theorem parsePrefix_eq_noMatch_iff {input : Input} :
    input.parsePrefix g p = .error .noMatch ↔ input.parse g p = .noMatch := by
  rw [parsePrefix]
  cases input.parse g p <;> simp [Outcome.toExcept]

/-- A complete parse is refused exactly where the text is. -/
theorem parseComplete_eq_noMatch_iff {input : Input} :
    input.parseComplete g p = .error .noMatch ↔ input.parse g p = .noMatch := by
  cases found : input.parse g p with
  | matched value rest =>
      rw [parseComplete_of_parse found]
      split <;> simp [ParseError.trailing]
  | noMatch => simp [parseComplete, found, Outcome.toExcept, ParseError.ofFailure]
  | unfinished => simp [parseComplete, found, Outcome.toExcept, ParseError.ofFailure]

/-- **The three ways of parsing a text agree.** They refuse the same texts. Where the parse matches,
the prefix parse yields the value with the text that stands behind the match, and the complete parse
yields it exactly if the match ends at the end of the text. Otherwise it reports the position of the
end of the match, which lies inside the text, with a line that counts the line feeds before it, and
the line of that number goes on at the reported offset with what is left of the text, up to the next
line feed. The error has the lines around that place, if the text leaves room for a label. -/
theorem entryPoints_agree (g : Grammar Char τ) (p : Parser Char τ α) (text : String) :
    ((ofString text).parse g p = .noMatch ↔ (ofString text).parsePrefix g p = .error .noMatch) ∧
    ((ofString text).parse g p = .noMatch ↔ (ofString text).parseComplete g p = .error .noMatch) ∧
    ∀ value rest, (ofString text).parse g p = .matched value rest →
      ∃ left : String, (ofString text).parsePrefix g p = .ok (value, left) ∧
        String.ofList (text.toList.take rest.position) ++ left = text ∧
        ((ofString text).parseComplete g p = .ok value ↔ rest.position = text.length) ∧
        (rest.position ≠ text.length →
          rest.position < text.length ∧
          ∃ place context,
            (ofString text).parseComplete g p =
              .error (.trailingInput rest.position place context) ∧
            (IsBufferSize (text.length + widestLabel) → context.isSome) ∧
            place.line = 1 + (text.toList.take rest.position).count '\n' ∧
            ∃ line, (text.toList.splitOn '\n')[place.line - 1]? = some line ∧
              place.offset ≤ line.length ∧
              line.drop place.offset = left.toList.takeWhile (· != '\n')) := by
  refine ⟨parsePrefix_eq_noMatch_iff.symm, parseComplete_eq_noMatch_iff.symm,
    fun value rest found => ?_⟩
  have complete := parseComplete_of_parse found
  rw [size_chars_ofString] at complete
  have inside : rest.position ≤ (ofString text).chars.size := by
    rw [← buffer_eq_of_parse found]
    exact rest.position_le_size
  refine ⟨_, parsePrefix_of_parse found, ?_, ?_, fun early => ?_⟩
  · rw [← String.ofList_append, toList_chars_ofString, List.take_append_drop, String.ofList_toList]
  · rw [complete]
    by_cases whole : rest.position = text.length
    · simp [whole]
    · simp [whole]
  · rw [if_neg early] at complete
    let l : Location Char := ⟨(ofString text).chars, rest.position⟩
    obtain ⟨line, atLine, offsetInside, goesOn⟩ := Location.exists_line (l := l) inside
    have number := l.coordinates_line
    have shown := Location.isSome_contextLines (l := l) inside
    rw [size_chars_ofString] at inside shown
    refine ⟨by omega, _, _, complete, fun room => ?_, ?_, line, ?_, offsetInside, ?_⟩
    · rw [Option.isSome_map]
      exact shown room
    · rw [number, toList_chars_ofString]
      rfl
    · rw [← atLine, Location.lines, toList_chars_ofString]
      rfl
    · rw [goesOn, String.toList_ofList]
      rfl

/-- In a text of two lines a match ends before the last character, and the complete parse reports a
place on the second line. -/
theorem entryPoints_agree_second_line :
    (ofString "a\nbc").parse (.ruleless (τ := fun _ => Nat)) (.word ['a', '\n', 'b']) =
        .matched ['a', '\n', 'b'] (.valid #['a', '\n', 'b', 'c'] 3) ∧
      3 ≠ "a\nbc".length ∧ IsBufferSize ("a\nbc".length + widestLabel) ∧
      ∃ place context,
        (ofString "a\nbc").parseComplete (.ruleless (τ := fun _ => Nat)) (.word ['a', '\n', 'b']) =
            .error (.trailingInput 3 place (some context)) ∧
          place.line = 2 := by
  have found : (ofString "a\nbc").parse (.ruleless (τ := fun _ => Nat)) (.word ['a', '\n', 'b']) =
      .matched ['a', '\n', 'b'] (.valid #['a', '\n', 'b', 'c'] 3) := by decide
  have early : 3 ≠ "a\nbc".length := by decide
  have room : IsBufferSize ("a\nbc".length + widestLabel) := by decide
  obtain ⟨left, -, -, -, reported⟩ := (entryPoints_agree _ _ "a\nbc").2.2 _ _ found
  obtain ⟨-, place, context, complete, isSome, line, -⟩ := reported early
  obtain ⟨rows, rfl⟩ := Option.isSome_iff_exists.1 (isSome room)
  exact ⟨found, early, room, place, rows, complete, line⟩

end ParserCombinators.Input
