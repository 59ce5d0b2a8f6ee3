import ParserCombinators.Proofs.Diagnostic.SizeRange
import ParserCombinators.Proofs.Text.Decoding

/-! # Locations in bytes and in the text they encode

Bytes are cut into lines first, and each line is then shown as the text it encodes. What is shown is
the same as if the bytes had been read as text first, whether they are well-formed or not.

* **`Utf8.countP_decode`** — the text has as many line feeds as the bytes.
* **`Location.exists_line_of_mem_layout`** — a row shows the line of its number.
* **`Location.lineTexts_eq_of_decode`**, **`Location.lastShown_eq_of_decode`** — the lines of bytes
  and those of their text.
* **`Location.exists_layout_of_decode`** — locations on the same line of bytes and of their text
  are shown alike but for the column of the caret.
* **`Location.bytes_shownAsText`** — a location in bytes is shown in the text that they encode. -/

namespace ParserCombinators

/-- The text has as many line feeds as the bytes. -/
theorem Utf8.countP_decode (bytes : List UInt8) :
    (Utf8.decode bytes).countP (· == '\n') = bytes.countP (· == 0x0A) := by
  have lengths := congrArg List.length (Utf8.splitOnP_decode bytes)
  rw [List.length_map, length_splitOnP, length_splitOnP] at lengths
  exact Nat.succ.inj lengths

/-- **A row shows the line of its number**, unless it is the one with the caret. -/
theorem Location.exists_line_of_mem_layout {ε : Type} [Element ε] {l : Location ε}
    {row : String} (mem : row ∈ l.layout) :
    row = l.caretRow ∨ ∃ number text, 1 ≤ number ∧ l.lineTexts[number - 1]? = some text ∧
      (row = ContextRow.plainLabel number ++ text ∨ row = ContextRow.markedLabel number ++ text) := by
  obtain ⟨row, shown, rfl⟩ := List.mem_map.1 mem
  obtain ⟨⟨content, number⟩, line, ofLine⟩ := List.mem_flatMap.1 shown
  obtain ⟨first, found⟩ := List.mem_zipIdx_iff_le_and_getElem?_sub.1 line
  have text : l.lineTexts[number - 1]? = some (Element.render content) := by
    rw [lineTexts, List.getElem?_map, found, Option.map_some]
  dsimp only [Coordinates.rowsOfLine] at ofLine
  split_ifs at ofLine
  · cases ofLine
  · cases ofLine
  · rcases List.mem_pair.1 ofLine with rfl | rfl
    · exact Or.inr ⟨number, _, first, text, Or.inr rfl⟩
    · exact Or.inl rfl
  · rw [List.mem_singleton.1 ofLine]
    exact Or.inr ⟨number, _, first, text, Or.inl rfl⟩

namespace Location

/-! ## Bytes and their text -/

/-- Locations behind the same text are on the same line. -/
theorem line_eq_of_decode_take {bytes : Location UInt8} {text : Location Char}
    (before : Utf8.decode (bytes.buffer.toList.take bytes.index) =
      text.buffer.toList.take text.index) :
    bytes.coordinates.line = text.coordinates.line := by
  rw [coordinates_line, coordinates_line, ← before]
  exact congrArg (1 + ·) (Utf8.countP_decode _).symm

section Decoding

variable {bytes : Location UInt8} {text : Location Char}
  (decoded : text.buffer.toList = Utf8.decode bytes.buffer.toList)

include decoded

/-- The lines of the text are the texts of the lines. -/
theorem lines_eq_of_decode : text.lines = bytes.lines.map Utf8.decode := by
  rw [lines, decoded]
  exact Utf8.splitOnP_decode bytes.buffer.toList

/-- The lines of bytes and those of their text are shown alike. -/
theorem lineTexts_eq_of_decode : bytes.lineTexts = text.lineTexts := by
  rw [lineTexts, lineTexts, lines_eq_of_decode decoded, List.map_map]
  rfl

/-- The last line that is shown has the same number in bytes and in their text. -/
theorem lastShown_eq_of_decode : bytes.lastShown = text.lastShown := by
  have empty : (bytes.lines[bytes.lines.length - 1]?).map Utf8.decode = some [] ↔
      bytes.lines[bytes.lines.length - 1]? = some [] := by
    rw [Option.map_eq_some_iff]
    refine ⟨?_, fun found => ⟨[], found, rfl⟩⟩
    rintro ⟨content, found, nothing⟩
    rw [found, Utf8.decode_eq_nil_iff.1 nothing]
  have ends : text.buffer.toList.getLast?.any Element.isNewline = true ↔
      bytes.buffer.toList.getLast?.any Element.isNewline = true := by
    rw [any_isNewline_getLast?_iff, any_isNewline_getLast?_iff, lines_eq_of_decode decoded,
      List.length_map, List.getElem?_map, empty]
  rw [lastShown, lastShown, lines_eq_of_decode decoded, List.length_map, Bool.eq_iff_iff.2 ends]

/-- The row of a line shows bytes as it shows their text. -/
theorem markedRow_eq_of_decode (sameLine : bytes.coordinates.line = text.coordinates.line) :
    bytes.markedRow = text.markedRow := by
  rw [markedRow, markedRow, lineTexts_eq_of_decode decoded, sameLine]

/-- **Bytes are shown as the text they encode**: locations on the same line of either have the same
rows, in which only the column of the caret may differ. -/
theorem exists_layout_of_decode (sameLine : bytes.coordinates.line = text.coordinates.line) :
    ∃ before behind, bytes.layout = before ++ bytes.caretRow :: behind ∧
      text.layout = before ++ text.caretRow :: behind := by
  refine ⟨plainRows text.lineTexts (max 1 (text.coordinates.line - 2)) (text.coordinates.line - 1) ++
    [text.markedRow], plainRows text.lineTexts (text.coordinates.line + 1)
      (min text.lastShown (text.coordinates.line + 2)), ?_, ?_⟩
  · rw [layout_eq, lineTexts_eq_of_decode decoded, lastShown_eq_of_decode decoded, sameLine,
      markedRow_eq_of_decode decoded sameLine, List.append_assoc, List.singleton_append]
  · rw [layout_eq, List.append_assoc, List.singleton_append]

end Decoding

/-! ## Encoded texts -/

/-- The bytes of a text are those of its characters. -/
theorem toList_toByteArray (s : String) :
    s.toByteArray.data.toList = s.toList.flatMap String.utf8EncodeChar := by
  rw [← String.utf8Encode_toList, List.utf8Encode, List.toList_data_toByteArray]

/-- A text takes up the bytes of its characters. -/
theorem utf8ByteSize_ofList (text : List Char) :
    (String.ofList text).utf8ByteSize = (text.flatMap String.utf8EncodeChar).length := by
  rw [String.utf8ByteSize, String.toByteArray_ofList, List.utf8Encode, List.size_toByteArray]

/-- As many bytes as the first characters take up are the bytes of these characters. -/
theorem take_toByteArray (s : String) (count : Nat) :
    s.toByteArray.data.toList.take (String.ofList (s.toList.take count)).utf8ByteSize =
      (s.toList.take count).flatMap String.utf8EncodeChar := by
  have split : s.toList.flatMap String.utf8EncodeChar =
      (s.toList.take count).flatMap String.utf8EncodeChar ++
        (s.toList.drop count).flatMap String.utf8EncodeChar := by
    rw [← List.flatMap_append, List.take_append_drop]
  rw [toList_toByteArray, utf8ByteSize_ofList, split, List.take_left]

/-- As many bytes as the first characters take up are among the bytes of the text. -/
theorem utf8ByteSize_take_le (s : String) (count : Nat) :
    (String.ofList (s.toList.take count)).utf8ByteSize ≤ s.toByteArray.data.size := by
  have taken := congrArg List.length (take_toByteArray s count)
  rw [List.length_take, Array.length_toList, ← utf8ByteSize_ofList] at taken
  omega

/-- **A location in bytes is shown in the text that they encode.** Its line counts the line feeds in
the text of the bytes before it, and each row but the one with the caret shows the line of its number
in the text of all the bytes, also where these are not well-formed: to cut them at line feeds changes
no character. There are rows for every location in the bytes if these leave room for a label.

So in the encoding of a text, where a number of characters take up all that is before the location,
the same line is found and the same rows are shown as behind that number of characters in the text
itself, but for the column of the caret. -/
theorem bytes_shownAsText :
    (∀ l : Location UInt8,
      l.coordinates.line = 1 + (Utf8.decode (l.buffer.toList.take l.index)).count '\n' ∧
      (∃ rows, l.ShownAs rows ∧ ∀ row ∈ rows, row = l.caretRow ∨ ∃ number content,
        1 ≤ number ∧ ((Utf8.decode l.buffer.toList).splitOn '\n')[number - 1]? = some content ∧
          (row = ContextRow.plainLabel number ++ String.ofList content ∨
            row = ContextRow.markedLabel number ++ String.ofList content)) ∧
      (l.index ≤ l.buffer.size → IsBufferSize (l.buffer.size + widestLabel) →
        l.contextLines.isSome)) ∧
    ∀ (s : String) (count : Nat),
      let bytes := Location.mk s.toByteArray.data (String.ofList (s.toList.take count)).utf8ByteSize
      let chars := Location.mk s.toList.toArray count
      bytes.coordinates.line = chars.coordinates.line ∧
      ∃ before behind, bytes.ShownAs (before ++ bytes.caretRow :: behind) ∧
        chars.ShownAs (before ++ chars.caretRow :: behind) := by
  refine ⟨fun l => ⟨?_, ⟨l.layout, l.shownAs_layout, fun row mem => ?_⟩, isSome_contextLines⟩,
    fun s count => ?_⟩
  · rw [coordinates_line, List.count, Utf8.countP_decode]
    rfl
  · refine (exists_line_of_mem_layout mem).imp_right ?_
    rintro ⟨number, text, first, found, label⟩
    rw [lineTexts, List.getElem?_map, Option.map_eq_some_iff] at found
    obtain ⟨content, line, rfl⟩ := found
    refine ⟨number, Utf8.decode content, first, ?_, label⟩
    rw [List.splitOn_eq_splitOnP, Utf8.splitOnP_decode, List.getElem?_map]
    exact congrArg (Option.map Utf8.decode) line
  · intro bytes chars
    have decoded : chars.buffer.toList = Utf8.decode bytes.buffer.toList := by
      rw [toList_toByteArray, Utf8.decode_utf8Encode]
    have sameLine : bytes.coordinates.line = chars.coordinates.line := by
      have before : Utf8.decode (bytes.buffer.toList.take bytes.index) =
          chars.buffer.toList.take chars.index := by
        rw [take_toByteArray, Utf8.decode_utf8Encode]
      rw [coordinates_line, coordinates_line, ← before]
      exact congrArg (1 + ·) (Utf8.countP_decode _).symm
    -- the layouts agree, and each of the two is shown where its own caret fits
    obtain ⟨before, behind, ofBytes, ofChars⟩ := exists_layout_of_decode decoded sameLine
    exact ⟨sameLine, before, behind, ofBytes ▸ bytes.shownAs_layout, ofChars ▸ chars.shownAs_layout⟩

/-- Two bytes of a longer sequence before the line feed that cuts it off, and a first byte that
nothing continues at the end: either is shown as one replacement character in a line of its own. -/
theorem bytes_shownAsText_cut_sequences :
    let l := Location.mk #[0xE4, 0xBD, 0x0A, 0x61, 0xF0] 4
    (l.index ≤ l.buffer.size ∧ IsBufferSize (l.buffer.size + widestLabel) ∧
      l.contextLines.isSome) ∧
    l.contextLines = some ["    1 | \uFFFD", "  > 2 | a\uFFFD", "         ^--- here"] ∧
    (Utf8.decode l.buffer.toList).splitOn '\n' = [['\uFFFD'], ['a', '\uFFFD']] ∧
    ("    1 | \uFFFD" = l.caretRow ∨ ∃ number content,
      1 ≤ number ∧ ((Utf8.decode l.buffer.toList).splitOn '\n')[number - 1]? = some content ∧
        ("    1 | \uFFFD" = ContextRow.plainLabel number ++ String.ofList content ∨
          "    1 | \uFFFD" = ContextRow.markedLabel number ++ String.ofList content)) := by
  intro l
  have inside : l.index ≤ l.buffer.size := by decide
  have room : IsBufferSize (l.buffer.size + widestLabel) := by decide
  have fits : IsBufferSize l.coordinates.caretIndent := by decide
  have found : l.contextLines =
      some ["    1 | \uFFFD", "  > 2 | a\uFFFD", "         ^--- here"] := by
    decide
  obtain ⟨-, ⟨rows, shown, ofLine⟩, isSome⟩ := bytes_shownAsText.1 l
  rw [ShownAs, found, if_pos fits] at shown
  cases shown
  exact ⟨⟨inside, room, isSome inside room⟩, found, by decide, ofLine _ List.mem_cons_self⟩

end Location

end ParserCombinators
