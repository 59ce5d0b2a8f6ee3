import ParserCombinators.Proofs.Diagnostic.DecodedText

/-! # The column of the caret in bytes

The row of a location shows text, and the caret below it is indented by the elements of the line that
stand before the location. In characters these two agree. In bytes the caret is too far to the right
by as many columns as the characters before the location have bytes beyond their first, so it stands
below the character at the location exactly if all the characters before it on the line are ASCII.

* **`Utf8.rtakeWhile_flatMap`** — the last line of an encoding is the encoding of the last line.
* **`Location.bytes_caretColumn`** — how far the caret is from the character at the location. -/

namespace ParserCombinators

/-! ## Encoded lines -/

namespace Utf8

/-- The encoding of a character has a line feed in it only if the character is one. -/
theorem isNewline_of_mem_utf8EncodeChar {c : Char} (other : c ≠ '\n') {byte : UInt8}
    (mem : byte ∈ String.utf8EncodeChar c) : Element.isNewline byte = false := by
  have count := countP_decode ([c].flatMap String.utf8EncodeChar)
  rw [decode_utf8Encode, List.flatMap_singleton, List.countP_singleton, if_neg (by simpa using other)]
    at count
  exact Bool.eq_false_iff.2 (List.countP_eq_zero.1 count.symm byte mem)

/-- The last line of an encoding is the encoding of the last line. -/
theorem rtakeWhile_flatMap (text : List Char) :
    (text.flatMap String.utf8EncodeChar).rtakeWhile (fun byte => !Element.isNewline byte) =
      (text.rtakeWhile fun c => !Element.isNewline c).flatMap String.utf8EncodeChar := by
  induction text using List.reverseRecOn with
  | nil => rfl
  | append_singleton text c ih =>
      rw [List.flatMap_append, List.flatMap_singleton]
      by_cases newline : c = '\n'
      · subst newline
        rw [List.rtakeWhile_concat_neg _ _ _ (by decide)]
        exact List.rtakeWhile_concat_neg _ _ _ (by decide)
      · have goesOn : (!Element.isNewline c) = true := by simpa [Element.isNewline] using newline
        have bytes : ∀ byte ∈ String.utf8EncodeChar c, (!Element.isNewline byte) = true :=
          fun byte mem => by rw [isNewline_of_mem_utf8EncodeChar newline mem, Bool.not_false]
        rw [rtakeWhile_append_of_pos bytes, ih,
          List.rtakeWhile_concat_pos (fun c => !Element.isNewline c) _ _ goesOn,
          List.flatMap_append, List.flatMap_singleton]

/-- Every character takes up a byte. -/
theorem length_le_length_flatMap (text : List Char) :
    text.length ≤ (text.flatMap String.utf8EncodeChar).length := by
  induction text with
  | nil => exact Nat.le_refl 0
  | cons c text ih =>
      have size := c.utf8Size_pos
      rw [List.flatMap_cons, List.length_append, List.length_cons, String.length_utf8EncodeChar]
      omega

/-- A text has as many bytes as characters exactly if none of these takes up more than one. -/
theorem length_flatMap_eq_iff {text : List Char} :
    (text.flatMap String.utf8EncodeChar).length = text.length ↔ ∀ c ∈ text, c.utf8Size = 1 := by
  induction text with
  | nil => simp
  | cons c text ih =>
      have size := c.utf8Size_pos
      have others := length_le_length_flatMap text
      rw [List.flatMap_cons, List.length_append, List.length_cons, String.length_utf8EncodeChar,
        List.forall_mem_cons, ← ih]
      omega

end Utf8

namespace Location

/-- **The caret of a location in bytes** comes below the row of the location's line, if there are rows
at all, as there are if the bytes leave room for a label. It stands behind the label of that row by as
many columns as the characters of the line before the location have bytes, while the row shows the
character at the location behind these characters. So the caret stands below the character exactly if
none of them takes up more than one byte, and elsewhere to the right of it. -/
theorem bytes_caretColumn {s : String} {count : Nat} {c : Char}
    (here : s.toList[count]? = some c) (visible : c ≠ '\n') :
    let l : Location UInt8 :=
      ⟨s.toByteArray.data, (String.ofList (s.toList.take count)).utf8ByteSize⟩
    let label := (ContextRow.markedLabel l.coordinates.line).toList
    let before := (s.toList.take count).rtakeWhile (· != '\n')
    ((∃ above below, l.ShownAs (above ++ l.markedRow :: l.caretRow :: below)) ∧
        (IsBufferSize (l.buffer.size + widestLabel) → l.contextLines.isSome)) ∧
      label ++ before ++ [c] <+: l.markedRow.toList ∧
      l.caretRow.toList.idxOf '^' = label.length + (String.ofList before).utf8ByteSize ∧
      (l.caretRow.toList.idxOf '^' = (label ++ before).length ↔ ∀ d ∈ before, d.utf8Size = 1) := by
  intro l label before
  let chars := Location.mk s.toList.toArray count
  have decoded : chars.buffer.toList = Utf8.decode l.buffer.toList := by
    rw [toList_toByteArray, Utf8.decode_utf8Encode]
  have sameLine : l.coordinates.line = chars.coordinates.line :=
    line_eq_of_decode_take (by rw [take_toByteArray, Utf8.decode_utf8Encode])
  have encoded : l.lineBefore = before.flatMap String.utf8EncodeChar := by
    rw [lineBefore, take_toByteArray, Utf8.rtakeWhile_flatMap]
    rfl
  have row : l.markedRow.toList =
      label ++ (before ++ (s.toList.drop count).takeWhile fun d => !Element.isNewline d) := by
    rw [markedRow_eq_of_decode decoded sameLine, toList_markedRow, ← sameLine]
    rfl
  have caret : l.caretRow.toList.idxOf '^' =
      label.length + (before.flatMap String.utf8EncodeChar).length := by
    rw [idxOf_caretRow, Coordinates.caretIndent, ← encoded,
      length_lineBefore (utf8ByteSize_take_le s count), String.length_toList]
  refine ⟨⟨⟨_, _, l.layout_eq ▸ l.shownAs_layout⟩,
    isSome_contextLines (utf8ByteSize_take_le s count)⟩, ?_, ?_, ?_⟩
  · obtain ⟨inside, rfl⟩ := List.getElem?_eq_some_iff.1 here
    have shown : (!Element.isNewline s.toList[count]) = true := by
      simpa [Element.isNewline] using visible
    rw [row, List.drop_eq_getElem_cons inside, List.takeWhile_cons, if_pos shown,
      List.append_assoc, List.prefix_append_right_inj, List.prefix_append_right_inj]
    exact List.cons_prefix_cons.2 ⟨rfl, List.nil_prefix⟩
  · rw [caret, utf8ByteSize_ofList]
  · rw [caret, List.length_append, Nat.add_left_cancel_iff, Utf8.length_flatMap_eq_iff]

/-- On the second line of a text the character behind a letter with an accent and an emoji is shown
in the third column behind the label, but the caret stands behind the six bytes of these two; below
the letter itself, which nothing precedes on its line, the caret stands right. -/
theorem bytes_caretColumn_second_line :
    let s := "é\né😀x"
    let letter : Location UInt8 :=
      ⟨s.toByteArray.data, (String.ofList (s.toList.take 2)).utf8ByteSize⟩
    let last : Location UInt8 := ⟨s.toByteArray.data, (String.ofList (s.toList.take 4)).utf8ByteSize⟩
    (s.toList[2]? = some 'é' ∧ letter.caretRow.toList.idxOf '^' = 8 ∧
        IsBufferSize (letter.buffer.size + widestLabel) ∧ letter.contextLines.isSome) ∧
      s.toList[4]? = some 'x' ∧ last.caretRow.toList.idxOf '^' = 14 ∧
      last.markedRow.toList[10]? = some 'x' := by
  intro s letter last
  have hereLetter : s.toList[2]? = some 'é' := by decide
  have hereLast : s.toList[4]? = some 'x' := by decide
  have room : IsBufferSize (letter.buffer.size + widestLabel) := by decide
  have atLetter := bytes_caretColumn hereLetter (by decide)
  have atLast := bytes_caretColumn hereLast (by decide)
  exact ⟨⟨hereLetter, atLetter.2.2.1.trans (by decide), room, atLetter.1.2 room⟩, hereLast,
    atLast.2.2.1.trans (by decide), by decide⟩

/-- Behind one letter with an accent the caret of a location in bytes misses the character: it stands
right behind the row, while the caret of the same location in the text stands below the character. -/
theorem caret_misses_character_in_bytes :
    let bytes : Location UInt8 := ⟨#[0xC3, 0xA9, 0x3F], 2⟩
    let text : Location Char := ⟨#['é', '?'], 1⟩
    bytes.buffer = "é?".toByteArray.data ∧ text.buffer = "é?".toList.toArray ∧
      bytes.index = (String.ofList ("é?".toList.take 1)).utf8ByteSize ∧
      text.contextLines = some ["  > 1 | é?", "         ^--- here"] ∧
      bytes.contextLines = some ["  > 1 | é?", "          ^--- here"] ∧
      text.caretRow.toList.idxOf '^' = text.markedRow.toList.idxOf '?' ∧
      bytes.caretRow.toList.idxOf '^' ≠ bytes.markedRow.toList.idxOf '?' := by
  decide

end Location

end ParserCombinators
