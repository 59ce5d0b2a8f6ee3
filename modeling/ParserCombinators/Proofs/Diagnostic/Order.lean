import ParserCombinators.Proofs.Diagnostic.Coordinates

/-! # The order of locations

The coordinates of a location lead back to its index, and they are ordered as the indices are: by
the line first, and within a line by the offset. This goes on beyond the end of the buffer, where no
further line starts and only the offset grows.

* **`Location.OpensLine`** — an index as the start of the line that a location is on;
  **`Location.OpensLine.unique`** — there is no other one.
* **`Location.startOfLine`** — where the line of a number starts, read off the lines alone.
* **`Coordinates.Before`** — the lexicographic order of coordinates.
* **`Location.coordinates_line_mono`**, **`Location.coordinates_before_of_lt`** — a later location
  is not on an earlier line, and its coordinates come later.
* **`Location.coordinates_orderEmbedding`** — the coordinates of all locations in a buffer. -/

namespace ParserCombinators

variable {ε : Type}

/-- One place comes before another: it is on an earlier line, or has a smaller offset on the same
line. -/
def Coordinates.Before (place other : Coordinates) : Prop :=
  place.line < other.line ∨ place.line = other.line ∧ place.offset < other.offset

/-- Of two places, the one that comes before the other does not come after it. -/
theorem Coordinates.Before.asymm {place other : Coordinates} (before : place.Before other) :
    ¬ other.Before place := by
  unfold Before at before ⊢
  omega

/-- No place comes before itself. -/
theorem Coordinates.Before.irrefl (place : Coordinates) : ¬ place.Before place :=
  fun before => before.asymm before

variable [Element ε]

namespace Location

/-- An index at which the line of a location starts: the beginning of the buffer, or what stands
right behind an element that ends a line, with no such element from there up to the location. -/
structure OpensLine (l : Location ε) (start : Nat) : Prop where
  /-- The location is not before the start of its line. -/
  le_index : start ≤ l.index
  /-- The line starts at the beginning or behind an element that ends a line. -/
  opens : start = 0 ∨ ∃ before ending, start = before + 1 ∧ l.buffer[before]? = some ending ∧
    Element.isNewline ending = true
  /-- Nothing ends the line before the location. -/
  isOpen : ∀ index element, start ≤ index → index < l.index → l.buffer[index]? = some element →
    Element.isNewline element = false

/-- The index at which the line of a number starts: the lines before it take up their elements and
one element each that ends them. -/
def startOfLine (buffer : Array ε) (number : Nat) : Nat :=
  let before := (buffer.toList.splitOnP Element.isNewline).take (number - 1)
  before.flatten.length + before.length

/-- The line of a location starts at one index only. -/
theorem OpensLine.unique {l : Location ε} {start other : Nat} (opens : l.OpensLine start)
    (opens' : l.OpensLine other) : start = other := by
  -- the greater of two starts would be behind an end of the line that starts at the smaller one
  have notLess : ∀ {first second : Nat}, l.OpensLine first → l.OpensLine second →
      ¬ first < second := by
    intro first second earlier later less
    have inside := later.le_index
    rcases later.opens with rfl | ⟨before, ending, rfl, found, ends⟩
    · exact Nat.not_lt_zero first less
    · have isOpen := earlier.isOpen before ending (Nat.le_of_lt_succ less) inside found
      exact Bool.false_ne_true (isOpen.symm.trans ends)
  exact Nat.le_antisymm (Nat.le_of_not_lt (notLess opens' opens))
    (Nat.le_of_not_lt (notLess opens opens'))

/-- What is kept while the elements before a location are passed is the start of its line. -/
theorem opensLine_lineStart (l : Location ε) : l.OpensLine l.lineStart.start := by
  have last := l.isLastLine_lineStart
  have inside := last.start_le
  rw [List.length_take] at inside
  refine ⟨by omega, ?_, ?_⟩
  · rcases last.opens with start | ⟨earlier, ending, opens, ends⟩
    · exact Or.inl start
    · refine Or.inr ⟨earlier.length, ending, ?_, ?_, ends⟩
      · have length := congrArg List.length opens
        rw [List.length_take_of_le last.start_le, List.length_append,
          List.length_singleton] at length
        exact length
      · have found : (earlier ++ [ending])[earlier.length]? = some ending :=
          List.getElem?_concat_length
        rw [← opens, List.take_take, List.getElem?_take] at found
        split at found
        · rw [← Array.getElem?_toList]
          exact found
        · cases found
  · intro index element fromStart toLocation found
    refine last.isOpen element (List.mem_of_getElem? (i := index - l.lineStart.start) ?_)
    have here : l.lineStart.start + (index - l.lineStart.start) = index := by omega
    rw [List.getElem?_drop, here, List.getElem?_take_of_lt toLocation, Array.getElem?_toList]
    exact found

/-- The line of a location starts where the lines say that the line of its number does. -/
theorem lineStart_eq_startOfLine (l : Location ε) :
    l.lineStart.start = startOfLine l.buffer l.coordinates.line := by
  obtain ⟨before, pieces, count, start⟩ :=
    l.isLastLine_lineStart.exists_splitOnP (l.buffer.toList.drop l.index)
  rw [List.take_append_drop] at pieces
  have number : l.coordinates.line - 1 = before.length := count.symm
  rw [startOfLine, pieces, number, List.take_left, start]

/-- A location lies its offset behind the start of its line. -/
theorem startOfLine_add_offset (l : Location ε) :
    startOfLine l.buffer l.coordinates.line + l.coordinates.offset = l.index := by
  rw [← lineStart_eq_startOfLine]
  exact Nat.add_sub_cancel' l.opensLine_lineStart.le_index

/-- A later location is not on an earlier line. -/
theorem coordinates_line_mono (buffer : Array ε) {index other : Nat} (le : index ≤ other) :
    (Location.mk buffer index).coordinates.line ≤ (Location.mk buffer other).coordinates.line := by
  rw [coordinates_line, coordinates_line]
  have sublist : (buffer.toList.take index).Sublist (buffer.toList.take other) :=
    (List.take_prefix_take_left le).sublist
  exact Nat.add_le_add_left (sublist.countP_le) 1

/-- The coordinates of a later location come later. -/
theorem coordinates_before_of_lt (buffer : Array ε) {index other : Nat} (lt : index < other) :
    (Location.mk buffer index).coordinates.Before (Location.mk buffer other).coordinates := by
  have here := (Location.mk buffer index).startOfLine_add_offset
  have there := (Location.mk buffer other).startOfLine_add_offset
  rcases Nat.lt_or_eq_of_le (coordinates_line_mono buffer (Nat.le_of_lt lt)) with less | same
  · exact Or.inl less
  · -- on one line both offsets count from the same start
    rw [same] at here
    exact Or.inr ⟨same, by dsimp only at here there; omega⟩

/-- **Coordinates are an invertible and order-preserving view of a location**, also beyond the end of
the buffer. The line counts the elements before the location that end a line; it starts at the one
index that opens it, which the number of the line determines, and the location is its offset behind
that. Coordinates come before one another exactly as the locations do, and different locations have
different coordinates. -/
theorem coordinates_orderEmbedding (buffer : Array ε) (index : Nat) :
    let l := Location.mk buffer index
    l.coordinates.line = 1 + (buffer.toList.take index).countP Element.isNewline ∧
    (∀ start, l.OpensLine start ↔ start = startOfLine buffer l.coordinates.line) ∧
    startOfLine buffer l.coordinates.line + l.coordinates.offset = index ∧
    ∀ other, (l.coordinates.Before (Location.mk buffer other).coordinates ↔ index < other) ∧
      (l.coordinates = (Location.mk buffer other).coordinates ↔ index = other) := by
  intro l
  have opens : l.OpensLine (startOfLine buffer l.coordinates.line) :=
    l.lineStart_eq_startOfLine ▸ l.opensLine_lineStart
  have before : ∀ other, l.coordinates.Before (Location.mk buffer other).coordinates ↔
      index < other := by
    intro other
    refine ⟨fun before => ?_, coordinates_before_of_lt buffer⟩
    rcases Nat.lt_trichotomy index other with less | rfl | more
    · exact less
    · exact absurd before (Coordinates.Before.irrefl _)
    · exact absurd (coordinates_before_of_lt buffer more) before.asymm
  refine ⟨l.coordinates_line, fun start => ⟨fun opens' => opens'.unique opens, fun same => ?_⟩,
    l.startOfLine_add_offset, fun other => ⟨before other, fun same => ?_, fun same => ?_⟩⟩
  · rw [same]
    exact opens
  · have here := l.startOfLine_add_offset
    rw [same] at here
    exact here.symm.trans (Location.mk buffer other).startOfLine_add_offset
  · rw [← same]

end Location

end ParserCombinators
