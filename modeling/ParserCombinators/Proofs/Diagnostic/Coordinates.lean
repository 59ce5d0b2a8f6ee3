import Mathlib.Data.List.DropRight
import Mathlib.Data.List.Induction
import Mathlib.Data.List.TakeWhile
import ParserCombinators.Diagnostic.Location

/-! # The line of a location

The elements before a location are passed one after the other. What is kept on the way is the number
of the line that they end in and the index where that line starts, and this is enough to find the
line again among the lines of the whole buffer.

* **`LineStart.IsLastLine`** — the invariant: what is kept tells of the last line of the elements
  passed; **`LineStart.IsLastLine.advance`** — one more element keeps it.
* **`Location.isLastLine_lineStart`** — it holds for the elements before a location.
* **`Location.lineBefore`** — what stands on the line of a location before it.
* **`LineStart.IsLastLine.exists_splitOnP`** — the lines before the last one of the elements passed.
* **`LineStart.IsLastLine.getElem?_splitOnP`** — the last line of the elements passed, together with
  what follows it up to the next end of a line, is the line of that number.
* **`Location.getElem?_lines`** — the line of a location, taken apart at the location.
* **`Location.exists_line`** — the coordinates of a location lead back to it. -/

namespace ParserCombinators

variable {ε : Type}

/-! ## Splitting -/

/-- There is one piece more than there are elements that end one. -/
theorem length_splitOnP (ends : ε → Bool) (elements : List ε) :
    (elements.splitOnP ends).length = elements.countP ends + 1 := by
  induction elements with
  | nil => rfl
  | cons element others ih =>
      rw [List.splitOnP_cons_eq_if_modifyHead, List.countP_cons]
      by_cases last : ends element = true
      · rw [if_pos last, if_pos last, List.length_cons, ih]
      · rw [if_neg last, if_neg last, List.length_modifyHead, ih]

/-- The first piece goes on until an element ends it. -/
theorem head?_splitOnP (ends : ε → Bool) (elements : List ε) :
    (elements.splitOnP ends).head? = some (elements.takeWhile fun element => !ends element) := by
  induction elements with
  | nil => rfl
  | cons element others ih =>
      rw [List.splitOnP_cons_eq_if_modifyHead, List.takeWhile_cons]
      by_cases last : ends element = true
      · simp [last]
      · simp [last, ih]

/-- Every element stands in a piece or ends one. -/
theorem length_flatten_splitOnP (ends : ε → Bool) (elements : List ε) :
    (elements.splitOnP ends).flatten.length + elements.countP ends = elements.length := by
  induction elements with
  | nil => rfl
  | cons element others ih =>
      rw [List.splitOnP_cons_eq_if_modifyHead, List.countP_cons, List.length_cons, ← ih]
      by_cases last : ends element = true
      · rw [if_pos last, if_pos last, List.flatten_cons, List.nil_append, Nat.add_assoc]
      · rw [if_neg last, if_neg last]
        obtain ⟨first, rest, pieces⟩ := List.exists_cons_of_ne_nil (List.splitOnP_ne_nil ends others)
        simp only [pieces, List.modifyHead_cons, List.flatten_cons, List.length_append,
          List.length_cons]
        omega

/-- What is taken from the end of a list takes all of an appended part that the predicate accepts. -/
theorem rtakeWhile_append_of_pos {accepts : ε → Bool} {further : List ε}
    (all : ∀ element ∈ further, accepts element = true) (elements : List ε) :
    (elements ++ further).rtakeWhile accepts = elements.rtakeWhile accepts ++ further := by
  have backwards : ∀ element ∈ further.reverse, accepts element = true :=
    fun element mem => all element (List.mem_reverse.1 mem)
  rw [List.rtakeWhile, List.rtakeWhile, List.reverse_append,
    List.takeWhile_append_of_pos backwards, List.reverse_append, List.reverse_reverse]

variable [Element ε]

namespace LineStart

/-- A line with its number and the index where it starts, as the last one of the elements passed. -/
structure IsLastLine (passed : List ε) (current : LineStart) : Prop where
  /-- Each element that ends a line has led to the next one. -/
  line_eq : current.line = 1 + passed.countP Element.isNewline
  /-- The line starts among the elements passed or behind them. -/
  start_le : current.start ≤ passed.length
  /-- The line starts at the beginning or behind an element that ends a line. -/
  opens : current.start = 0 ∨ ∃ earlier ending,
    passed.take current.start = earlier ++ [ending] ∧ Element.isNewline ending = true
  /-- Nothing has ended the line. -/
  isOpen : ∀ element ∈ passed.drop current.start, Element.isNewline element = false

variable {passed : List ε} {current : LineStart}

/-- Before anything is passed, the first line is the last. -/
theorem isLastLine_nil : IsLastLine ([] : List ε) ⟨1, 0⟩ where
  line_eq := rfl
  start_le := Nat.le_refl 0
  opens := Or.inl rfl
  isOpen := by simp

/-- **One step**: after a further element, the line that it leads to is the last. -/
theorem IsLastLine.advance (last : IsLastLine passed current) (element : ε) :
    IsLastLine (passed ++ [element]) (current.advance element passed.length) := by
  unfold LineStart.advance
  have line := last.line_eq
  have inside := last.start_le
  by_cases ends : Element.isNewline element = true
  · rw [if_pos ends]
    refine ⟨?_, ?_, Or.inr ⟨passed, element, ?_, ends⟩, ?_⟩
    · simp only [List.countP_append, List.countP_singleton, if_pos ends]
      omega
    · simp
    · exact List.take_of_length_le (by simp)
    · simp
  · rw [if_neg ends]
    refine ⟨?_, ?_, ?_, ?_⟩
    · simp only [List.countP_append, List.countP_singleton, if_neg ends]
      omega
    · rw [List.length_append]
      omega
    · rw [List.take_append_of_le_length inside]
      exact last.opens
    · rw [List.drop_append_of_le_length inside]
      intro other mem
      rcases List.mem_append.1 mem with before | here
      · exact last.isOpen other before
      · rw [List.mem_singleton.1 here]
        exact Bool.eq_false_iff.2 ends

/-- **A run**: after all the elements, the line that is kept is their last. -/
theorem isLastLine_foldl (passed : List ε) :
    IsLastLine passed (passed.zipIdx.foldl
      (fun current (element, index) => current.advance element index) ⟨1, 0⟩) := by
  induction passed using List.reverseRecOn with
  | nil => exact isLastLine_nil
  | append_singleton passed element ih =>
      rw [List.zipIdx_append, List.foldl_append]
      simpa using ih.advance element

/-- No element of the last line ends it. -/
theorem IsLastLine.countP_drop (last : IsLastLine passed current) :
    (passed.drop current.start).countP Element.isNewline = 0 :=
  List.countP_eq_zero.2 fun element mem => by rw [last.isOpen element mem]; exact Bool.false_ne_true

/-- The last line of the elements passed goes back to the last element that ends a line. -/
theorem IsLastLine.drop_eq_rtakeWhile (last : IsLastLine passed current) :
    passed.drop current.start = passed.rtakeWhile fun element => !Element.isNewline element := by
  have isOpen : ∀ element ∈ passed.drop current.start, (!Element.isNewline element) = true :=
    fun element mem => by rw [last.isOpen element mem, Bool.not_false]
  have split := rtakeWhile_append_of_pos isOpen (passed.take current.start)
  rw [List.take_append_drop] at split
  rw [split]
  rcases last.opens with start | ⟨earlier, ending, opens, ends⟩
  · rw [start, List.take_zero, List.rtakeWhile_nil, List.nil_append]
  · rw [opens, List.rtakeWhile_concat_neg _ _ _ (by simp [ends]), List.nil_append]

/-- **The lines before the one that is kept** are as many as its number says, and they take up the
elements before its start together with the elements that end them. -/
theorem IsLastLine.exists_splitOnP (last : IsLastLine passed current) (behind : List ε) :
    ∃ before, (passed ++ behind).splitOnP Element.isNewline =
        before ++ (passed.drop current.start ++ behind).splitOnP Element.isNewline ∧
      before.length = current.line - 1 ∧
      before.flatten.length + before.length = current.start := by
  have line := last.line_eq
  have noneOpen := last.countP_drop
  rcases last.opens with start | ⟨earlier, ending, opens, ends⟩
  · rw [start, List.drop_zero] at noneOpen
    refine ⟨[], by rw [start, List.drop_zero, List.nil_append], ?_, start.symm⟩
    rw [line, noneOpen, List.length_nil]
  · have split : passed = earlier ++ ending :: passed.drop current.start := by
      calc passed = passed.take current.start ++ passed.drop current.start :=
            (List.take_append_drop current.start passed).symm
        _ = earlier ++ ending :: passed.drop current.start := by
            rw [opens, List.append_assoc, List.singleton_append]
    have count : passed.countP Element.isNewline = earlier.countP Element.isNewline + 1 := by
      calc passed.countP Element.isNewline
          = (earlier ++ ending :: passed.drop current.start).countP Element.isNewline := by
            rw [← split]
        _ = earlier.countP Element.isNewline + 1 := by
            rw [List.countP_append, List.countP_cons, if_pos ends, noneOpen]
    have start : earlier.length + 1 = current.start := by
      have length := congrArg List.length opens
      rw [List.length_take_of_le last.start_le, List.length_append, List.length_singleton] at length
      exact length.symm
    refine ⟨earlier.splitOnP Element.isNewline, ?_, ?_, ?_⟩
    · rw [← List.splitOnP_append_cons _ _ ends, ← List.cons_append, ← List.append_assoc, ← split]
    · rw [length_splitOnP]
      omega
    · have all := length_flatten_splitOnP Element.isNewline earlier
      rw [length_splitOnP]
      omega

/-- **The line of the number that is kept** is the last one of the elements passed, going on with
what follows them up to the next end of a line. -/
theorem IsLastLine.getElem?_splitOnP (last : IsLastLine passed current) (behind : List ε) :
    ((passed ++ behind).splitOnP Element.isNewline)[current.line - 1]? =
      some (passed.drop current.start ++
        behind.takeWhile fun element => !Element.isNewline element) := by
  obtain ⟨before, pieces, count, -⟩ := last.exists_splitOnP behind
  rw [pieces, ← count, List.getElem?_append_right (Nat.le_refl _), Nat.sub_self,
    ← List.head?_eq_getElem?, head?_splitOnP, List.takeWhile_append_of_pos]
  intro element mem
  rw [last.isOpen element mem, Bool.not_false]

end LineStart

namespace Location

/-- The line of a location is the last one of the elements before it. -/
theorem isLastLine_lineStart (l : Location ε) :
    LineStart.IsLastLine (l.buffer.toList.take l.index) l.lineStart :=
  LineStart.isLastLine_foldl (l.buffer.toList.take l.index)

/-- The line of a location counts the elements before it that end a line. -/
theorem coordinates_line (l : Location ε) :
    l.coordinates.line = 1 + (l.buffer.toList.take l.index).countP Element.isNewline :=
  l.isLastLine_lineStart.line_eq

/-- What stands on the line of a location before it. -/
def lineBefore (l : Location ε) : List ε :=
  (l.buffer.toList.take l.index).rtakeWhile fun element => !Element.isNewline element

/-- Inside the buffer the offset counts what stands on the line before the location. -/
theorem length_lineBefore {l : Location ε} (inside : l.index ≤ l.buffer.size) :
    l.lineBefore.length = l.coordinates.offset := by
  rw [lineBefore, ← l.isLastLine_lineStart.drop_eq_rtakeWhile, List.length_drop, List.length_take,
    Array.length_toList, Nat.min_eq_left inside]
  rfl

/-- The line of a location is what stands on it before the location, and then what stands behind the
location up to the next end of a line. -/
theorem getElem?_lines (l : Location ε) :
    l.lines[l.coordinates.line - 1]? =
      some (l.lineBefore ++
        (l.buffer.toList.drop l.index).takeWhile fun element => !Element.isNewline element) := by
  have last := l.isLastLine_lineStart
  have found := last.getElem?_splitOnP (l.buffer.toList.drop l.index)
  rw [List.take_append_drop, last.drop_eq_rtakeWhile] at found
  exact found

/-- **The coordinates of a location lead back to it**: the line of the number goes on at the offset
with what stands behind the location, up to the next end of a line. -/
theorem exists_line {l : Location ε} (inside : l.index ≤ l.buffer.size) :
    ∃ line, l.lines[l.coordinates.line - 1]? = some line ∧
      l.coordinates.offset ≤ line.length ∧
      line.drop l.coordinates.offset =
        (l.buffer.toList.drop l.index).takeWhile fun element => !Element.isNewline element := by
  rw [← length_lineBefore inside]
  refine ⟨_, l.getElem?_lines, ?_, ?_⟩
  · rw [List.length_append]
    exact Nat.le_add_right _ _
  · rw [List.drop_left]

end Location

end ParserCombinators
