import Mathlib.Data.List.Basic
import Mathlib.Data.List.GetD
import ParserCombinators.Proofs.Diagnostic.Coordinates

/-! # The lines around a location

A location is shown by the lines at most two away from its own. The line of the location is counted
by one scan of the elements, and the lines to show come from another; this file shows that they fit
together, and that the caret below the line of the location stands where that line shows the element
at the location.

* **`Location.lineTexts`** — the lines as they are shown, without labels.
* **`Location.plainRows`** — rows for a range of lines, each with its number and its content.
* **`Location.markedRow`**, **`Location.caretRow`** — the row of the location's line, and the caret.
* **`Location.lastShown`** — the last line that may be shown.
* **`Location.any_isNewline_getLast?_iff`** — when a buffer ends with an empty line.
* **`Location.layout`** — the texts of the rows, however long they are; **`Location.layout_eq`** — they
  are taken apart at the caret.
* **`Location.contextLines_eq_ite`** — the rows are shown exactly if a text can have as many blanks as
  the caret needs; **`Location.ShownAs`** — they are shown then, and nothing is otherwise.
* **`Location.toList_markedRow`** — the row of the location's line, taken apart at the location.
* **`Location.contextLines_window`** — the rows that show a location, and where the caret stands. -/

namespace ParserCombinators

variable {ε : Type}

/-! ## The text of a row -/

/-- A list of steps, each of which fails exactly if it does not pass a check, fails exactly if one of
them does not. -/
theorem mapM_eq_ite {α β : Type} {step : α → Option β} {result : α → β} {passes : α → Prop}
    [DecidablePred passes] {list : List α}
    (checked : ∀ a ∈ list, step a = if passes a then some (result a) else none) :
    list.mapM step = if ∀ a ∈ list, passes a then some (list.map result) else none := by
  induction list with
  | nil => rfl
  | cons head tail ih =>
      rw [List.mapM_cons, checked head List.mem_cons_self,
        ih fun a mem => checked a (List.mem_cons_of_mem head mem)]
      simp only [List.forall_mem_cons, List.map_cons]
      by_cases first : passes head
      · by_cases others : ∀ a ∈ tail, passes a
        · rw [if_pos first, if_pos others, if_pos ⟨first, others⟩]
          rfl
        · rw [if_pos first, if_neg others, if_neg fun (all : passes head ∧ _) => others all.2]
          rfl
      · rw [if_neg first, if_neg fun (all : passes head ∧ _) => first all.1]
        rfl

namespace ContextRow

/-- The text of a row, however long it is. -/
def text [Element ε] : ContextRow ε → String
  | plain number content => plainLabel number ++ Element.render content
  | marked number content => markedLabel number ++ Element.render content
  | caret indent => String.ofList (List.replicate indent ' ') ++ "^--- here"

/-- A row has a text unless it is a caret with more blanks before it than a text can have. -/
def Fits : ContextRow ε → Prop
  | plain _ _ => True
  | marked _ _ => True
  | caret indent => IsBufferSize indent

instance : DecidablePred (Fits (ε := ε))
  | plain _ _ => inferInstanceAs (Decidable True)
  | marked _ _ => inferInstanceAs (Decidable True)
  | caret indent => inferInstanceAs (Decidable (IsBufferSize indent))

/-- A row that fits is rendered as its text, and no other row is: an indent that is the size of a text
is a size in the first place. -/
theorem render?_eq_ite [Element ε] (row : ContextRow ε) :
    row.render? = if row.Fits then some row.text else none := by
  cases row with
  | plain number content => rfl
  | marked number content => rfl
  | caret indent =>
      by_cases fits : IsBufferSize indent
      · have rowFits : (caret indent : ContextRow ε).Fits := fits
        rw [if_pos rowFits, render?, size?, if_pos fits.isSize, Option.bind_eq_bind,
          Option.bind_some, blanks?, if_pos fits]
        rfl
      · have rowUnfit : ¬ (caret indent : ContextRow ε).Fits := fits
        have none : blanks? indent = none := if_neg fits
        rw [if_neg rowUnfit, render?, size?]
        by_cases isSize : IsSize indent
        · rw [if_pos isSize, Option.bind_eq_bind, Option.bind_some, none]
          rfl
        · -- the sum is refused before there are any blanks
          rw [if_neg isSize]
          rfl

end ContextRow

/-! ## The rows of one line -/

namespace Coordinates

variable {place : Coordinates} {lineCount number : Nat} {content : List ε}

/-- A line more than two lines away is not shown. -/
theorem rowsOfLine_of_far (far : number < place.line - 2 ∨ place.line + 2 < number) :
    place.rowsOfLine lineCount number content = [] :=
  if_pos far

/-- An empty last line is not shown if the place is not there. -/
theorem rowsOfLine_of_empty_last (last : number = lineCount) (empty : content = [])
    (elsewhere : number ≠ place.line) : place.rowsOfLine lineCount number content = [] := by
  unfold rowsOfLine
  split
  · rfl
  · exact if_pos ⟨last, by rw [empty, List.isEmpty_nil], elsewhere⟩

/-- The line of the place has a marked row and a caret below it. -/
theorem rowsOfLine_line :
    place.rowsOfLine lineCount place.line content =
      [.marked place.line content, .caret place.caretIndent] := by
  have near : ¬ (place.line < place.line - 2 ∨ place.line + 2 < place.line) := by omega
  unfold rowsOfLine
  rw [if_neg near, if_neg fun hidden => hidden.2.2 rfl, if_pos rfl]

/-- Another line at most two lines away has an unmarked row, unless it is an empty last line. -/
theorem rowsOfLine_of_near (near : ¬ (number < place.line - 2 ∨ place.line + 2 < number))
    (elsewhere : number ≠ place.line) (shown : ¬ (number = lineCount ∧ content = [])) :
    place.rowsOfLine lineCount number content = [.plain number content] := by
  unfold rowsOfLine
  rw [if_neg near, if_neg fun hidden => shown ⟨hidden.1, List.isEmpty_iff.1 hidden.2.1⟩,
    if_neg elsewhere]

/-- A caret among the rows of a line has the indent that belongs to the place. -/
theorem caret_of_mem_rowsOfLine {indent : Nat}
    (mem : .caret indent ∈ place.rowsOfLine lineCount number content) :
    indent = place.caretIndent := by
  unfold rowsOfLine at mem
  split at mem
  · cases mem
  · split at mem
    · cases mem
    · split at mem
      · simpa using mem
      · simp at mem

end Coordinates

variable [Element ε]

/-! ## The last line -/

/-- The last line is empty exactly if nothing but an end of a line may stand before it. -/
theorem LineStart.IsLastLine.drop_eq_nil_iff {passed : List ε} {current : LineStart}
    (last : LineStart.IsLastLine passed current) :
    passed.drop current.start = [] ↔
      ∀ ending, passed.getLast? = some ending → Element.isNewline ending = true := by
  constructor
  · intro nothing ending isLast
    have whole : passed.take current.start = passed :=
      List.take_of_length_le (List.drop_eq_nil_iff.1 nothing)
    rcases last.opens with start | ⟨earlier, ending', opens, ends⟩
    · rw [start, List.take_zero] at whole
      rw [← whole] at isLast
      cases isLast
    · rw [← whole, opens, List.getLast?_concat] at isLast
      cases isLast
      exact ends
  · intro endsLine
    by_contra some
    -- the last element of all is the last one of the line
    have isLast : passed.getLast? = (passed.drop current.start).getLast? := by
      rw [List.getLast?_drop, if_neg (fun few => some (List.drop_eq_nil_iff.2 few))]
    obtain ⟨ending, found⟩ := Option.isSome_iff_exists.1 (List.getLast?_isSome.2 some)
    have isOpen := last.isOpen ending (List.mem_of_getLast? found)
    exact Bool.false_ne_true (isOpen.symm.trans (endsLine ending (isLast.trans found)))

/-- The last piece is empty exactly if nothing but an end of a line may stand before it. -/
theorem getLast?_splitOnP_eq_nil_iff (elements : List ε) :
    (elements.splitOnP Element.isNewline)[elements.countP Element.isNewline]? = some [] ↔
      ∀ ending, elements.getLast? = some ending → Element.isNewline ending = true := by
  have last := LineStart.isLastLine_foldl elements
  have piece := last.getElem?_splitOnP []
  rw [List.append_nil, List.takeWhile_nil, List.append_nil, last.line_eq,
    Nat.add_sub_cancel_left] at piece
  rw [piece, Option.some_inj]
  exact last.drop_eq_nil_iff

namespace Location

/-- The lines as they are shown, without what stands before them. -/
def lineTexts (l : Location ε) : List String :=
  l.lines.map Element.render

/-- Unmarked rows for the lines from one number to another. -/
def plainRows (texts : List String) (first last : Nat) : List String :=
  (List.range' first (last + 1 - first)).map fun number =>
    ContextRow.plainLabel number ++ texts.getD (number - 1) ""

/-- The row of the location's line. -/
def markedRow (l : Location ε) : String :=
  ContextRow.markedLabel l.coordinates.line ++ l.lineTexts.getD (l.coordinates.line - 1) ""

/-- The row with the caret. -/
def caretRow (l : Location ε) : String :=
  String.ofList (List.replicate l.coordinates.caretIndent ' ') ++ "^--- here"

/-- The last line that is shown if the location is near but not on it: the last one of the buffer,
without the empty one that follows an end of a line at the end of the buffer. -/
def lastShown (l : Location ε) : Nat :=
  if l.buffer.toList.getLast?.any Element.isNewline then l.lines.length - 1 else l.lines.length

/-- There is one line more than there are elements that end one. -/
theorem length_lines (l : Location ε) :
    l.lines.length = l.buffer.toList.countP Element.isNewline + 1 :=
  length_splitOnP Element.isNewline l.buffer.toList

/-- Lines are counted from one. -/
theorem one_le_line (l : Location ε) : 1 ≤ l.coordinates.line := by
  rw [coordinates_line]
  exact Nat.le_add_right 1 _

/-- The line of a location is one of the lines of the buffer, also if the location is beyond the
end. -/
theorem line_le_length_lines (l : Location ε) : l.coordinates.line ≤ l.lines.length := by
  rw [coordinates_line, length_lines, Nat.add_comm]
  exact Nat.succ_le_succ (List.take_sublist l.index l.buffer.toList).countP_le

/-- A buffer ends a line at its end exactly if its last line, but not the only one, is empty. -/
theorem any_isNewline_getLast?_iff (l : Location ε) :
    l.buffer.toList.getLast?.any Element.isNewline = true ↔
      1 < l.lines.length ∧ l.lines[l.lines.length - 1]? = some [] := by
  have count := l.length_lines
  have lastEmpty : l.lines[l.lines.length - 1]? = some [] ↔
      ∀ ending, l.buffer.toList.getLast? = some ending → Element.isNewline ending = true := by
    have lastEmpty := getLast?_splitOnP_eq_nil_iff l.buffer.toList
    rwa [show l.buffer.toList.countP Element.isNewline = l.lines.length - 1 by omega] at lastEmpty
  rw [lastEmpty, Option.any_eq_true]
  constructor
  · rintro ⟨ending, isLast, ends⟩
    have some : 0 < l.buffer.toList.countP Element.isNewline :=
      List.countP_pos_iff.2 ⟨ending, List.mem_of_getLast? isLast, ends⟩
    exact ⟨by omega, fun other same => Option.some.inj (isLast.symm.trans same) ▸ ends⟩
  · rintro ⟨several, all⟩
    have elements : l.buffer.toList ≠ [] := by
      intro none
      rw [none, List.countP_nil] at count
      omega
    exact ⟨_, List.getLast?_eq_some_getLast elements, all _ (List.getLast?_eq_some_getLast elements)⟩

/-- A line behind the one of the location is an empty last line exactly if it is beyond those that
are shown. -/
theorem empty_last_iff_lastShown_lt {l : Location ε} {number : Nat}
    (behind : l.coordinates.line < number) (inside : number ≤ l.lines.length) :
    number = l.lines.length ∧ l.lines.getD (number - 1) [] = [] ↔ l.lastShown < number := by
  have first := l.one_le_line
  unfold lastShown
  by_cases ends : l.buffer.toList.getLast?.any Element.isNewline = true
  · rw [if_pos ends]
    refine ⟨fun last => by omega, fun beyond => ?_⟩
    obtain rfl : number = l.lines.length := by omega
    have empty := (l.any_isNewline_getLast?_iff.1 ends).2
    exact ⟨rfl, by rw [List.getD_eq_getElem?_getD, empty, Option.getD_some]⟩
  · rw [if_neg ends]
    refine iff_of_false ?_ (Nat.not_lt_of_le inside)
    rintro ⟨rfl, empty⟩
    -- the line of the location is before this one, so the empty last line is not the only one
    refine ends (l.any_isNewline_getLast?_iff.2 ⟨by omega, ?_⟩)
    rw [List.getD_eq_getElem _ _ (by omega)] at empty
    rw [List.getElem?_eq_getElem (by omega), empty]

/-! ## All rows -/

/-- The rows of the line of a number, as texts. -/
def rowTexts (l : Location ε) (number : Nat) : List String :=
  (l.coordinates.rowsOfLine l.lines.length number (l.lines.getD (number - 1) [])).map
    ContextRow.text

/-- The texts of the rows that show a location, however long they are. -/
def layout (l : Location ε) : List String :=
  l.contextRows.map ContextRow.text

/-- The layout goes through the lines by their numbers. -/
theorem layout_eq_flatMap (l : Location ε) :
    l.layout = (List.range' 1 l.lines.length).flatMap l.rowTexts := by
  have numbered : l.lines.zipIdx 1 =
      (List.range' 1 l.lines.length).map fun number => (l.lines.getD (number - 1) [], number) := by
    refine List.ext_getElem (by simp) fun index inside _ => ?_
    rw [List.length_zipIdx] at inside
    simp [List.getElem?_eq_getElem inside]
  rw [layout, contextRows, numbered, List.flatMap_map, List.map_flatMap]
  rfl

/-- The text of a line is what shows its content. -/
theorem getD_lineTexts {l : Location ε} {number : Nat} (first : 1 ≤ number)
    (inside : number ≤ l.lines.length) :
    l.lineTexts.getD (number - 1) "" = Element.render (l.lines.getD (number - 1) []) := by
  have here : number - 1 < l.lines.length := by omega
  rw [lineTexts, List.getD_eq_getElem _ _ (by rwa [List.length_map]), List.getElem_map,
    List.getD_eq_getElem _ _ here]

/-- Lines that are too far away, or empty at the end of the buffer and not the location's, have no
rows. -/
theorem flatMap_rowTexts_eq_nil {l : Location ε} {first count : Nat}
    (hidden : ∀ number, first ≤ number → number < first + count →
      (number < l.coordinates.line - 2 ∨ l.coordinates.line + 2 < number) ∨
        number ≠ l.coordinates.line ∧ number = l.lines.length ∧
          l.lines.getD (number - 1) [] = []) :
    (List.range' first count).flatMap l.rowTexts = [] := by
  refine List.flatMap_eq_nil_iff.2 fun number mem => ?_
  rw [List.mem_range'_1] at mem
  rcases hidden number mem.1 mem.2 with far | ⟨elsewhere, last, empty⟩
  · rw [rowTexts, Coordinates.rowsOfLine_of_far far, List.map_nil]
  · rw [rowTexts, Coordinates.rowsOfLine_of_empty_last last empty elsewhere, List.map_nil]

/-- Lines that are near, but none of them the location's or an empty last one, have plain rows. -/
theorem flatMap_rowTexts_eq_plainRows {l : Location ε} {first last : Nat}
    (shown : ∀ number, first ≤ number → number ≤ last →
      (1 ≤ number ∧ number ≤ l.lines.length) ∧ number ≠ l.coordinates.line ∧
        ¬ (number < l.coordinates.line - 2 ∨ l.coordinates.line + 2 < number) ∧
        ¬ (number = l.lines.length ∧ l.lines.getD (number - 1) [] = [])) :
    (List.range' first (last + 1 - first)).flatMap l.rowTexts =
      plainRows l.lineTexts first last := by
  rw [plainRows, List.map_eq_flatMap]
  refine List.flatMap_congr fun number mem => ?_
  rw [List.mem_range'_1] at mem
  obtain ⟨⟨fromFirst, toLast⟩, elsewhere, near, some⟩ := shown number mem.1 (by omega)
  rw [rowTexts, Coordinates.rowsOfLine_of_near near elsewhere some, getD_lineTexts fromFirst toLast]
  rfl

/-- A range of numbers, cut in two. -/
theorem range'_eq_append {start middle stop : Nat} (before : start ≤ middle)
    (behind : middle ≤ stop) :
    List.range' start (stop - start) =
      List.range' start (middle - start) ++ List.range' middle (stop - middle) := by
  have sizes : stop - start = (middle - start) + (stop - middle) := by omega
  have cut : start + (middle - start) = middle := by omega
  rw [sizes, ← List.range'_append_1, cut]

/-- **What is shown of a location**: the rows of the lines above its own, the row of its own line
with the caret below it, and the rows of the lines below, up to the last one that is shown. -/
theorem layout_eq (l : Location ε) :
    l.layout =
      plainRows l.lineTexts (max 1 (l.coordinates.line - 2)) (l.coordinates.line - 1) ++
        l.markedRow :: l.caretRow ::
          plainRows l.lineTexts (l.coordinates.line + 1)
            (min l.lastShown (l.coordinates.line + 2)) := by
  have one := l.one_le_line
  have inside := l.line_le_length_lines
  have lastShown_le : l.lastShown ≤ l.lines.length := by
    unfold lastShown
    split <;> omega
  have hidden : ∀ number, l.coordinates.line < number → number ≤ l.lines.length →
      (number = l.lines.length ∧ l.lines.getD (number - 1) [] = [] ↔ l.lastShown < number) :=
    fun number => empty_last_iff_lastShown_lt
  set line := l.coordinates.line with line_eq
  set first := max 1 (line - 2) with first_eq
  set last := min l.lastShown (line + 2) with last_eq
  -- five ranges of lines: too far above, above, the location's own, below, and not shown below
  have farAbove : (List.range' 1 (first - 1)).flatMap l.rowTexts = [] := by
    refine flatMap_rowTexts_eq_nil fun number fromFirst toLast => Or.inl ?_
    omega
  have farBelow : (List.range' (max line last + 1) (l.lines.length + 1 - (max line last + 1))).flatMap
      l.rowTexts = [] := by
    refine flatMap_rowTexts_eq_nil fun number fromFirst toLast => ?_
    by_cases far : line + 2 < number
    · exact Or.inl (Or.inr far)
    · exact Or.inr ⟨by omega, (hidden number (by omega) (by omega)).2 (by omega)⟩
  have above : (List.range' first (line - first)).flatMap l.rowTexts =
      plainRows l.lineTexts first (line - 1) := by
    rw [← flatMap_rowTexts_eq_plainRows, show line - 1 + 1 = line by omega]
    intro number fromFirst toLast
    exact ⟨by omega, by omega, by omega, by omega⟩
  have here : l.rowTexts line = [l.markedRow, l.caretRow] := by
    rw [rowTexts, Coordinates.rowsOfLine_line, markedRow, getD_lineTexts one inside]
    rfl
  have below : (List.range' (line + 1) (max line last + 1 - (line + 1))).flatMap l.rowTexts =
      plainRows l.lineTexts (line + 1) last := by
    rw [← flatMap_rowTexts_eq_plainRows, show max line last + 1 - (line + 1) = last + 1 - (line + 1)
      by omega]
    intro number fromFirst toLast
    refine ⟨by omega, by omega, by omega, fun empty => ?_⟩
    have beyond := (hidden number (by omega) (by omega)).1 empty
    omega
  have numbers : List.range' 1 l.lines.length =
      List.range' 1 (first - 1) ++ (List.range' first (line - first) ++
        line :: (List.range' (line + 1) (max line last + 1 - (line + 1)) ++
          List.range' (max line last + 1) (l.lines.length + 1 - (max line last + 1)))) := by
    have own : l.lines.length + 1 - line = l.lines.length + 1 - (line + 1) + 1 := by omega
    rw [← range'_eq_append (by omega) (by omega), ← List.range'_succ, ← own,
      ← range'_eq_append (by omega) (by omega), ← range'_eq_append (by omega) (by omega),
      Nat.add_sub_cancel]
  rw [layout_eq_flatMap, numbers]
  simp only [List.flatMap_append, List.flatMap_cons, farAbove, above, here, below, farBelow,
    List.nil_append, List.append_nil, List.cons_append]

/-! ## Whether there are rows -/

/-- Among the rows that show a location is the caret with its indent. -/
theorem caret_mem_contextRows (l : Location ε) :
    .caret l.coordinates.caretIndent ∈ l.contextRows := by
  have first := l.one_le_line
  have inside := l.line_le_length_lines
  obtain ⟨content, here⟩ : ∃ content, l.lines[l.coordinates.line - 1]? = some content :=
    ⟨_, List.getElem?_eq_getElem (by omega)⟩
  refine List.mem_flatMap.2
    ⟨(content, l.coordinates.line), List.mem_zipIdx_iff_le_and_getElem?_sub.2 ⟨first, here⟩, ?_⟩
  simp [Coordinates.rowsOfLine_line]

/-- All the rows have texts exactly if a text can have as many blanks as the caret needs. -/
theorem forall_fits_contextRows_iff (l : Location ε) :
    (∀ row ∈ l.contextRows, row.Fits) ↔ IsBufferSize l.coordinates.caretIndent := by
  refine ⟨fun all => all _ l.caret_mem_contextRows, fun fits row mem => ?_⟩
  obtain ⟨line, -, mem⟩ := List.mem_flatMap.1 mem
  cases row with
  | plain number content => trivial
  | marked number content => trivial
  | caret indent =>
      rw [Coordinates.caret_of_mem_rowsOfLine mem]
      exact fits

/-- **There are rows for a location exactly if a text can have as many blanks as the caret needs**, and
then they are laid out as they are. -/
theorem contextLines_eq_ite (l : Location ε) :
    l.contextLines = if IsBufferSize l.coordinates.caretIndent then some l.layout else none := by
  rw [contextLines, mapM_eq_ite fun row _ => row.render?_eq_ite, layout]
  simp only [l.forall_fits_contextRows_iff]

/-- The location is shown by these rows, if a text can have as many blanks as the caret needs. If none
can, there is nothing that shows it. -/
def ShownAs (l : Location ε) (rows : List String) : Prop :=
  l.contextLines = if IsBufferSize l.coordinates.caretIndent then some rows else none

/-- A location is shown by its layout. -/
theorem shownAs_layout (l : Location ε) : l.ShownAs l.layout :=
  l.contextLines_eq_ite

/-! ## The marker and the caret -/

/-- The characters of the row with the caret. -/
theorem toList_caretRow (l : Location ε) :
    l.caretRow.toList =
      List.replicate l.coordinates.caretIndent ' ' ++ ['^', '-', '-', '-', ' ', 'h', 'e', 'r', 'e'] := by
  simp [caretRow]

/-- The column of the caret. -/
theorem idxOf_caretRow (l : Location ε) :
    l.caretRow.toList.idxOf '^' = l.coordinates.caretIndent := by
  rw [toList_caretRow, List.idxOf_append_of_notMem fun mem => ?_, List.length_replicate,
    List.idxOf_cons_self, Nat.add_zero]
  have blank := List.eq_of_mem_replicate mem
  revert blank
  decide

/-- The row of a location's line: the label, what stands on the line before the location, and what
stands behind the location up to the next end of a line. -/
theorem toList_markedRow (l : Location Char) :
    l.markedRow.toList =
      (ContextRow.markedLabel l.coordinates.line).toList ++
        (l.lineBefore ++ (l.buffer.toList.drop l.index).takeWhile fun c => !Element.isNewline c) := by
  rw [markedRow, getD_lineTexts l.one_le_line l.line_le_length_lines,
    List.getD_eq_getElem?_getD, getElem?_lines, Option.getD_some, String.toList_append]
  exact congrArg (_ ++ ·) String.toList_ofList

end Location

end ParserCombinators
