import ParserCombinators.Element
import ParserCombinators.Numeral.IntRange

/-! # Locations in a buffer

A location is an index into a buffer, possibly beyond its end. For a reader it is shown by the
number of its line and its offset in that line, and by the lines around it with a caret below.

* **`Location ε`** — a buffer and an index; **`Location.coordinates`** — line and offset.
* **`Location.lines`** — the pieces between the elements that end a line.
* **`ContextRow`** — a row of what is shown; **`ContextRow.render?`** — its text, if there can be
  one.
* **`Location.contextRows`** — the rows around a location; **`Location.contextLines`** — their texts.

Lines and offsets are counted without a bound here. In a buffer that exists they are sizes, and so is
every number on the way to them. Only the indent of the caret, which grows with the location, can be
too great, and then the location is not shown: the program that shows it stops there. -/

namespace ParserCombinators

variable {ε : Type}

/-- A line, counted from one, and an offset in it, counted from zero. -/
structure Coordinates where
  /-- The number of the line. -/
  line : Nat
  /-- The number of elements between the start of the line and the location. -/
  offset : Nat
  deriving DecidableEq

/-- A line, counted from one, and the index at which it starts. -/
structure LineStart where
  /-- The number of the line. -/
  line : Nat
  /-- The index of the first element of the line. -/
  start : Nat
  deriving DecidableEq

/-- The line that an element leads to: after an element that ends a line the next one starts. -/
def LineStart.advance [Element ε] (current : LineStart) (element : ε) (index : Nat) : LineStart :=
  if Element.isNewline element then ⟨current.line + 1, index + 1⟩ else current

/-- An index into a buffer. Beyond the end of the buffer it counts on. -/
structure Location (ε : Type) where
  /-- The buffer. -/
  buffer : Array ε
  /-- The index. -/
  index : Nat

/-- A row that shows a line of a buffer or marks a place in the row above. -/
inductive ContextRow (ε : Type) where
  /-- A line in the neighbourhood of the location. -/
  | plain (number : Nat) (content : List ε)
  /-- The line of the location. -/
  | marked (number : Nat) (content : List ε)
  /-- A caret after `indent` blanks. -/
  | caret (indent : Nat)
  deriving DecidableEq

namespace ContextRow

/-- What stands before the content of a line near the location. -/
def plainLabel (number : Nat) : String :=
  "    " ++ toString number ++ " | "

/-- What stands before the content of the location's line. -/
def markedLabel (number : Nat) : String :=
  "  > " ++ toString number ++ " | "

/-- A text of so many blanks, unless that is more than a text can take up. -/
def blanks? (count : Nat) : Option String :=
  if IsBufferSize count then some (String.ofList (List.replicate count ' ')) else none

/-- The text of a row. The indent of a caret is a sum that has to be a size, and so many blanks have
to fit into a text; otherwise there is none. -/
def render? [Element ε] : ContextRow ε → Option String
  | plain number content => some (plainLabel number ++ Element.render content)
  | marked number content => some (markedLabel number ++ Element.render content)
  | caret indent => do
      let count ← size? indent
      let blanks ← blanks? count
      return blanks ++ "^--- here"

end ContextRow

namespace Coordinates

/-- How far a caret at the place is indented: past the label of the marked row and the offset. -/
def caretIndent (place : Coordinates) : Nat :=
  (ContextRow.markedLabel place.line).length + place.offset

/-- The rows for one of `lineCount` lines. A line is shown if it is at most two lines away from the
place, but not an empty last line, unless the place is there. -/
def rowsOfLine (place : Coordinates) (lineCount number : Nat) (content : List ε) :
    List (ContextRow ε) :=
  if number < place.line - 2 ∨ place.line + 2 < number then []
  else if number = lineCount ∧ content.isEmpty ∧ number ≠ place.line then []
  else if number = place.line then [.marked number content, .caret place.caretIndent]
  else [.plain number content]

end Coordinates

namespace Location

variable [Element ε]

/-- The line of the location and where it starts: the elements before the location are passed one
after the other. -/
def lineStart (l : Location ε) : LineStart :=
  (l.buffer.toList.take l.index).zipIdx.foldl
    (fun current (element, index) => current.advance element index) ⟨1, 0⟩

/-- The line of the location and its offset there. -/
def coordinates (l : Location ε) : Coordinates :=
  ⟨l.lineStart.line, l.index - l.lineStart.start⟩

/-- The lines of the buffer, without the elements that end them. After an element that ends a line
there is always another line, which may be empty. -/
def lines (l : Location ε) : List (List ε) :=
  l.buffer.toList.splitOnP Element.isNewline

/-- The rows that show the location. -/
def contextRows (l : Location ε) : List (ContextRow ε) :=
  let place := l.coordinates
  let lineCount := l.lines.length
  (l.lines.zipIdx 1).flatMap fun (content, number) => place.rowsOfLine lineCount number content

/-- The text that shows the location, row by row, if there is one for each row. -/
def contextLines (l : Location ε) : Option (List String) :=
  l.contextRows.mapM ContextRow.render?

end Location

end ParserCombinators
