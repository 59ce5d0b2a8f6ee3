/-! # Cursors over a buffer

A cursor is an immutable view of the part of a buffer that is left to read. It stands either at an
index of the buffer or at the end of the input, and advancing returns a new cursor, so keeping an
old one is all that backtracking takes.

* **`Cursor ε`** — a view of an array of `ε`, with the array it looks into.
* **`Cursor.first?`**, **`Cursor.advance`** — read the next element, step over it;
  **`Cursor.advanceBy`** takes several steps.
* **`Cursor.position`** — how many elements lie before the cursor, never more than the buffer has.
* **`Cursor.inner`** — the buffer together with the position, for those who go on without a cursor.
* **`Cursor.remaining`** — the elements that are left: the view through which cursors are compared
  and through which every statement about them is made.
* **`Cursor.Reaches`** — the cursors that reading can come to.

An index past the end of the buffer is allowed and denotes the end of the input. -/

namespace ParserCombinators

/-- A view of the part of a buffer that has not been read. -/
inductive Cursor (ε : Type) where
  /-- Standing at an index of the buffer; the end of the input if the index is out of range. -/
  | valid (buffer : Array ε) (index : Nat)
  /-- Standing after the last element of the buffer. -/
  | endOfInput (buffer : Array ε)
  deriving DecidableEq

namespace Cursor

variable {ε : Type}

/-- The cursor at the start of a buffer. -/
def ofBuffer (buffer : Array ε) : Cursor ε :=
  if buffer.isEmpty then .endOfInput buffer else .valid buffer 0

/-- The buffer that the cursor looks into, the part already read included. -/
def buffer : Cursor ε → Array ε
  | .valid buffer _ => buffer
  | .endOfInput buffer => buffer

/-- The number of elements before the cursor; at the end of the input, the size of the buffer. -/
def position : Cursor ε → Nat
  | .valid buffer index => min index buffer.size
  | .endOfInput buffer => buffer.size

/-- The next element, or `none` at the end of the input. -/
def first? : Cursor ε → Option ε
  | .valid buffer index => buffer[index]?
  | .endOfInput _ => none

/-- The cursor after the next element. A cursor at the end stays at the end. -/
def advance : Cursor ε → Cursor ε
  | .valid buffer index =>
      if buffer.size - 1 ≤ index then .endOfInput buffer else .valid buffer (index + 1)
  | .endOfInput buffer => .endOfInput buffer

/-- The cursor after a number of steps. -/
def advanceBy (c : Cursor ε) : Nat → Cursor ε
  | 0 => c
  | count + 1 => (c.advanceBy count).advance

/-- Whether there is nothing left to read. -/
def atEnd (c : Cursor ε) : Bool :=
  c.first?.isNone

/-- The elements that have not been read. -/
def remaining (c : Cursor ε) : List ε :=
  c.buffer.toList.drop c.position

/-- The buffer and the position in it: what a cursor is taken apart into. -/
def inner : Cursor ε → Array ε × Nat
  | .valid buffer index => (buffer, min index buffer.size)
  | .endOfInput buffer => (buffer, buffer.size)

/-- How many elements have not been read. -/
def remainingCount (c : Cursor ε) : Nat :=
  c.buffer.size - c.position

/-- Whether two cursors have the same elements left to read, whatever their buffers and positions. -/
def sameContent [DecidableEq ε] (c d : Cursor ε) : Bool :=
  decide (c.remaining = d.remaining)

/-- A cursor is canonical when it stands at an element or is marked as being at the end. -/
def Canonical : Cursor ε → Prop
  | .valid buffer index => index < buffer.size
  | .endOfInput _ => True

/-- A cursor reaches another that lies after some of the elements that it has left. -/
def Reaches (c d : Cursor ε) : Prop :=
  ∃ count, count ≤ c.remainingCount ∧ d = c.advanceBy count

end Cursor

end ParserCombinators
