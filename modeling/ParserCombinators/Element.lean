import ParserCombinators.Text.Utf8

/-! # Elements of a buffer

Buffers hold characters or bytes. Diagnostics need to know of an element type which element ends a
line and how a piece of a buffer is shown.

* **`Element ε`** — the two facts.
* Characters are shown as they are, bytes as the text they encode (`Utf8.decode`). The line feed
  ends a line in both. -/

namespace ParserCombinators

/-- What diagnostics need to know of the elements of a buffer. -/
class Element (ε : Type) where
  /-- Whether the element ends a line. -/
  isNewline : ε → Bool
  /-- The text that shows a piece of a buffer. -/
  render : List ε → String

instance : Element Char where
  isNewline c := c == '\n'
  render := String.ofList

instance : Element UInt8 where
  isNewline byte := byte == 0x0A
  render bytes := String.ofList (Utf8.decode bytes)

end ParserCombinators
