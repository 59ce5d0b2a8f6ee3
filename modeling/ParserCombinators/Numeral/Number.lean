import ParserCombinators.Numeral.BinaryFormat
import ParserCombinators.Numeral.IntRange

/-! # Numbers

* **`Number`** — what a numeral denotes: an integer of 64 bits, or a binary floating-point number
  if it has a fraction. -/

namespace ParserCombinators

/-- What a decimal numeral denotes. -/
inductive Number where
  /-- An integer. -/
  | integer (value : Int)
  /-- A floating-point number, given by its bits. -/
  | real (bits : BitVec BinaryFormat.binary64.width)
  deriving DecidableEq

end ParserCombinators
