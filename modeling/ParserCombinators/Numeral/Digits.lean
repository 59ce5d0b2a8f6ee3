/-! # Values of digit strings

* **`Digits.value`** — the number that a digit denotes.
* **`Digits.toNat`** — the number that a list of digits denotes, the most significant first. -/

namespace ParserCombinators.Digits

/-- The number that a decimal digit denotes. -/
def value (digit : Char) : Nat :=
  digit.toNat - '0'.toNat

/-- The number that a list of decimal digits denotes, the most significant first. -/
def toNat (digits : List Char) : Nat :=
  digits.foldl (fun total digit => total * 10 + value digit) 0

end ParserCombinators.Digits
