import ParserCombinators.Numeral.Digits

/-! # Binary floating-point formats

A format is given by the number of its significant bits and of its exponent bits. A magnitude is
measured in units of the least positive number of the format, so that all of the format's numbers
are natural numbers of units and rounding is exact arithmetic on natural numbers.

* **`BinaryFormat`** — the format, with **`BinaryFormat.binary32`** and
  **`BinaryFormat.binary64`**.
* **`BinaryFormat.roundHalfEven`** — the integer nearest to a quotient; a tie goes to the even one.
* **`BinaryFormat.magnitudeBits`** — the bits below the sign of the number nearest to a quotient.
* **`BinaryFormat.ofRatio`** — the bits of the number nearest to a quotient, which may be infinity.
* **`BinaryFormat.ofText?`** — the bits of the number nearest to what a text denotes.
* **`BinaryFormat.negate`**, **`BinaryFormat.isFinite`** — the number with the other sign, and
  whether it is finite; **`BinaryFormat.ofSignedText?`** — the bits of a text with a sign, unless
  they are infinity's.

In the encoding the bits below the sign of a format's numbers ascend with the numbers themselves. A
carry out of the significant bits therefore moves into the exponent, and from the greatest finite
number into the pattern of infinity. -/

namespace ParserCombinators

/-- A binary floating-point format. -/
structure BinaryFormat where
  /-- The number of significant bits of a normal number, the leading one included. -/
  precision : Nat
  /-- The number of bits that hold the exponent. -/
  exponentBits : Nat
  deriving DecidableEq

namespace BinaryFormat

/-- The format of 32 bits. -/
def binary32 : BinaryFormat :=
  ⟨24, 8⟩

/-- The format of 64 bits. -/
def binary64 : BinaryFormat :=
  ⟨53, 11⟩

/-- The number of bits of the encoding: the exponent, the significant bits without the leading one,
and the sign. -/
def width (format : BinaryFormat) : Nat :=
  format.precision + format.exponentBits

/-- The least positive number is `2 ^ -scale`. -/
def scale (format : BinaryFormat) : Nat :=
  Nat.pow 2 (format.exponentBits - 1) + format.precision - 3

/-- The bits below the sign that denote infinity: an exponent of ones and nothing after it. -/
def infinityBits (format : BinaryFormat) : Nat :=
  (Nat.pow 2 format.exponentBits - 1) * Nat.pow 2 (format.precision - 1)

/-- The integer nearest to `n / d`; of two that are equally near, the even one. -/
def roundHalfEven (n d : Nat) : Nat :=
  let quotient := n / d
  let remainder := n % d
  if 2 * remainder < d then quotient
  else if d < 2 * remainder then quotient + 1
  else quotient + quotient % 2

/-- The bits below the sign of the number nearest to `numerator / denominator`; of two that are
equally near, the one whose last bit is zero. The quotient is cut at the last significant bit,
`2 ^ shift` units above the least number, and every such binade adds one to the exponent. -/
def magnitudeBits (format : BinaryFormat) (numerator denominator : Nat) : Nat :=
  let units := numerator * Nat.pow 2 format.scale
  let shift := Nat.log2 (units / denominator) - (format.precision - 1)
  shift * Nat.pow 2 (format.precision - 1) +
    roundHalfEven units (denominator * Nat.pow 2 shift)

/-- The bits of the number nearest to `numerator / denominator`, which is infinity if the quotient is
too great for the format. -/
def ofRatio (format : BinaryFormat) (numerator denominator : Nat) : BitVec format.width :=
  BitVec.ofNat format.width (min (format.magnitudeBits numerator denominator) format.infinityBits)

/-- The bits of the number nearest to what a text denotes: digits, a point and digits, of which one
side may be empty. Other texts, with a sign, with an exponent or without a point, are not read. -/
def ofText? (format : BinaryFormat) (text : String) : Option (BitVec format.width) :=
  let whole := text.toList.takeWhile Char.isDigit
  let behind := text.toList.dropWhile Char.isDigit
  let fraction := behind.drop 1
  if behind.head? = some '.' ∧ fraction.all Char.isDigit ∧ whole ++ fraction ≠ [] then
    some (format.ofRatio (Digits.toNat (whole ++ fraction)) (Nat.pow 10 fraction.length))
  else none

/-- The bits with the other sign. The sign is the first bit, so adding that bit turns it over. -/
def negate (format : BinaryFormat) (bits : BitVec format.width) : BitVec format.width :=
  BitVec.ofNat format.width (bits.toNat + Nat.pow 2 (format.width - 1))

/-- Whether the bits denote a finite number: those below the sign are less than infinity's. -/
def isFinite (format : BinaryFormat) (bits : BitVec format.width) : Bool :=
  bits.toNat % Nat.pow 2 (format.width - 1) < format.infinityBits

/-- The bits of the number nearest to what a text denotes, with the given sign, unless that number is
infinite. Zero has a sign too. -/
def ofSignedText? (format : BinaryFormat) (negative : Bool) (text : String) :
    Option (BitVec format.width) := do
  let magnitude ← format.ofText? text
  let value := if negative then format.negate magnitude else magnitude
  if format.isFinite value then some value else none

end BinaryFormat

end ParserCombinators
