import ParserCombinators.Numeral.Number
import ParserCombinators.Parser.Character

/-! # Parsers of numerals

A numeral takes all the digits that stand at the cursor. If what it denotes does not fit, the
content is refused; a numeral is never cut down to a beginning that would fit.

* **`Parser.digits`**, **`Parser.digitString`** — one or more decimal digits.
* **`Parser.decimalString`** — digits, a point, and digits.
* **`Parser.natural`**, **`Parser.integer`** — integers of a range, without and with a minus sign.
* **`Parser.decimal`** — numbers of a binary floating-point format, with a point.
* **`Parser.number`** — a decimal fraction or an integer. -/

namespace ParserCombinators.Parser

variable {ν : Type} {τ : ν → Type}

/-- Reads one or more decimal digits. -/
def digits : Parser Char τ (List Char) :=
  many1 digit

/-- Reads one or more decimal digits as a text. -/
def digitString : Parser Char τ String :=
  digits.map String.ofList

/-- Reads digits, a point, and digits as a text. -/
def decimalString : Parser Char τ String :=
  ((digitString.both (literal ".")).extendPair digitString).map
    fun (whole, point, fraction) => whole ++ point ++ fraction

/-- Reads digits that denote an integer of the range. -/
def natural (range : IntRange) : Parser Char τ Int :=
  digits.filterMap (range.ofDigits? false)

/-- Reads an optional minus sign and digits that denote an integer of the range. -/
def integer (range : IntRange) : Parser Char τ Int :=
  (minus.optional.both digits).filterMap fun (minusSign, ds) =>
    range.ofDigits? minusSign.isSome ds

/-- Reads an optional minus sign and the text of a decimal fraction, and yields the nearest number of
the format. A numeral whose nearest number is infinite is refused. -/
def decimal (format : BinaryFormat) : Parser Char τ (BitVec format.width) :=
  (minus.optional.both decimalString).filterMap fun (minusSign, text) =>
    format.ofSignedText? minusSign.isSome text

/-- Reads a decimal fraction as a floating-point number of 64 bits or else an integer of 64 bits. -/
def number : Parser Char τ Number :=
  ((decimal .binary64).map .real).orElse ((integer (.signed 64)).map .integer)

end ParserCombinators.Parser
