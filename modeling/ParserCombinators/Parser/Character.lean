import ParserCombinators.Parser.Basic
import ParserCombinators.Text.CharSet

/-! # Parsers of characters

* **`Parser.oneOf`** — a character of a set; **`Parser.anyChar`**, **`Parser.char`** — any character
  and a given one.
* **`Parser.digit`**, **`Parser.hexDigit`**, **`Parser.sign`**, **`Parser.minus`**,
  **`Parser.quote`**, **`Parser.newline`** — the characters that numerals and texts are made of.
* **`Parser.literal`** — a given text, character by character. -/

namespace ParserCombinators.Parser

variable {ν : Type} {τ : ν → Type}

/-- Reads a character of the set. -/
def oneOf (set : CharSet) : Parser Char τ Char :=
  satisfy set.contains

/-- Reads a character, whatever it is. -/
def anyChar : Parser Char τ Char :=
  satisfy fun _ => true

/-- Reads the given character. -/
def char (expected : Char) : Parser Char τ Char :=
  satisfy fun c => c == expected

/-- Reads a decimal digit. -/
def digit : Parser Char τ Char :=
  oneOf .decimalDigits

/-- Reads a hexadecimal digit. -/
def hexDigit : Parser Char τ Char :=
  oneOf .hexDigits

/-- Reads a sign. -/
def sign : Parser Char τ Char :=
  oneOf .signs

/-- Reads a minus sign. -/
def minus : Parser Char τ Char :=
  char '-'

/-- Reads a double quote. -/
def quote : Parser Char τ Char :=
  oneOf .quotes

/-- Reads a character that ends a line; a carriage return and a line feed are two of them. -/
def newline : Parser Char τ Char :=
  oneOf .newlines

/-- Reads the given text and yields it. -/
def literal (text : String) : Parser Char τ String :=
  (word text.toList).map String.ofList

end ParserCombinators.Parser
