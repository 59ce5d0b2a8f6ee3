import ParserCombinators.Diagnostic.ParseError
import ParserCombinators.Grammar.Basic

/-! # Parsing a text

* **`Input`** — a text, taken apart into its characters.
* **`Input.parse`** — the outcome of a parse at the start of the text.
* **`Input.parsePrefix`** — the value and the text after the match.
* **`Input.parseComplete`** — the value, if the match takes the whole text. -/

namespace ParserCombinators

/-- The characters after a cursor, as a text. -/
def Cursor.remainingText (c : Cursor Char) : String :=
  String.ofList c.remaining

/-- A text, taken apart into its characters. -/
structure Input where
  /-- The characters. -/
  chars : Array Char
  deriving DecidableEq

namespace Input

/-- The input that holds the characters of a text. -/
def ofString (text : String) : Input :=
  ⟨text.toList.toArray⟩

/-- The number of characters. -/
def length (input : Input) : Nat :=
  input.chars.size

/-- Whether there is no character. -/
def isEmpty (input : Input) : Bool :=
  input.chars.isEmpty

/-- The cursor at the start of the text. -/
def cursor (input : Input) : Cursor Char :=
  .ofBuffer input.chars

variable {ν : Type} {τ : ν → Type} {α : Type}

/-- Reads at the start of the text. -/
def parse (input : Input) (g : Grammar Char τ) (p : Parser Char τ α) : Outcome Char α :=
  g.parse p input.cursor

/-- Reads at the start of the text, and yields the value with the text that is left. -/
def parsePrefix (input : Input) (g : Grammar Char τ) (p : Parser Char τ α) :
    Except Failure (α × String) :=
  match (input.parse g p).toExcept with
  | .ok (value, rest) => .ok (value, rest.remainingText)
  | .error failure => .error failure

/-- Reads the whole text. Something that is left after the match is an error, which tells where it
is. -/
def parseComplete (input : Input) (g : Grammar Char τ) (p : Parser Char τ α) :
    Except ParseError α :=
  match (input.parse g p).toExcept with
  | .ok (value, rest) =>
      if rest.atEnd then .ok value
      else
        let (buffer, position) := rest.inner
        .error (.trailing ⟨buffer, position⟩)
  | .error failure => .error (.ofFailure failure)

end Input

end ParserCombinators
