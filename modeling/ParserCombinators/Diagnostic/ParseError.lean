import ParserCombinators.Diagnostic.Location
import ParserCombinators.Outcome.Basic

/-! # Errors of a complete parse

* **`ParseError`** — why a text as a whole is refused: its beginning is, or something is left
  after the match.
* **`ParseError.trailing`** — the error for what is left at a location.
* **`ParseError.message`** — the wording. -/

namespace ParserCombinators

/-- Why a text as a whole is refused. -/
inductive ParseError where
  /-- The text does not start with a match. -/
  | noMatch
  /-- The parse would go on forever. -/
  | unfinished
  /-- There is a match, but something is left after it: its position and where a reader finds it,
  with the lines around it. Without these there is no error to report: the program has stopped on
  the way to them. -/
  | trailingInput (position : Nat) (coordinates : Coordinates) (context : Option String)
  deriving DecidableEq

namespace ParseError

/-- The error of a complete parse that comes of a failure at the start of the text. -/
def ofFailure : Failure → ParseError
  | .noMatch => noMatch
  | .unfinished => unfinished

/-- The error that tells what is left at a location. -/
def trailing {ε : Type} [Element ε] (l : Location ε) : ParseError :=
  trailingInput l.index l.coordinates (l.contextLines.map "\n".intercalate)

/-- The wording of an error, if there is one to report. -/
def message : ParseError → Option String
  | noMatch => some "input does not match"
  | unfinished => some Failure.unfinished.message
  | trailingInput position coordinates context => do
      let rows ← context
      return "unexpected trailing input at line " ++ toString coordinates.line ++
        ", offset " ++ toString coordinates.offset ++
        " (absolute position: " ++ toString position ++ ")\n\n" ++ rows

end ParseError

end ParserCombinators
