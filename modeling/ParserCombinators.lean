import ParserCombinators.Grammar.Equations
import ParserCombinators.Input
import ParserCombinators.Parser.Numeral
import ParserCombinators.Proofs.Grammar.CursorInvariant
import ParserCombinators.Proofs.Grammar.Termination
import ParserCombinators.Proofs.Grammar.RemainingContent
import ParserCombinators.Proofs.Numeral.Integer
import ParserCombinators.Proofs.Grammar.Lossless
import ParserCombinators.Proofs.Grammar.ValueIndependence
import ParserCombinators.Proofs.Grammar.Rewriting
import ParserCombinators.Proofs.Grammar.Recognition
import ParserCombinators.Proofs.Cursor.Suffix
import ParserCombinators.Proofs.Repetition.Rounds
import ParserCombinators.Proofs.Diagnostic.Coordinates
import ParserCombinators.Proofs.Input.Agreement
import ParserCombinators.Proofs.Numeral.IntegerList
import ParserCombinators.Proofs.Grammar.SeparatedList
import ParserCombinators.Proofs.Grammar.EmptyInput
import ParserCombinators.Proofs.Numeral.Rounding
import ParserCombinators.Proofs.Numeral.Encoding
import ParserCombinators.Proofs.Numeral.Decimal
import ParserCombinators.Proofs.Numeral.Number
import ParserCombinators.Proofs.Diagnostic.Order
import ParserCombinators.Proofs.Repetition.Composition
import ParserCombinators.Proofs.Diagnostic.DecodedText
import ParserCombinators.Proofs.Text.CharSet
import ParserCombinators.Proofs.Text.Literal
import ParserCombinators.Proofs.Grammar.Nesting
import ParserCombinators.Proofs.Diagnostic.CaretColumn
import ParserCombinators.Proofs.Diagnostic.SizeRange
