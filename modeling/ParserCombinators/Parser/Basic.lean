/-! # Parsers

A parser is an immutable description of what to read and of the value that is made of it. It holds
no state and does not run by itself; `Grammar.parse` gives it its meaning.

* **`Parser ε τ α`** — reads elements of `ε` and yields an `α`. It may refer to rules by name:
  `τ` tells for each name the type of value that its rule yields.
* **`Parser.both`**, **`Parser.keepLeft`**, **`Parser.keepRight`** — sequences that keep both
  values or one of them; **`Parser.extendPair`**, **`Parser.extendTriple`** lengthen a tuple.
* **`Parser.lift₂`** — applies a function of two arguments to what two parsers yield.
* **`Parser.times`**, **`Parser.many`**, **`Parser.many1`** — repetition with fixed bounds. -/

namespace ParserCombinators

/-- A parser over elements of `ε` that yields a value and may refer to named rules. -/
inductive Parser (ε : Type) {ν : Type} (τ : ν → Type) : Type → Type 1 where
  /-- Reads one element that the predicate accepts. -/
  | satisfy (accepts : ε → Bool) : Parser ε τ ε
  /-- Reads the given elements, one after the other, and yields them. -/
  | word (expected : List ε) : Parser ε τ (List ε)
  /-- Reads nothing and yields the value. -/
  | succeed {α : Type} (value : α) : Parser ε τ α
  /-- Changes the value. -/
  | map {α β : Type} (p : Parser ε τ α) (f : α → β) : Parser ε τ β
  /-- Refuses the values that are not to be kept. -/
  | filter {α : Type} (p : Parser ε τ α) (keep : α → Bool) : Parser ε τ α
  /-- Changes the value, and refuses it where the change is undefined. -/
  | filterMap {α β : Type} (p : Parser ε τ α) (f : α → Option β) : Parser ε τ β
  /-- Reads with one parser and then with another, and combines the two values. -/
  | sequence {α β γ : Type} (p : Parser ε τ α) (q : Parser ε τ β) (combine : α → β → γ) :
      Parser ε τ γ
  /-- Reads a function and then an argument, and applies the one to the other. -/
  | apply {α β : Type} (p : Parser ε τ (α → β)) (q : Parser ε τ α) : Parser ε τ β
  /-- Reads with the first parser or, where it refuses the content, with the second. -/
  | orElse {α : Type} (p q : Parser ε τ α) : Parser ε τ α
  /-- Reads with the parser or, where it refuses the content, reads nothing. -/
  | optional {α : Type} (p : Parser ε τ α) : Parser ε τ (Option α)
  /-- Repeats the parser greedily, at least `least` times and at most `most` times. -/
  | repeated {α : Type} (p : Parser ε τ α) (least : Nat) (most : Option Nat) : Parser ε τ (List α)
  /-- Reads one item, and then greedily a separator and a further item. -/
  | separated {α β : Type} (item : Parser ε τ α) (separator : Parser ε τ β) : Parser ε τ (List α)
  /-- Reads as the rule of the given name does. -/
  | rule (name : ν) : Parser ε τ (τ name)

namespace Parser

variable {ε ν : Type} {τ : ν → Type} {α β γ δ : Type}

/-- Reads with both parsers and yields the pair of their values. -/
def both (p : Parser ε τ α) (q : Parser ε τ β) : Parser ε τ (α × β) :=
  p.sequence q fun first second => (first, second)

/-- Reads with both parsers and yields the value of the first. -/
def keepLeft (p : Parser ε τ α) (q : Parser ε τ β) : Parser ε τ α :=
  p.sequence q fun first _ => first

/-- Reads with both parsers and yields the value of the second. -/
def keepRight (p : Parser ε τ α) (q : Parser ε τ β) : Parser ε τ β :=
  p.sequence q fun _ second => second

/-- Reads on after a pair and yields a triple. -/
def extendPair (p : Parser ε τ (α × β)) (q : Parser ε τ γ) : Parser ε τ (α × β × γ) :=
  p.sequence q fun (first, second) third => (first, second, third)

/-- Reads on after a triple and yields a tuple of four. -/
def extendTriple (p : Parser ε τ (α × β × γ)) (q : Parser ε τ δ) :
    Parser ε τ (α × β × γ × δ) :=
  p.sequence q fun (first, second, third) fourth => (first, second, third, fourth)

/-- Applies a function of two arguments to the values of two parsers, read one after the other. -/
def lift₂ (f : α → β → γ) (p : Parser ε τ α) (q : Parser ε τ β) : Parser ε τ γ :=
  (p.map f).apply q

/-- Repeats the parser exactly `count` times. -/
def times (p : Parser ε τ α) (count : Nat) : Parser ε τ (List α) :=
  p.repeated count (some count)

/-- Repeats the parser greedily, any number of times. -/
def many (p : Parser ε τ α) : Parser ε τ (List α) :=
  p.repeated 0 none

/-- Repeats the parser greedily, at least once. -/
def many1 (p : Parser ε τ α) : Parser ε τ (List α) :=
  p.repeated 1 none

end Parser

end ParserCombinators
