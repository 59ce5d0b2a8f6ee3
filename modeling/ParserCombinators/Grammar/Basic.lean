import ParserCombinators.Parser.Basic
import ParserCombinators.Repetition.Basic

/-! # Grammars and the meaning of parsers

* **`Parser.parseWith`** — reads with a parser, by recursion on the parser, when the meaning of the
  rules it names is given.
* **`Grammar ε τ`** — finitely many named rules, each with the parser that is its body. Rules may
  refer to one another and to themselves.
* **`Grammar.callTo`**, **`Grammar.runTo`** — read with a rule, or with any parser, where rules
  are nested at most to a given depth.
* **`Grammar.parse`** — reads with a parser and the rules of a grammar.

The depth that `Grammar.parse` allows is enough for every reading that ends. A rule that is entered
while it is open already, with the same content left, would enter itself again without end. So the
open rules of a reading that ends differ in their names or in how much was left when they were
entered, and there are no more such pairs than `Grammar.depthBound` counts. The lemmas on depth turn
this into equations: `Grammar.parse` reads a rule as its body. -/

namespace ParserCombinators

variable {ε ν : Type} {τ : ν → Type} {α : Type}

namespace Parser

/-- Reads one element that the predicate accepts. -/
def readElement (accepts : ε → Bool) (c : Cursor ε) : Outcome ε ε :=
  match c.first? with
  | some element => if accepts element then .matched element c.advance else .noMatch
  | none => .noMatch

/-- The cursor after the given elements, or `none` if something else is next. -/
def skipWord? [DecidableEq ε] : List ε → Cursor ε → Option (Cursor ε)
  | [], c => some c
  | expected :: others, c =>
      if c.first? = some expected then skipWord? others c.advance else none

/-- Reads the given elements, one after the other. -/
def readWord [DecidableEq ε] (expected : List ε) (c : Cursor ε) : Outcome ε (List ε) :=
  match skipWord? expected c with
  | some rest => .matched expected rest
  | none => .noMatch

/-- Reads with a parser at a cursor, where `call` reads with the rule of a name. -/
def parseWith [DecidableEq ε] (call : (name : ν) → Cursor ε → Outcome ε (τ name)) {α : Type} :
    Parser ε τ α → Cursor ε → Outcome ε α
  | satisfy accepts, c => readElement accepts c
  | word expected, c => readWord expected c
  | succeed value, c => .matched value c
  | map p f, c => (p.parseWith call c).map f
  | filter p keep, c =>
      (p.parseWith call c).bind fun value rest =>
        if keep value then .matched value rest else .noMatch
  | filterMap p f, c =>
      (p.parseWith call c).bind fun value rest =>
        match f value with
        | some changed => .matched changed rest
        | none => .noMatch
  | sequence p q combine, c =>
      (p.parseWith call c).bind fun first rest => (q.parseWith call rest).map (combine first)
  | apply p q, c =>
      (p.parseWith call c).bind fun f rest => (q.parseWith call rest).map f
  | orElse p q, c => (p.parseWith call c).orElse fun _ => q.parseWith call c
  | optional p, c => ((p.parseWith call c).map some).orElse fun _ => .matched none c
  | repeated p least most, c => Repetition.between (p.parseWith call) least most c
  | separated item separator, c =>
      Repetition.separated (item.parseWith call) (separator.parseWith call) c
  | rule name, c => call name c

end Parser

/-- Finitely many named rules. -/
structure Grammar (ε : Type) {ν : Type} (τ : ν → Type) where
  /-- The names of the rules. -/
  names : List ν
  /-- Every name that a parser can refer to is among them. -/
  mem_names : ∀ name, name ∈ names
  /-- The parser that a name stands for. -/
  body : (name : ν) → Parser ε τ (τ name)

namespace Grammar

/-- The grammar without rules. -/
def ruleless {τ : Empty → Type} : Grammar ε τ where
  names := []
  mem_names := nofun
  body := nofun

/-- A single name is the only one. -/
theorem mem_singleName (name : Unit) : name ∈ [()] :=
  List.mem_singleton.2 rfl

/-- The grammar with a single rule. -/
def single (p : Parser ε (fun _ : Unit => α) α) : Grammar ε (fun _ : Unit => α) where
  names := [()]
  mem_names := mem_singleName
  body := fun _ => p

variable [DecidableEq ε]

/-- Reads with the rule of a name where at most `depth` rules are open at a time, this one among
them. To open one more is not to end. -/
def callTo (g : Grammar ε τ) : (depth : Nat) → (name : ν) → Cursor ε → Outcome ε (τ name)
  | 0, _, _ => .unfinished
  | depth + 1, name, c => (g.body name).parseWith (g.callTo depth) c

/-- Reads with a parser where at most `depth` rules are open at a time. -/
def runTo (g : Grammar ε τ) (depth : Nat) (p : Parser ε τ α) (c : Cursor ε) : Outcome ε α :=
  p.parseWith (g.callTo depth) c

/-- How many pairs there are of a rule and of a number of elements left at the cursor or later. -/
def depthBound (g : Grammar ε τ) (c : Cursor ε) : Nat :=
  g.names.length * (c.remainingCount + 1)

/-- Reads with a parser and the rules of the grammar. -/
def parse (g : Grammar ε τ) (p : Parser ε τ α) (c : Cursor ε) : Outcome ε α :=
  g.runTo (g.depthBound c) p c

end Grammar

end ParserCombinators
