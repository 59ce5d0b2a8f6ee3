import Mathlib.Data.List.Defs
import ParserCombinators.Proofs.Grammar.CursorInvariant
import ParserCombinators.Proofs.Grammar.Nullable
import ParserCombinators.Proofs.Outcome.Derivation

/-! # Grammars as parsing expression grammars

A parser reads what its parsing expression consumes, and refuses what makes the expression fail.

* **`Parser.expression`** — the expression of a parser: what is left of it without the values.
  **`Grammar.expressions`** — the expressions of the rules.
* **`Grammar.AlwaysAdvances`** — no match of the parser stays where it started. What is repeated has
  to advance: an expression that consumes nothing comes to no result if it is repeated, while the
  repetition of a parser stops there.
* **`Grammar.Expressible`** — the parsers that their expression describes: they filter no values, and
  what they repeat advances.
* **`Grammar.parse_iff_derivable`** — reading comes to what the expression comes to, in both
  directions. -/

namespace ParserCombinators

open Outcome ParsingExpression

variable {ε ν : Type} {τ : ν → Type} {α : Type}

/-! ## The expression of a parser -/

namespace Parser

variable [DecidableEq ε]

/-- The parsing expression of a parser: how it reads, without what it makes of it. The expression
passes over filters, which decide by values, and over bounds of repetition other than none and one;
the parsers that it describes in full are those of `Grammar.Expressible`. -/
def expression : {α : Type} → Parser ε τ α → ParsingExpression ε ν
  | _, satisfy accepts => .terminal accepts
  | _, word expected => .word expected
  | _, succeed _ => .empty
  | _, map p _ => p.expression
  | _, filter p _ => p.expression
  | _, filterMap p _ => p.expression
  | _, sequence p q _ => .sequence p.expression q.expression
  | _, apply p q => .sequence p.expression q.expression
  | _, orElse p q => .choice p.expression q.expression
  | _, optional p => .optional p.expression
  | _, repeated p 0 _ => .star p.expression
  | _, repeated p (_ + 1) _ => .plus p.expression
  | _, separated item separator =>
      .sequence item.expression (.star (.sequence separator.expression item.expression))
  | _, rule name => .nonterminal name

end Parser

namespace Grammar

variable [DecidableEq ε] {g : Grammar ε τ} {p : Parser ε τ α}

/-- The parsing expressions of the rules. -/
def expressions (g : Grammar ε τ) (name : ν) : ParsingExpression ε ν :=
  (g.body name).expression

/-- Every match of the parser ends at another position than it started. -/
def AlwaysAdvances (g : Grammar ε τ) (p : Parser ε τ α) : Prop :=
  ∀ c value rest, g.parse p c = .matched value rest → rest.position ≠ c.position

/-- The parsers that their expression describes. -/
inductive Expressible (g : Grammar ε τ) : {α : Type} → Parser ε τ α → Prop
  | satisfy (accepts : ε → Bool) : g.Expressible (.satisfy accepts)
  | word (expected : List ε) : g.Expressible (.word expected)
  | succeed {α : Type} (value : α) : g.Expressible (.succeed value)
  | map {α β : Type} {p : Parser ε τ α} (f : α → β) : g.Expressible p → g.Expressible (p.map f)
  | sequence {α β γ : Type} {p : Parser ε τ α} {q : Parser ε τ β} (combine : α → β → γ) :
      g.Expressible p → g.Expressible q → g.Expressible (p.sequence q combine)
  | apply {α β : Type} {p : Parser ε τ (α → β)} {q : Parser ε τ α} :
      g.Expressible p → g.Expressible q → g.Expressible (p.apply q)
  | orElse {α : Type} {p q : Parser ε τ α} :
      g.Expressible p → g.Expressible q → g.Expressible (p.orElse q)
  | optional {α : Type} {p : Parser ε τ α} : g.Expressible p → g.Expressible p.optional
  | many {α : Type} {p : Parser ε τ α} :
      g.AlwaysAdvances p → g.Expressible p → g.Expressible p.many
  | many1 {α : Type} {p : Parser ε τ α} :
      g.AlwaysAdvances p → g.Expressible p → g.Expressible p.many1
  | rule (name : ν) : g.Expressible (.rule name)

/-- A parser that cannot match without reading always advances. -/
theorem alwaysAdvances_of_not_nullable (notNullable : ¬ g.Nullable p) : g.AlwaysAdvances p := by
  intro c value rest found stands
  have same : rest = c :=
    (g.parse_leadsOnFrom p c value rest found).follows.eq_of_position_eq stands
  subst same
  exact notNullable (g.nullable_of_parse_eq_matched p found)

/-! ## What is read is derivable -/

/-- What always advances does so with every depth of rules. -/
theorem AlwaysAdvances.runTo (advances : g.AlwaysAdvances p) (depth : Nat) (c : Cursor ε)
    (value : α) (rest : Cursor ε) (found : g.runTo depth p c = .matched value rest) :
    rest.position ≠ c.position :=
  advances c value rest (g.parse_eq_of_runTo found (matched_ne_unfinished value rest))

/-- The expression of a parser derives what is read to a depth, if that is so for the rules. -/
theorem Expressible.runTo_derivedBy {depth : Nat}
    (rules : ∀ name d, (g.callTo depth name d).DerivedBy g.expressions (.nonterminal name) d)
    (expressible : g.Expressible p) (c : Cursor ε) :
    (g.runTo depth p c).DerivedBy g.expressions p.expression c := by
  have forward := g.callTo_leadsOnFrom depth
  induction expressible generalizing c with
  | satisfy accepts =>
      exact Or.inr ⟨_, Parser.readElement_comesTo accepts c, derivable_terminal _ accepts _⟩
  | word expected =>
      exact Or.inr ⟨_, Parser.readWord_comesTo expected c, derivable_word _ expected _⟩
  | succeed value => exact .empty _ c value
  | map f _ ih => exact (ih c).map f
  | sequence combine _ _ ihp ihq => exact (ihp c).sequence fun first d => (ihq d).map (combine first)
  | apply _ _ ihp ihq => exact (ihp c).sequence fun f d => (ihq d).map f
  | orElse _ _ ihp ihq => exact (ihp c).choice (ihq c)
  | optional _ ih => exact ((ih c).map some).choice (.empty _ c none)
  | @many _ p advances _ ih =>
      exact .star (Parser.parseWith_leadsOnFrom forward p) (advances.runTo depth) ih c
  | @many1 _ p advances _ ih =>
      have leadsOn := Parser.parseWith_leadsOnFrom forward p
      have rounds := DerivedBy.star leadsOn (advances.runTo depth) ih
      -- at least one round is a sequence: the first round and the repetition behind it
      have once : g.runTo depth p.many1 c = _ :=
        Repetition.unbounded_one_eq (fun d _ => leadsOn d) (advances.runTo depth c)
      rw [once]
      exact (ih c).sequence fun value d => (rounds d).map (value :: ·)
  | rule name => exact rules name c

/-- A rule derives what is read with it to a depth. -/
theorem callTo_derivedBy (rules : ∀ name, g.Expressible (g.body name)) (depth : Nat) (name : ν)
    (c : Cursor ε) : (g.callTo depth name c).DerivedBy g.expressions (.nonterminal name) c := by
  induction depth generalizing name c with
  | zero => exact Or.inl rfl
  | succ depth ih =>
      have body : (g.runTo depth (g.body name) c).DerivedBy g.expressions (g.expressions name) c :=
        (rules name).runTo_derivedBy ih c
      exact body.nonterminal

/-- The expression of a parser derives what is read. -/
theorem Expressible.parse_derivedBy (rules : ∀ name, g.Expressible (g.body name))
    (expressible : g.Expressible p) (c : Cursor ε) :
    (g.parse p c).DerivedBy g.expressions p.expression c :=
  expressible.runTo_derivedBy (callTo_derivedBy rules (g.depthBound c)) c

/-! ## What is derivable is read -/

/-- Any number of times is repetition that needs no round. -/
theorem parse_many (g : Grammar ε τ) (p : Parser ε τ α) (c : Cursor ε) :
    g.parse p.many c = Repetition.unbounded (g.parse p) 0 c :=
  g.parse_repeated c p 0 none

/-- At least once is once and then any number of times, if what is repeated advances. -/
theorem parse_many1_eq (advances : g.AlwaysAdvances p) (c : Cursor ε) :
    g.parse p.many1 c =
      (g.parse p c).bind fun value rest => (g.parse p.many rest).map (value :: ·) := by
  have once : g.parse p.many1 c = Repetition.unbounded (g.parse p) 1 c := g.parse_repeated c p 1 none
  rw [once, Repetition.unbounded_one_eq (fun d _ => g.parse_leadsOnFrom p d) (advances c)]
  simp only [parse_many]

/-- What is read covers the expression of a parser. -/
theorem Expressible.parse_covers (rules : ∀ name, g.Expressible (g.body name)) (bound : Nat)
    (expressible : g.Expressible p) (c : Cursor ε) :
    (g.parse p c).Covers g.expressions p.expression c bound := by
  induction bound generalizing α p c with
  | zero =>
      intro steps below
      exact absurd below (Nat.not_lt_zero steps)
  | succ bound ih =>
      -- parts of an expression take fewer steps; only what is mapped keeps the whole expression
      induction expressible generalizing c with
      | satisfy accepts =>
          intro steps below result derives
          rw [derives.eq_terminalResult]
          exact Parser.readElement_comesTo accepts c
      | word expected =>
          intro steps below result derives
          rw [derives.eq_wordResult]
          exact Parser.readWord_comesTo expected c
      | succeed value => exact .empty _ c _ value
      | map f _ inner => exact (inner c).map f
      | sequence combine hp hq _ _ =>
          rw [parse_sequence]
          exact (ih hp c).sequence fun first d => (ih hq d).map (combine first)
      | apply hp hq _ _ =>
          rw [parse_apply]
          exact (ih hp c).sequence fun f d => (ih hq d).map f
      | orElse hp hq _ _ => exact (ih hp c).choice (ih hq c)
      | optional hp _ => exact ((ih hp c).map some).choice (.empty _ c _ none)
      | @many _ p advances hp _ =>
          rw [parse_many]
          refine Covers.star (g.parse_leadsOnFrom p c) (advances c) (ih hp c) fun d => ?_
          rw [← parse_many]
          exact ih (.many advances hp) d
      | @many1 _ p advances hp _ =>
          rw [parse_many1_eq advances]
          exact (ih hp c).sequence fun value d => (ih (.many advances hp) d).map (value :: ·)
      | rule name =>
          rw [parse_rule]
          exact (ih (rules name) c).nonterminal

/-- Reading comes to a result exactly if the expression does. -/
theorem Expressible.parse_comesTo_iff (rules : ∀ name, g.Expressible (g.body name))
    (expressible : g.Expressible p) (c : Cursor ε) (result : Option Nat) :
    (g.parse p c).ComesTo c result ↔ Derivable g.expressions p.expression c.remaining result := by
  constructor
  · intro comesTo
    -- what is read comes to a derivable result, and it comes to no other
    rcases expressible.parse_derivedBy rules c with isOpen | ⟨result', comesTo', derivable⟩
    · rw [isOpen] at comesTo
      cases comesTo
    · rwa [comesTo.unique comesTo']
  · rintro ⟨steps, derives⟩
    exact expressible.parse_covers rules (steps + 1) c steps (Nat.lt_succ_self steps) result derives

/-- Reading does not end exactly if the expression comes to nothing. -/
theorem Expressible.parse_eq_unfinished_iff (rules : ∀ name, g.Expressible (g.body name))
    (expressible : g.Expressible p) (c : Cursor ε) :
    g.parse p c = .unfinished ↔
      ∀ result, ¬ Derivable g.expressions p.expression c.remaining result := by
  constructor
  · intro isOpen result derivable
    have comesTo := (expressible.parse_comesTo_iff rules c result).2 derivable
    rw [isOpen] at comesTo
    cases comesTo
  · intro nothing
    rcases expressible.parse_derivedBy rules c with isOpen | ⟨result, -, derivable⟩
    · exact isOpen
    · exact absurd derivable (nothing result)

/-- **Grammars read as parsing expression grammars do.** Where no rule filters values and everything
that is repeated advances, a parser matches and reads a number of elements exactly if its expression
consumes that number of elements, and refuses the content exactly if its expression fails on it. -/
theorem parse_iff_derivable (rules : ∀ name, g.Expressible (g.body name))
    (expressible : g.Expressible p) (c : Cursor ε) :
    (∀ count, (∃ value rest, g.parse p c = .matched value rest ∧
          rest.position = c.position + count) ↔
        Derivable g.expressions p.expression c.remaining (some count)) ∧
      (g.parse p c = .noMatch ↔ Derivable g.expressions p.expression c.remaining none) := by
  have forward := g.parse_leadsOnFrom p c
  refine ⟨fun count => ?_, ?_⟩
  · rw [← ComesTo.some_iff forward]
    exact expressible.parse_comesTo_iff rules c (some count)
  · rw [← ComesTo.none_iff]
    exact expressible.parse_comesTo_iff rules c none

/-- Lists in square brackets, with digits and lists as entries, which are separated by commas; the
value counts the digits. -/
def nestedDigits : Grammar Char (fun _ : Unit => Nat) :=
  single <|
    (Parser.digit.many1.map List.length).orElse
      ((Parser.char '[').keepRight
        (((Parser.rule ()).sequence ((Parser.char ',').keepRight (.rule ())).many
          fun first others => others.foldl (· + ·) first).optional.sequence (Parser.char ']')
            fun count _ => count.getD 0))

/-- The lists are expressible: the digits and the entries that are repeated cannot match without
reading. -/
theorem nestedDigits_expressible (name : Unit) :
    nestedDigits.Expressible (nestedDigits.body name) := by
  have digit : nestedDigits.AlwaysAdvances Parser.digit :=
    alwaysAdvances_of_not_nullable (not_nullable_satisfy _ _)
  -- an entry may be anything that a list is, but its comma is read in any case
  have entry : nestedDigits.AlwaysAdvances ((Parser.char ',').keepRight (.rule ())) := by
    refine alwaysAdvances_of_not_nullable fun nullable => ?_
    have comma : nestedDigits.Nullable (Parser.char ',') := ((nullable_iff _ _).1 nullable).1
    exact not_nullable_satisfy _ _ comma
  exact .orElse (.map _ (.many1 digit (.satisfy _)))
    (.sequence _ (.satisfy _)
      (.sequence _
        (.optional (.sequence _ (.rule ()) (.many entry (.sequence _ (.satisfy _) (.rule ())))))
        (.satisfy _)))

/-- A list with three digits, and a bracket too many. -/
def nestedDigitsSample : Array Char :=
  #['[', '1', ',', '[', '2', '3', ']', ']', ']']

/-- The expression of the lists consumes the sample up to the last bracket, and fails on that. -/
theorem nestedDigits_derivable :
    (∀ name, nestedDigits.Expressible (nestedDigits.body name)) ∧
      nestedDigits.Expressible (.rule ()) ∧
      Derivable nestedDigits.expressions (.nonterminal ()) nestedDigitsSample.toList (some 8) ∧
      Derivable nestedDigits.expressions (.nonterminal ()) [']'] none := by
  have list : nestedDigits.parse (.rule ()) (.valid nestedDigitsSample 0) =
      .matched 3 (.valid nestedDigitsSample 8) := by cbv
  have bracket : nestedDigits.parse (.rule ()) (.valid nestedDigitsSample 8) = .noMatch := by cbv
  refine ⟨nestedDigits_expressible, .rule (), ?_, ?_⟩
  · exact ((parse_iff_derivable nestedDigits_expressible (.rule ()) (.valid _ 0)).1 8).1
      ⟨3, _, list, rfl⟩
  · exact (parse_iff_derivable nestedDigits_expressible (.rule ()) (.valid _ 8)).2.1 bracket

end Grammar

end ParserCombinators
