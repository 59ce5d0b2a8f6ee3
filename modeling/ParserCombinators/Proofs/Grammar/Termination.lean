import Mathlib.Data.Fintype.Card
import Mathlib.Data.Set.Finite.Basic
import Mathlib.Logic.Relation
import ParserCombinators.Grammar.Equations
import ParserCombinators.Proofs.Grammar.Nullable

/-! # Grammars for which every parse ends

A parse goes on forever in two ways: a rule comes to itself again before an element is read, or a
separated list gathers items and separators that read nothing. Both show in the form of a grammar.

* **`Grammar.EntersFirst`** — the rules that a rule may enter before an element is read.
* **`Grammar.ListsAdvance`** — in no separated list of a parser both the item and the separator are
  nullable.
* **`Grammar.WellFormed`** — no rule comes to itself before an element is read, and all lists advance.
* **`Grammar.parse_ne_unfinished_of_wellFormed`** — with a well-formed grammar every parse ends.

The recursion of a parse decreases lexicographically: the number of elements left, the rank of the
open rule among those that it may enter first, the parser, and the rounds of a repetition. -/

namespace ParserCombinators

open Outcome

variable {ε ν : Type} {τ : ν → Type} {α β γ : Type}

/-! ## Repetitions of attempts that end -/

namespace Repetition

variable {attempt : Cursor ε → Outcome ε α} {c : Cursor ε}

/-- At every cursor that `c` reaches, the attempt ends. -/
def EndsFrom (attempt : Cursor ε → Outcome ε α) (c : Cursor ε) : Prop :=
  ∀ d, c.Reaches d → attempt d ≠ .unfinished

/-- Ending from a cursor is ending from what it reaches. -/
theorem EndsFrom.of_reaches {d : Cursor ε} (ends : EndsFrom attempt c) (reaches : c.Reaches d) :
    EndsFrom attempt d :=
  fun e further => ends e (reaches.trans further)

/-- Stopping ends. -/
theorem stop_ne_unfinished (least : Nat) (c : Cursor ε) :
    (stop least c : Outcome ε (List α)) ≠ .unfinished := by
  unfold stop
  split
  · exact matched_ne_unfinished [] c
  · exact noMatch_ne_unfinished

/-- Bounded repetition of an attempt that ends does so too. -/
theorem upTo_ne_unfinished (limit least : Nat) (forward : MovesForward attempt c)
    (ends : EndsFrom attempt c) : upTo attempt limit least c ≠ .unfinished := by
  induction limit generalizing least c with
  | zero => exact stop_ne_unfinished least c
  | succ limit ih =>
      rw [upTo]
      cases round : attempt c with
      | matched value rest =>
          have reaches := forward c (.refl c) value rest round
          have tail := ih (least - 1) (forward.of_reaches reaches) (ends.of_reaches reaches)
          exact map_ne_unfinished tail
      | noMatch => exact stop_ne_unfinished least c
      | unfinished => exact absurd round (ends c (.refl c))

/-- Unbounded repetition of an attempt that ends does so too: a round that stands still is the last
one or one of finitely many that are needed. -/
theorem unbounded_ne_unfinished (least : Nat) (forward : MovesForward attempt c)
    (ends : EndsFrom attempt c) : unbounded attempt least c ≠ .unfinished := by
  induction least, c using unbounded.induct attempt with
  | case1 least c value rest round last =>
      rw [unbounded, round]
      simp only [if_pos last]
      exact matched_ne_unfinished [value] rest
  | case2 least c value rest round further guard ih =>
      have reaches := forward c (.refl c) value rest round
      have tail := ih (forward.of_reaches reaches) (ends.of_reaches reaches)
      rw [unbounded_of_matched round reaches, if_neg further]
      exact map_ne_unfinished tail
  | case3 least c value rest round further back =>
      have reaches := forward c (.refl c) value rest round
      exact absurd (needed_or_advances reaches further) back
  | case4 least c round =>
      rw [unbounded, round]
      exact stop_ne_unfinished least c
  | case5 least c round => exact absurd round (ends c (.refl c))

/-- Greedy repetition ends if the attempt does, which does not matter where no round is allowed. -/
theorem between_ne_unfinished (least : Nat) (most : Option Nat) (forward : MovesForward attempt c)
    (ends : most ≠ some 0 → EndsFrom attempt c) : between attempt least most c ≠ .unfinished := by
  cases most with
  | none => exact unbounded_ne_unfinished least forward (ends (Option.some_ne_none 0).symm)
  | some limit =>
      cases limit with
      | zero => exact stop_ne_unfinished least c
      | succ limit =>
          have someRound : some (limit + 1) ≠ some 0 :=
            fun same => Nat.succ_ne_zero limit (Option.some.inj same)
          exact upTo_ne_unfinished (limit + 1) least forward (ends someRound)

/-- Repetition of an attempt that ends does so too if every round advances. -/
theorem whileAdvancing_ne_unfinished (forward : MovesForward attempt c)
    (ends : EndsFrom attempt c)
    (advance : ∀ d value, c.Reaches d → attempt d ≠ .matched value d) :
    whileAdvancing attempt c ≠ .unfinished := by
  induction c using whileAdvancing.induct attempt with
  | case1 c value rest round advances ih =>
      have reaches := forward c (.refl c) value rest round
      have tail := ih (forward.of_reaches reaches) (ends.of_reaches reaches)
        fun d value further => advance d value (reaches.trans further)
      rw [whileAdvancing, round]
      simp only [if_pos advances]
      exact map_ne_unfinished tail
  | case2 c value rest round stands =>
      rcases (forward c (.refl c) value rest round).eq_or_remainingCount_lt with rfl | fewer
      · exact absurd round (advance rest value (.refl rest))
      · exact absurd fewer stands
  | case3 c round =>
      rw [whileAdvancing, round]
      exact matched_ne_unfinished [] c
  | case4 c round => exact absurd round (ends c (.refl c))

end Repetition

namespace Parser

/-- Reading an element ends. -/
theorem readElement_ne_unfinished (accepts : ε → Bool) (c : Cursor ε) :
    readElement accepts c ≠ .unfinished := by
  unfold readElement
  split
  · split
    · exact matched_ne_unfinished _ c.advance
    · exact noMatch_ne_unfinished
  · exact noMatch_ne_unfinished

/-- Reading a word ends. -/
theorem readWord_ne_unfinished [DecidableEq ε] (expected : List ε) (c : Cursor ε) :
    readWord expected c ≠ .unfinished := by
  unfold readWord
  split
  · exact matched_ne_unfinished expected _
  · exact noMatch_ne_unfinished

end Parser

namespace Grammar

/-! ## Well-formed grammars -/

/-- Whether a parser may enter a rule before an element is read: the later part of a sequence or of a
list does so only behind parts that are nullable. -/
def EntersAtStart (g : Grammar ε τ) (target : ν) {α : Type} : Parser ε τ α → Prop
  | .satisfy _ => False
  | .word _ => False
  | .succeed _ => False
  | .map p _ => g.EntersAtStart target p
  | .filter p _ => g.EntersAtStart target p
  | .filterMap p _ => g.EntersAtStart target p
  | .sequence p q _ => g.EntersAtStart target p ∨ g.Nullable p ∧ g.EntersAtStart target q
  | .apply p q => g.EntersAtStart target p ∨ g.Nullable p ∧ g.EntersAtStart target q
  | .orElse p q => g.EntersAtStart target p ∨ g.EntersAtStart target q
  | .optional p => g.EntersAtStart target p
  | .repeated p _ most => most ≠ some 0 ∧ g.EntersAtStart target p
  | .separated item separator =>
      g.EntersAtStart target item ∨ g.Nullable item ∧ g.EntersAtStart target separator
  | .rule name => name = target

/-- A rule may enter another one before an element is read. -/
def EntersFirst (g : Grammar ε τ) (name inner : ν) : Prop :=
  g.EntersAtStart inner (g.body name)

/-- In no separated list in a parser both the item and the separator are nullable. -/
def ListsAdvance (g : Grammar ε τ) {α : Type} : Parser ε τ α → Prop
  | .satisfy _ => True
  | .word _ => True
  | .succeed _ => True
  | .map p _ => g.ListsAdvance p
  | .filter p _ => g.ListsAdvance p
  | .filterMap p _ => g.ListsAdvance p
  | .sequence p q _ => g.ListsAdvance p ∧ g.ListsAdvance q
  | .apply p q => g.ListsAdvance p ∧ g.ListsAdvance q
  | .orElse p q => g.ListsAdvance p ∧ g.ListsAdvance q
  | .optional p => g.ListsAdvance p
  | .repeated p _ _ => g.ListsAdvance p
  | .separated item separator =>
      g.ListsAdvance item ∧ g.ListsAdvance separator ∧ ¬ (g.Nullable item ∧ g.Nullable separator)
  | .rule _ => True

/-- A grammar and a parser for which no parse goes on forever. -/
structure WellFormed (g : Grammar ε τ) (p : Parser ε τ α) : Prop where
  /-- No rule comes to itself before an element is read. -/
  acyclic : ∀ name, ¬ Relation.TransGen g.EntersFirst name name
  /-- The lists in the rules advance. -/
  ruleLists : ∀ name, g.ListsAdvance (g.body name)
  /-- The lists in the parser advance. -/
  lists : g.ListsAdvance p

/-- If no rule comes to itself before an element is read, the rules that one enters first are ranked
below it. -/
theorem wellFounded_entersFirst (g : Grammar ε τ)
    (acyclic : ∀ name, ¬ Relation.TransGen g.EntersFirst name name) :
    WellFounded fun inner name => Relation.TransGen g.EntersFirst name inner := by
  have finitelyMany : Finite ν :=
    Set.finite_univ_iff.1 (g.names.finite_toSet.subset fun name _ => g.mem_names name)
  have transitive : IsTrans ν fun inner name => Relation.TransGen g.EntersFirst name inner :=
    ⟨fun _ _ _ lower upper => upper.trans lower⟩
  have irreflexive : Std.Irrefl fun inner name => Relation.TransGen g.EntersFirst name inner :=
    ⟨acyclic⟩
  exact Finite.wellFounded_of_trans_of_irrefl _

/-! ## Every parse ends -/

variable [DecidableEq ε]

/-- Every rule ends wherever fewer elements are left than at the cursor. -/
def RulesEndAfter (g : Grammar ε τ) (c : Cursor ε) : Prop :=
  ∀ name d, d.remainingCount < c.remainingCount → g.parse (.rule name) d ≠ .unfinished

/-- A parser ends wherever the rules do that it may enter first, and all rules do later on. -/
def EndsWithRules (g : Grammar ε τ) (p : Parser ε τ α) : Prop :=
  ∀ c, g.RulesEndAfter c →
    (∀ name, g.EntersAtStart name p → g.parse (.rule name) c ≠ .unfinished) →
    g.parse p c ≠ .unfinished

/-- Reading moves forward. -/
theorem parse_movesForward (g : Grammar ε τ) (p : Parser ε τ α) (c : Cursor ε) :
    Repetition.MovesForward (g.parse p) c :=
  fun d _ => g.parse_leadsOnFrom p d

/-- Where fewer elements are left, a parser ends because all rules do. -/
theorem EndsWithRules.of_lt {g : Grammar ε τ} {p : Parser ε τ α} (ends : g.EndsWithRules p)
    {c d : Cursor ε} (later : g.RulesEndAfter c) (fewer : d.remainingCount < c.remainingCount) :
    g.parse p d ≠ .unfinished :=
  ends d (fun name e lt => later name e (Nat.lt_trans lt fewer)) fun name _ => later name d fewer

/-- At the cursors that a start reaches, a parser ends if it does at the start. -/
theorem EndsWithRules.endsFrom {g : Grammar ε τ} {p : Parser ε τ α} (ends : g.EndsWithRules p)
    {c : Cursor ε} (later : g.RulesEndAfter c)
    (atStart : ∀ name, g.EntersAtStart name p → g.parse (.rule name) c ≠ .unfinished) :
    Repetition.EndsFrom (g.parse p) c := by
  intro d reaches
  rcases reaches.eq_or_remainingCount_lt with rfl | fewer
  · exact ends d later atStart
  · exact ends.of_lt later fewer

/-- After a match a further parser ends: either an element has been read, or the first parser is
nullable and the further one counts as entered first. -/
theorem EndsWithRules.after_match {g : Grammar ε τ} {q : Parser ε τ β} (ends : g.EndsWithRules q)
    {p : Parser ε τ α} {c rest : Cursor ε} {value : α} (later : g.RulesEndAfter c)
    (atStart : ∀ name, g.Nullable p ∧ g.EntersAtStart name q →
      g.parse (.rule name) c ≠ .unfinished)
    (found : g.parse p c = .matched value rest) : g.parse q rest ≠ .unfinished := by
  rcases (g.parse_leadsOnFrom p c value rest found).eq_or_remainingCount_lt with rfl | fewer
  · have nullable := g.nullable_of_parse_eq_matched p found
    exact ends rest later fun name enters => atStart name ⟨nullable, enters⟩
  · exact ends.of_lt later fewer

/-- Two parsers in a row end if both do: the second one after every match of the first. -/
theorem EndsWithRules.inARow {g : Grammar ε τ} {p : Parser ε τ α} {q : Parser ε τ β}
    (first : g.EndsWithRules p) (second : g.EndsWithRules q) {c : Cursor ε}
    (later : g.RulesEndAfter c)
    (atStart : ∀ name, g.EntersAtStart name p ∨ g.Nullable p ∧ g.EntersAtStart name q →
      g.parse (.rule name) c ≠ .unfinished) (combine : α → β → γ) :
    ((g.parse p c).bind fun value rest => (g.parse q rest).map (combine value)) ≠ .unfinished := by
  refine bind_ne_unfinished (first c later fun name enters => atStart name (Or.inl enters)) ?_
  intro value rest found
  have further := second.after_match later (fun name enters => atStart name (Or.inr enters)) found
  exact map_ne_unfinished further

/-- A separated list ends if its item and its separator do and one of them is not nullable. -/
theorem EndsWithRules.separated {g : Grammar ε τ} {item : Parser ε τ α} {separator : Parser ε τ β}
    (items : g.EndsWithRules item) (separators : g.EndsWithRules separator)
    (advance : ¬ (g.Nullable item ∧ g.Nullable separator)) :
    g.EndsWithRules (item.separated separator) := by
  intro c later atStart
  have itemsEnd : Repetition.EndsFrom (g.parse item) c :=
    items.endsFrom later fun name enters => atStart name (Or.inl enters)
  rw [parse_separated]
  refine bind_ne_unfinished (itemsEnd c (.refl c)) fun first rest found => ?_
  have reaches := g.parse_leadsOnFrom item c first rest found
  -- where no element has been read yet, the item is nullable and the separator is entered first
  have separatorsEnd : Repetition.EndsFrom (g.parse separator) rest := by
    intro d further
    rcases (reaches.trans further).eq_or_remainingCount_lt with rfl | fewer
    · obtain rfl := reaches.antisymm further
      exact separators.after_match later (fun name enters => atStart name (Or.inr enters)) found
    · exact separators.of_lt later fewer
  have roundsEnd : Repetition.EndsFrom
      (fun before => (g.parse separator before).bind fun _ after => g.parse item after) rest := by
    intro d further
    refine bind_ne_unfinished (separatorsEnd d further) fun value after foundSeparator => ?_
    have beyond := g.parse_leadsOnFrom separator d value after foundSeparator
    exact itemsEnd after ((reaches.trans further).trans beyond)
  -- a round that stands still would make both its parts nullable
  have roundsAdvance : ∀ d value, rest.Reaches d →
      (g.parse separator d).bind (fun _ after => g.parse item after) ≠ .matched value d := by
    intro d value _ stands
    obtain ⟨between, after, foundSeparator, foundItem⟩ := bind_eq_matched_iff.1 stands
    have forth := g.parse_leadsOnFrom separator d between after foundSeparator
    obtain rfl := forth.antisymm (g.parse_leadsOnFrom item after value d foundItem)
    exact advance ⟨g.nullable_of_parse_eq_matched item foundItem,
      g.nullable_of_parse_eq_matched separator foundSeparator⟩
  have tail := Repetition.whileAdvancing_ne_unfinished
    ((g.parse_movesForward separator rest).followed (g.parse_movesForward item rest))
    roundsEnd roundsAdvance
  exact map_ne_unfinished tail

/-- A parser whose lists advance ends with the rules that it enters. -/
theorem endsWithRules (g : Grammar ε τ) (p : Parser ε τ α) (lists : g.ListsAdvance p) :
    g.EndsWithRules p := by
  induction p with
  | satisfy accepts =>
      intro c _ _
      exact Parser.readElement_ne_unfinished accepts c
  | word expected =>
      intro c _ _
      exact Parser.readWord_ne_unfinished expected c
  | succeed constant =>
      intro c _ _
      exact matched_ne_unfinished constant c
  | map p f ih =>
      intro c later atStart
      rw [parse_map]
      exact map_ne_unfinished (ih lists c later atStart)
  | filter p keep ih =>
      intro c later atStart
      rw [parse_filter]
      refine bind_ne_unfinished (ih lists c later atStart) fun value rest _ => ?_
      split
      · exact matched_ne_unfinished _ _
      · exact noMatch_ne_unfinished
  | filterMap p f ih =>
      intro c later atStart
      rw [parse_filterMap]
      refine bind_ne_unfinished (ih lists c later atStart) fun value rest _ => ?_
      split
      · exact matched_ne_unfinished _ _
      · exact noMatch_ne_unfinished
  | sequence p q combine ihp ihq =>
      intro c later atStart
      rw [parse_sequence]
      exact (ihp lists.1).inARow (ihq lists.2) later atStart combine
  | apply p q ihp ihq =>
      intro c later atStart
      rw [parse_apply]
      exact (ihp lists.1).inARow (ihq lists.2) later atStart fun f argument => f argument
  | orElse p q ihp ihq =>
      intro c later atStart
      rw [parse_orElse]
      exact orElse_ne_unfinished
        (ihp lists.1 c later fun name enters => atStart name (Or.inl enters))
        (ihq lists.2 c later fun name enters => atStart name (Or.inr enters))
  | optional p ih =>
      intro c later atStart
      rw [parse_optional]
      refine orElse_ne_unfinished ?_ (matched_ne_unfinished none c)
      exact map_ne_unfinished (ih lists c later atStart)
  | repeated p least most ih =>
      intro c later atStart
      rw [parse_repeated]
      exact Repetition.between_ne_unfinished least most (g.parse_movesForward p c) fun rounds =>
        (ih lists).endsFrom later fun name enters => atStart name ⟨rounds, enters⟩
  | separated item separator ihItem ihSeparator =>
      exact (ihItem lists.1).separated (ihSeparator lists.2.1) lists.2.2
  | rule name =>
      intro c _ atStart
      exact atStart name rfl

/-- With rules that do not come to themselves and whose lists advance, every rule ends. -/
theorem parse_rule_ne_unfinished (g : Grammar ε τ)
    (acyclic : ∀ name, ¬ Relation.TransGen g.EntersFirst name name)
    (ruleLists : ∀ name, g.ListsAdvance (g.body name)) (name : ν) (c : Cursor ε) :
    g.parse (.rule name) c ≠ .unfinished := by
  -- first on the number of elements left, then on the rank of the rule
  induction elements : c.remainingCount using Nat.strong_induction_on generalizing name c with
  | _ count ih =>
      subst elements
      have later : g.RulesEndAfter c := fun inner d fewer => ih d.remainingCount fewer inner d rfl
      induction name using (g.wellFounded_entersFirst acyclic).induction with
      | _ name ihRank =>
          rw [parse_rule]
          refine g.endsWithRules (g.body name) (ruleLists name) c later fun inner enters => ?_
          exact ihRank inner (.single enters)

/-- **With a well-formed grammar every parse ends**, at every cursor: it matches or refuses the
content. -/
theorem parse_ne_unfinished_of_wellFormed (g : Grammar ε τ) (p : Parser ε τ α)
    (wellFormed : g.WellFormed p) (c : Cursor ε) : g.parse p c ≠ .unfinished :=
  g.endsWithRules p wellFormed.lists c
    (fun name d _ => g.parse_rule_ne_unfinished wellFormed.acyclic wellFormed.ruleLists name d)
    fun name _ => g.parse_rule_ne_unfinished wellFormed.acyclic wellFormed.ruleLists name c

/-- The rules of nested lists. -/
inductive ListRule where
  /-- Blanks, maybe none. -/
  | blanks
  /-- A number, or a list in brackets. -/
  | item
  /-- Items with blanks between them. -/
  | list
  deriving DecidableEq

/-- The sums of nested lists of numbers. What separates the items may read nothing, and a list comes
to itself only behind a bracket. -/
def nestedLists : Grammar Char (fun _ : ListRule => Int) where
  names := [.blanks, .item, .list]
  mem_names := by rintro (_ | _ | _) <;> decide
  body
    | .blanks => (Parser.char ' ').many.map fun blanks => blanks.length
    | .item => (Parser.natural IntType.u8.range).orElse
        ((Parser.char '[').keepRight ((Parser.rule ListRule.list).keepLeft (Parser.char ']')))
    | .list => ((Parser.rule ListRule.item).separated (Parser.rule ListRule.blanks)).map
        fun items => items.foldl (· + ·) 0

/-- An item reads a digit or a bracket. -/
theorem nestedLists_not_nullable_item : ¬ nestedLists.Nullable (.rule ListRule.item) := by
  rw [nullable_iff, NullableByParts, nullable_iff]
  rintro (number | bracketed)
  · exact nestedLists.not_nullable_natural _ number
  · rw [Parser.keepRight, nullable_iff] at bracketed
    exact nestedLists.not_nullable_satisfy _ bracketed.1

/-- Before an element is read, a list enters its first item, and nothing else is entered. -/
theorem nestedLists_entersFirst {name inner : ListRule}
    (enters : nestedLists.EntersFirst name inner) : name = .list ∧ inner = .item := by
  cases name with
  | blanks => exact enters.2.elim
  | item =>
      rcases enters with ⟨-, number⟩ | bracket | ⟨bracket, -⟩
      · exact number.elim
      · exact bracket.elim
      · exact (nestedLists.not_nullable_satisfy _ bracket).elim
  | list =>
      rcases enters with item | ⟨item, -⟩
      · exact ⟨rfl, item.symm⟩
      · exact (nestedLists_not_nullable_item item).elim

/-- Nested lists are well-formed. -/
theorem nestedLists_wellFormed : nestedLists.WellFormed (.rule ListRule.list) where
  acyclic := by
    intro name path
    have first : name = .list := by
      obtain ⟨_, edge, -⟩ := Relation.TransGen.head'_iff.1 path
      exact (nestedLists_entersFirst edge).1
    have last : name = .item := by
      obtain ⟨_, -, edge⟩ := Relation.TransGen.tail'_iff.1 path
      exact (nestedLists_entersFirst edge).2
    rw [first] at last
    cases last
  ruleLists := by
    intro name
    cases name with
    | blanks => trivial
    | item => exact ⟨trivial, trivial, trivial, trivial⟩
    | list => exact ⟨trivial, trivial, fun both => nestedLists_not_nullable_item both.1⟩
  lists := trivial

/-- Reading nested lists ends, here after an item whose bracket is not closed. -/
theorem nestedLists_ends :
    nestedLists.WellFormed (.rule ListRule.list) ∧
      nestedLists.parse (.rule ListRule.list) (.ofBuffer #['1', ' ', '[', '2', '[', '3', ']']) ≠
        .unfinished :=
  ⟨nestedLists_wellFormed,
    nestedLists.parse_ne_unfinished_of_wellFormed _ nestedLists_wellFormed _⟩

end Grammar

end ParserCombinators
