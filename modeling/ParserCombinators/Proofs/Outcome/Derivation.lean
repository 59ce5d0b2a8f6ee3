import ParserCombinators.Proofs.ParsingExpression
import ParserCombinators.Proofs.Repetition.Span
import ParserCombinators.Proofs.Repetition.Unbounded

/-! # Outcomes and the results of parsing expressions

* **`Outcome.ComesTo`** — the outcome of reading at a cursor and the result of an expression tell the
  same.
* **`Outcome.DerivedBy`** — an expression comes to what is read: one lemma for each way in which
  expressions are built.
* **`Outcome.Covers`** — what an expression comes to in a number of steps is read: again one lemma
  for each way of building. -/

namespace ParserCombinators

open Outcome ParsingExpression

variable {ε ν : Type} {α β : Type}

/-! ## Outcomes and results -/

/-- The outcome of reading at `c` tells the same as the result: a match is as long as what is
consumed, and a refusal is a failure. -/
inductive Outcome.ComesTo (c : Cursor ε) : Outcome ε α → Option Nat → Prop
  | matched {count : Nat} (inside : count ≤ c.remainingCount) (value : α) :
      ComesTo c (.matched value (c.advanceBy count)) (some count)
  | noMatch : ComesTo c .noMatch none

namespace Outcome.ComesTo

variable {c : Cursor ε} {outcome : Outcome ε α} {result : Option Nat}

/-- A match that reads nothing consumes nothing. -/
theorem stands (c : Cursor ε) (value : α) :
    (Outcome.matched value c).ComesTo c (some 0) :=
  .matched (Nat.zero_le _) value

/-- An outcome comes to one result only. -/
theorem unique {result' : Option Nat} (comesTo : outcome.ComesTo c result)
    (comesTo' : outcome.ComesTo c result') : result = result' := by
  cases comesTo with
  | @matched count inside value =>
      -- both counts lead to the same cursor, and within the content its position tells the count
      generalize same : Outcome.matched value (c.advanceBy count) = outcome' at comesTo'
      cases comesTo' with
      | @matched count' inside' value' =>
          have rests : c.advanceBy count = c.advanceBy count' := (Outcome.matched.inj same).2
          have positions := congrArg Cursor.position rests
          rw [c.position_advanceBy inside, c.position_advanceBy inside'] at positions
          rw [Nat.add_left_cancel positions]
      | noMatch => cases same
  | noMatch =>
      cases comesTo'
      rfl

/-- An outcome that leads forward comes to a number of elements if it is a match that reads so
many. -/
theorem some_iff {count : Nat} (forward : outcome.LeadsOnFrom c) :
    outcome.ComesTo c (some count) ↔
      ∃ value rest, outcome = .matched value rest ∧ rest.position = c.position + count := by
  constructor
  · intro comesTo
    cases comesTo with
    | matched inside value => exact ⟨value, _, rfl, c.position_advanceBy inside⟩
  · rintro ⟨value, rest, rfl, moved⟩
    obtain ⟨count', inside, rfl⟩ := forward value rest rfl
    rw [c.position_advanceBy inside] at moved
    rw [← Nat.add_left_cancel moved]
    exact .matched inside value

/-- An outcome comes to a failure if it is a refusal. -/
theorem none_iff : outcome.ComesTo c none ↔ outcome = .noMatch := by
  constructor
  · intro comesTo
    cases comesTo
    rfl
  · rintro rfl
    exact .noMatch

/-- The value does not count. -/
theorem map (comesTo : outcome.ComesTo c result) (f : α → β) :
    (outcome.map f).ComesTo c result := by
  cases comesTo with
  | matched inside value => exact .matched inside (f value)
  | noMatch => exact .noMatch

/-- What is consumed behind other elements adds up with them. -/
theorem behind {first : Nat} (inside : first ≤ c.remainingCount)
    (comesTo : outcome.ComesTo (c.advanceBy first) result) :
    outcome.ComesTo c (result.map (first + ·)) := by
  cases comesTo with
  | @matched second further value =>
      rw [Cursor.remainingCount_advanceBy] at further
      rw [← c.advanceBy_add]
      exact .matched (by omega) value
  | noMatch => exact .noMatch

/-- Two readings in a row come to what the second comes to behind the first. -/
theorem bind {first : Nat} (comesTo : outcome.ComesTo c (some first))
    {next : α → Cursor ε → Outcome ε β}
    (further : ∀ value, (next value (c.advanceBy first)).ComesTo (c.advanceBy first) result) :
    (outcome.bind next).ComesTo c (result.map (first + ·)) := by
  cases comesTo with
  | matched inside value => exact (further value).behind inside

/-- Nothing goes on after a refusal. -/
theorem bindNone (comesTo : outcome.ComesTo c none) (next : α → Cursor ε → Outcome ε β) :
    (outcome.bind next).ComesTo c none := by
  cases comesTo
  exact .noMatch

/-- Where something is read, the alternative does not count. -/
theorem orElse {count : Nat} (comesTo : outcome.ComesTo c (some count))
    (alternative : Outcome ε α) : (outcome.orElse fun _ => alternative).ComesTo c (some count) := by
  cases comesTo with
  | matched inside value => exact .matched inside value

/-- After a refusal the alternative counts. -/
theorem orElseNone (comesTo : outcome.ComesTo c none) {alternative : Outcome ε α}
    (fallback : alternative.ComesTo c result) :
    (outcome.orElse fun _ => alternative).ComesTo c result := by
  cases comesTo
  exact fallback

end Outcome.ComesTo

namespace Parser

/-- One element comes to what its class of terminals does. -/
theorem readElement_comesTo (accepts : ε → Bool) (c : Cursor ε) :
    (readElement accepts c).ComesTo c (terminalResult accepts c.remaining) := by
  cases content : c.remaining with
  | nil =>
      rw [readElement_of_remaining_eq_nil accepts content]
      exact .noMatch
  | cons head tail =>
      have one : 1 ≤ c.remainingCount := by
        rw [← c.length_remaining, content]
        exact Nat.succ_pos tail.length
      rw [readElement_of_remaining_eq_cons accepts content, terminalResult]
      split
      · exact .matched one head
      · exact .noMatch

/-- A word comes to what the word of terminals does. -/
theorem readWord_comesTo [DecidableEq ε] (expected : List ε) (c : Cursor ε) :
    (readWord expected c).ComesTo c (wordResult expected c.remaining) := by
  rw [readWord_eq, wordResult]
  split
  · next isNext => exact .matched (Cursor.length_le_remainingCount isNext) expected
  · exact .noMatch

end Parser

namespace Repetition

variable {attempt : Cursor ε → Outcome ε α} {c : Cursor ε}

/-- A repetition ends where the first round is refused. -/
theorem unbounded_comesTo_end (round : (attempt c).ComesTo c none) :
    (unbounded attempt 0 c).ComesTo c (some 0) := by
  rw [unbounded, ComesTo.none_iff.1 round]
  exact .stands c []

/-- A round that reads elements is followed by the repetition behind them, where less is left. -/
theorem exists_round_of_comesTo {first : Nat} (forward : (attempt c).LeadsOnFrom c)
    (advances : ∀ value rest, attempt c = .matched value rest → rest.position ≠ c.position)
    (round : (attempt c).ComesTo c (some first)) :
    ∃ value, unbounded attempt 0 c =
        (unbounded attempt 0 (c.advanceBy first)).map (value :: ·) ∧
      first ≤ c.remainingCount ∧ (c.advanceBy first).remainingCount < c.remainingCount := by
  generalize read : attempt c = outcome at round
  cases round with
  | matched inside value =>
      have reaches := forward value (c.advanceBy first) read
      have moved := advances value (c.advanceBy first) read
      exact ⟨value, unbounded_zero_of_matched read reaches moved, inside,
        reaches.remainingCount_lt moved⟩

end Repetition

/-! ## What is read is derivable -/

/-- Reading at `c` does not end, or the expression comes to what the outcome does. -/
def Outcome.DerivedBy (outcome : Outcome ε α) (rules : ν → ParsingExpression ε ν)
    (e : ParsingExpression ε ν) (c : Cursor ε) : Prop :=
  outcome = .unfinished ∨ ∃ result, outcome.ComesTo c result ∧ Derivable rules e c.remaining result

namespace Outcome.DerivedBy

variable {rules : ν → ParsingExpression ε ν} {e f : ParsingExpression ε ν} {c : Cursor ε}
  {outcome : Outcome ε α}

/-- The empty expression derives what matches where it stands. -/
theorem empty (rules : ν → ParsingExpression ε ν) (c : Cursor ε) (value : α) :
    (Outcome.matched value c).DerivedBy rules .empty c :=
  Or.inr ⟨some 0, .stands c value, 1, .empty c.remaining⟩

/-- A nonterminal derives what its expression does. -/
theorem nonterminal {name : ν} (derived : outcome.DerivedBy rules (rules name) c) :
    outcome.DerivedBy rules (.nonterminal name) c := by
  rcases derived with isOpen | ⟨result, comesTo, derivable⟩
  · exact Or.inl isOpen
  · exact Or.inr ⟨result, comesTo, derivable.nonterminal⟩

/-- The value does not count. -/
theorem map (derived : outcome.DerivedBy rules e c) (f : α → β) :
    (outcome.map f).DerivedBy rules e c := by
  rcases derived with rfl | ⟨result, comesTo, derivable⟩
  · exact Or.inl rfl
  · exact Or.inr ⟨result, comesTo.map f, derivable⟩

/-- A sequence derives what is read in a row. -/
theorem sequence (derived : outcome.DerivedBy rules e c) {next : α → Cursor ε → Outcome ε β}
    (further : ∀ value d, (next value d).DerivedBy rules f d) :
    (outcome.bind next).DerivedBy rules (.sequence e f) c := by
  rcases derived with rfl | ⟨result, comesTo, derivable⟩
  · exact Or.inl rfl
  · cases comesTo with
    | @matched first inside value =>
        rcases further value (c.advanceBy first) with isOpen | ⟨result', comesTo', derivable'⟩
        · exact Or.inl isOpen
        · rw [Cursor.remaining_advanceBy] at derivable'
          exact Or.inr ⟨_, comesTo'.behind inside, derivable.sequence derivable'⟩
    | noMatch => exact Or.inr ⟨none, .noMatch, derivable.sequenceFails f⟩

/-- A choice derives what is read with an alternative. -/
theorem choice (derived : outcome.DerivedBy rules e c) {alternative : Outcome ε α}
    (fallback : alternative.DerivedBy rules f c) :
    (outcome.orElse fun _ => alternative).DerivedBy rules (.choice e f) c := by
  rcases derived with rfl | ⟨result, comesTo, derivable⟩
  · exact Or.inl rfl
  · cases comesTo with
    | @matched count inside value =>
        exact Or.inr ⟨some count, .matched inside value, derivable.choiceFirst f⟩
    | noMatch =>
        rcases fallback with rfl | ⟨result', comesTo', derivable'⟩
        · exact Or.inl rfl
        · exact Or.inr ⟨result', comesTo', derivable.choiceSecond derivable'⟩

/-- A repeated expression derives what is read in rounds that advance. -/
theorem star {attempt : Cursor ε → Outcome ε α} (forward : ∀ d, (attempt d).LeadsOnFrom d)
    (advances : ∀ d value rest, attempt d = .matched value rest → rest.position ≠ d.position)
    (derived : ∀ d, (attempt d).DerivedBy rules e d) (c : Cursor ε) :
    (Repetition.unbounded attempt 0 c).DerivedBy rules (.star e) c := by
  -- every round leaves less for the rounds behind it
  induction left : c.remainingCount using Nat.strongRecOn generalizing c with
  | ind count ih =>
      subst left
      rcases derived c with isOpen | ⟨result, comesTo, derivable⟩
      · rw [Repetition.unbounded, isOpen]
        exact Or.inl rfl
      · cases result with
        | some first =>
            obtain ⟨value, again, inside, fewer⟩ :=
              Repetition.exists_round_of_comesTo (forward c) (advances c) comesTo
            rw [again]
            rcases ih _ fewer (c.advanceBy first) rfl with isOpen | ⟨result', comesTo', derivable'⟩
            · rw [isOpen]
              exact Or.inl rfl
            · rw [Cursor.remaining_advanceBy] at derivable'
              -- the further rounds cannot fail, so what they consume adds up with the first round
              obtain ⟨further, rfl⟩ := derivable'.exists_of_star
              exact Or.inr ⟨some (first + further), (comesTo'.map (value :: ·)).behind inside,
                derivable.starAgain derivable'⟩
        | none =>
            exact Or.inr ⟨some 0, Repetition.unbounded_comesTo_end comesTo, derivable.starEnd⟩

end Outcome.DerivedBy

/-! ## What is derivable is read -/

/-- Whatever the expression comes to in less than a number of steps, the outcome of reading at `c`
comes to. -/
def Outcome.Covers (outcome : Outcome ε α) (rules : ν → ParsingExpression ε ν)
    (e : ParsingExpression ε ν) (c : Cursor ε) (bound : Nat) : Prop :=
  ∀ steps, steps < bound → ∀ result, Derives rules e c.remaining steps result →
    outcome.ComesTo c result

namespace Outcome.Covers

variable {rules : ν → ParsingExpression ε ν} {e f : ParsingExpression ε ν} {c : Cursor ε}
  {bound : Nat} {outcome : Outcome ε α}

/-- What matches where it stands covers the empty expression. -/
theorem empty (rules : ν → ParsingExpression ε ν) (c : Cursor ε) (bound : Nat) (value : α) :
    (Outcome.matched value c).Covers rules .empty c bound := by
  intro steps below result derives
  cases derives
  exact .stands c value

/-- What covers the expression of a nonterminal covers the nonterminal, which takes a step more. -/
theorem nonterminal {name : ν} (covers : outcome.Covers rules (rules name) c bound) :
    outcome.Covers rules (.nonterminal name) c (bound + 1) := by
  intro steps below result derives
  cases derives with
  | nonterminal derives => exact covers _ (by omega) result derives

/-- The value does not count. -/
theorem map (covers : outcome.Covers rules e c bound) (f : α → β) :
    (outcome.map f).Covers rules e c bound :=
  fun steps below result derives => (covers steps below result derives).map f

/-- Two readings in a row cover a sequence. -/
theorem sequence (covers : outcome.Covers rules e c bound) {next : α → Cursor ε → Outcome ε β}
    (further : ∀ value d, (next value d).Covers rules f d bound) :
    (outcome.bind next).Covers rules (.sequence e f) c (bound + 1) := by
  intro steps below result derives
  -- the second expression starts where the first reading ended
  have behind : ∀ {steps' first : Nat} {result' : Option Nat}, steps' < bound →
      Derives rules f (c.remaining.drop first) steps' result' →
        ∀ value, (next value (c.advanceBy first)).ComesTo (c.advanceBy first) result' := by
    intro steps' first result' below' derives' value
    rw [← c.remaining_advanceBy] at derives'
    exact further value (c.advanceBy first) steps' below' result' derives'
  cases derives with
  | sequence first second =>
      exact (covers _ (by omega) _ first).bind (behind (by omega) second)
  | sequenceFirstFails _ first => exact (covers _ (by omega) _ first).bindNone next
  | sequenceSecondFails first second =>
      exact (covers _ (by omega) _ first).bind (behind (by omega) second)

/-- A reading with an alternative covers a choice. -/
theorem choice (covers : outcome.Covers rules e c bound) {alternative : Outcome ε α}
    (fallback : alternative.Covers rules f c bound) :
    (outcome.orElse fun _ => alternative).Covers rules (.choice e f) c (bound + 1) := by
  intro steps below result derives
  cases derives with
  | choiceFirst _ first => exact (covers _ (by omega) _ first).orElse alternative
  | choiceSecond first second =>
      exact (covers _ (by omega) _ first).orElseNone (fallback _ (by omega) result second)

/-- Rounds that advance cover a repeated expression, if that is so behind the first round. -/
theorem star {attempt : Cursor ε → Outcome ε α} (forward : (attempt c).LeadsOnFrom c)
    (advances : ∀ value rest, attempt c = .matched value rest → rest.position ≠ c.position)
    (covers : (attempt c).Covers rules e c bound)
    (further : ∀ d, (Repetition.unbounded attempt 0 d).Covers rules (.star e) d bound) :
    (Repetition.unbounded attempt 0 c).Covers rules (.star e) c (bound + 1) := by
  intro steps below result derives
  cases derives with
  | starAgain first second =>
      have round := covers _ (by omega) _ first
      obtain ⟨value, again, inside, -⟩ :=
        Repetition.exists_round_of_comesTo forward advances round
      rw [← c.remaining_advanceBy] at second
      rw [again]
      exact ((further _ _ (by omega) _ second).map (value :: ·)).behind inside
  | starEnd first => exact Repetition.unbounded_comesTo_end (covers _ (by omega) none first)

end Outcome.Covers

end ParserCombinators
