/-! # Parsing expressions

The expressions of parsing expression grammars, with the big-step relation that gives them their
meaning.

* **`ParsingExpression ε ν`** — the empty expression, classes of terminals, nonterminals, sequences,
  ordered choices, and greedy repetition. The other forms are made of these:
  **`ParsingExpression.optional`**, **`ParsingExpression.plus`**, **`ParsingExpression.word`**.
  Predicates, which look ahead and consume nothing, are left out: no parser stands for them.
* **`ParsingExpression.Derives`** — an expression comes, on a content and in a number of steps, to
  the number of elements that it consumes, or to a failure.
* **`ParsingExpression.Derivable`** — the same in some number of steps.
* **`ParsingExpression.terminalResult`**, **`ParsingExpression.wordResult`** — what a class of
  terminals and a word come to, as functions of the content. -/

namespace ParserCombinators

/-- Parsing expressions over terminals of `ε` and nonterminals of `ν`. -/
inductive ParsingExpression (ε ν : Type) where
  /-- Consumes nothing. -/
  | empty
  /-- Consumes a terminal of a class. -/
  | terminal (accepts : ε → Bool)
  /-- Consumes what the expression of a nonterminal does. -/
  | nonterminal (name : ν)
  /-- Consumes with one expression and then with another. -/
  | sequence (first second : ParsingExpression ε ν)
  /-- Consumes with the first expression or, where it fails, with the second. -/
  | choice (first second : ParsingExpression ε ν)
  /-- Consumes with the expression until it fails. -/
  | star (body : ParsingExpression ε ν)

namespace ParsingExpression

variable {ε ν : Type}

/-- Consumes with the expression or nothing. -/
def optional (e : ParsingExpression ε ν) : ParsingExpression ε ν :=
  .choice e .empty

/-- Consumes with the expression until it fails, at least once. -/
def plus (e : ParsingExpression ε ν) : ParsingExpression ε ν :=
  .sequence e (.star e)

/-- Consumes the given terminals, one after the other. -/
def word [DecidableEq ε] : List ε → ParsingExpression ε ν
  | [] => .empty
  | expected :: others => .sequence (.terminal fun element => element = expected) (word others)

/-- The big-step relation. The result is the number of elements consumed, or `none` for a failure;
what is consumed next starts behind what was consumed before. -/
inductive Derives (rules : ν → ParsingExpression ε ν) :
    ParsingExpression ε ν → List ε → (steps : Nat) → Option Nat → Prop
  | empty (content : List ε) : Derives rules .empty content 1 (some 0)
  | terminal {accepts : ε → Bool} {head : ε} (tail : List ε) :
      accepts head = true → Derives rules (.terminal accepts) (head :: tail) 1 (some 1)
  | terminalOther {accepts : ε → Bool} {head : ε} (tail : List ε) :
      accepts head = false → Derives rules (.terminal accepts) (head :: tail) 1 none
  | terminalAtEnd (accepts : ε → Bool) : Derives rules (.terminal accepts) [] 1 none
  | nonterminal {name : ν} {content : List ε} {steps : Nat} {result : Option Nat} :
      Derives rules (rules name) content steps result →
        Derives rules (.nonterminal name) content (steps + 1) result
  | sequence {e f : ParsingExpression ε ν} {content : List ε} {steps steps' first second : Nat} :
      Derives rules e content steps (some first) →
        Derives rules f (content.drop first) steps' (some second) →
          Derives rules (.sequence e f) content (steps + steps' + 1) (some (first + second))
  | sequenceFirstFails {e : ParsingExpression ε ν} (f : ParsingExpression ε ν) {content : List ε}
      {steps : Nat} :
      Derives rules e content steps none → Derives rules (.sequence e f) content (steps + 1) none
  | sequenceSecondFails {e f : ParsingExpression ε ν} {content : List ε}
      {steps steps' first : Nat} :
      Derives rules e content steps (some first) →
        Derives rules f (content.drop first) steps' none →
          Derives rules (.sequence e f) content (steps + steps' + 1) none
  | choiceFirst {e : ParsingExpression ε ν} (f : ParsingExpression ε ν) {content : List ε}
      {steps count : Nat} :
      Derives rules e content steps (some count) →
        Derives rules (.choice e f) content (steps + 1) (some count)
  | choiceSecond {e f : ParsingExpression ε ν} {content : List ε} {steps steps' : Nat}
      {result : Option Nat} :
      Derives rules e content steps none → Derives rules f content steps' result →
        Derives rules (.choice e f) content (steps + steps' + 1) result
  | starAgain {e : ParsingExpression ε ν} {content : List ε} {steps steps' first further : Nat} :
      Derives rules e content steps (some first) →
        Derives rules (.star e) (content.drop first) steps' (some further) →
          Derives rules (.star e) content (steps + steps' + 1) (some (first + further))
  | starEnd {e : ParsingExpression ε ν} {content : List ε} {steps : Nat} :
      Derives rules e content steps none →
        Derives rules (.star e) content (steps + 1) (some 0)

/-- The expression comes to the result on the content. -/
def Derivable (rules : ν → ParsingExpression ε ν) (e : ParsingExpression ε ν) (content : List ε)
    (result : Option Nat) : Prop :=
  ∃ steps, Derives rules e content steps result

variable {rules : ν → ParsingExpression ε ν} {e f : ParsingExpression ε ν} {content : List ε}

namespace Derivable

/-- A nonterminal comes to what its expression does. -/
theorem nonterminal {name : ν} {result : Option Nat}
    (derivable : Derivable rules (rules name) content result) :
    Derivable rules (.nonterminal name) content result := by
  obtain ⟨steps, derives⟩ := derivable
  exact ⟨steps + 1, derives.nonterminal⟩

/-- A sequence goes on behind what the first expression consumed. -/
theorem sequence {first : Nat} {result : Option Nat}
    (derivable : Derivable rules e content (some first))
    (derivable' : Derivable rules f (content.drop first) result) :
    Derivable rules (.sequence e f) content (result.map (first + ·)) := by
  obtain ⟨steps, derives⟩ := derivable
  obtain ⟨steps', derives'⟩ := derivable'
  cases result with
  | some second => exact ⟨_, derives.sequence derives'⟩
  | none => exact ⟨_, derives.sequenceSecondFails derives'⟩

/-- A sequence fails with its first expression. -/
theorem sequenceFails (derivable : Derivable rules e content none) (f : ParsingExpression ε ν) :
    Derivable rules (.sequence e f) content none := by
  obtain ⟨steps, derives⟩ := derivable
  exact ⟨steps + 1, derives.sequenceFirstFails f⟩

/-- A choice consumes what its first expression does. -/
theorem choiceFirst {count : Nat} (derivable : Derivable rules e content (some count))
    (f : ParsingExpression ε ν) : Derivable rules (.choice e f) content (some count) := by
  obtain ⟨steps, derives⟩ := derivable
  exact ⟨steps + 1, derives.choiceFirst f⟩

/-- Where its first expression fails, a choice comes to what its second one does. -/
theorem choiceSecond {result : Option Nat} (derivable : Derivable rules e content none)
    (derivable' : Derivable rules f content result) :
    Derivable rules (.choice e f) content result := by
  obtain ⟨steps, derives⟩ := derivable
  obtain ⟨steps', derives'⟩ := derivable'
  exact ⟨_, derives.choiceSecond derives'⟩

/-- A repetition goes on behind what its expression consumed. -/
theorem starAgain {first further : Nat} (derivable : Derivable rules e content (some first))
    (derivable' : Derivable rules (.star e) (content.drop first) (some further)) :
    Derivable rules (.star e) content (some (first + further)) := by
  obtain ⟨steps, derives⟩ := derivable
  obtain ⟨steps', derives'⟩ := derivable'
  exact ⟨_, derives.starAgain derives'⟩

/-- A repetition ends where its expression fails. -/
theorem starEnd (derivable : Derivable rules e content none) :
    Derivable rules (.star e) content (some 0) := by
  obtain ⟨steps, derives⟩ := derivable
  exact ⟨steps + 1, derives.starEnd⟩

end Derivable

/-- What a class of terminals comes to: the next terminal decides. -/
def terminalResult (accepts : ε → Bool) : List ε → Option Nat
  | [] => none
  | head :: _ => if accepts head then some 1 else none

/-- A class of terminals comes to the result that the content decides on. -/
theorem derivable_terminal (rules : ν → ParsingExpression ε ν) (accepts : ε → Bool)
    (content : List ε) :
    Derivable rules (.terminal accepts) content (terminalResult accepts content) := by
  cases content with
  | nil => exact ⟨1, .terminalAtEnd accepts⟩
  | cons head tail =>
      rw [terminalResult]
      split
      · next accepted => exact ⟨1, .terminal tail accepted⟩
      · next refused => exact ⟨1, .terminalOther tail (Bool.eq_false_iff.2 refused)⟩

/-- A class of terminals comes to no other result. -/
theorem Derives.eq_terminalResult {accepts : ε → Bool} {steps : Nat} {result : Option Nat}
    (derives : Derives rules (.terminal accepts) content steps result) :
    result = terminalResult accepts content := by
  cases derives with
  | terminal tail accepted => rw [terminalResult, if_pos accepted]
  | terminalOther tail refused => rw [terminalResult, refused, if_neg Bool.false_ne_true]
  | terminalAtEnd => rfl

/-- A repetition never fails. -/
theorem Derivable.exists_of_star {result : Option Nat}
    (derivable : Derivable rules (.star e) content result) : ∃ count, result = some count := by
  obtain ⟨steps, derives⟩ := derivable
  cases derives with
  | starAgain => exact ⟨_, rfl⟩
  | starEnd => exact ⟨0, rfl⟩

section Word

variable [DecidableEq ε]

/-- What a word comes to: it is consumed where it is next, and fails elsewhere. -/
def wordResult (expected content : List ε) : Option Nat :=
  if expected <+: content then some expected.length else none

/-- The empty word is consumed everywhere. -/
theorem wordResult_nil (content : List ε) : wordResult [] content = some 0 := by
  rw [wordResult, if_pos List.nil_prefix, List.length_nil]

/-- At the end only the empty word is consumed. -/
theorem wordResult_cons_nil (element : ε) (others : List ε) :
    wordResult (element :: others) [] = none := by
  rw [wordResult, if_neg (by simp)]

/-- A word is consumed element by element. -/
theorem wordResult_cons_cons (element head : ε) (others tail : List ε) :
    wordResult (element :: others) (head :: tail) =
      if head = element then (wordResult others tail).map (1 + ·) else none := by
  by_cases next : head = element
  · subst next
    rw [if_pos rfl, wordResult, wordResult, List.length_cons]
    by_cases isNext : others <+: tail
    · rw [if_pos ((List.prefix_cons_inj head).2 isNext), if_pos isNext, Option.map_some, Nat.add_comm]
    · rw [if_neg fun whole => isNext ((List.prefix_cons_inj head).1 whole), if_neg isNext,
        Option.map_none]
  · rw [if_neg next, wordResult, if_neg fun whole => next (List.cons_prefix_cons.1 whole).1.symm]

/-- A word comes to the result that the content decides on. -/
theorem derivable_word (rules : ν → ParsingExpression ε ν) (expected content : List ε) :
    Derivable rules (word expected) content (wordResult expected content) := by
  induction expected generalizing content with
  | nil =>
      rw [wordResult_nil]
      exact ⟨1, .empty content⟩
  | cons element others ih =>
      cases content with
      | nil =>
          rw [wordResult_cons_nil]
          exact Derivable.sequenceFails ⟨1, .terminalAtEnd _⟩ _
      | cons head tail =>
          rw [wordResult_cons_cons]
          split
          · next same =>
              have first : Derivable rules (.terminal fun other => other = element) (head :: tail)
                  (some 1) := ⟨1, .terminal tail (decide_eq_true same)⟩
              exact first.sequence (ih tail)
          · next other =>
              exact Derivable.sequenceFails ⟨1, .terminalOther tail (decide_eq_false other)⟩ _

/-- A word comes to no other result. -/
theorem Derives.eq_wordResult {expected content : List ε} {steps : Nat} {result : Option Nat}
    (derives : Derives rules (word expected) content steps result) :
    result = wordResult expected content := by
  -- inverting the sequence shows the head of the word, inverting the terminal that of the content
  induction expected generalizing content steps result with
  | nil =>
      cases derives
      rw [wordResult_nil]
  | cons element others ih =>
      cases derives with
      | sequence first second =>
          cases first with
          | terminal tail same =>
              have others : some _ = wordResult others tail := ih second
              rw [wordResult_cons_cons, if_pos (of_decide_eq_true same), ← others, Option.map_some]
      | sequenceFirstFails _ first =>
          cases first with
          | terminalOther tail other =>
              rw [wordResult_cons_cons, if_neg (of_decide_eq_false other)]
          | terminalAtEnd => rw [wordResult_cons_nil]
      | sequenceSecondFails first second =>
          cases first with
          | terminal tail same =>
              have others : none = wordResult others tail := ih second
              rw [wordResult_cons_cons, if_pos (of_decide_eq_true same), ← others, Option.map_none]

end Word

end ParsingExpression

end ParserCombinators
