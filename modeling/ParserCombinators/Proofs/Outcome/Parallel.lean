import ParserCombinators.Cursor.Lemmas
import ParserCombinators.Outcome.Basic

/-! # Outcomes of parallel readings

Two readings run in parallel when they take the same turns: both match, both refuse the content, or
neither ends. They may start at different cursors and yield values of different types.

* **`Outcome.Parallel`** — the outcomes of two such readings: after a match both have passed the same
  number of elements, and the two values stand in a given relation.
* **`Outcome.Parallel.map`**, **`Outcome.Parallel.bind`**, **`Outcome.Parallel.orElse`** — every way
  of going on keeps readings parallel, if it goes on in parallel itself. -/

namespace ParserCombinators.Outcome

variable {ε α α' β β' : Type}

/-- The outcomes of two readings that take the same turns from the cursors `c` and `d`, and whose
values are related. -/
inductive Parallel (related : α → α' → Prop) (c d : Cursor ε) : Outcome ε α → Outcome ε α' → Prop
  /-- Both readings match, and both pass `count` elements. -/
  | matched {value : α} {value' : α'} (values : related value value') (count : Nat)
      (inside : count ≤ c.remainingCount) :
      Parallel related c d (.matched value (c.advanceBy count)) (.matched value' (d.advanceBy count))
  /-- Both readings refuse the content. -/
  | noMatch : Parallel related c d .noMatch .noMatch
  /-- Neither reading ends. -/
  | unfinished : Parallel related c d .unfinished .unfinished

namespace Parallel

variable {related : α → α' → Prop} {further : β → β' → Prop} {c d : Cursor ε}
  {first : Outcome ε α} {second : Outcome ε α'}

/-- Readings that match where they stand are parallel. -/
theorem stand {value : α} {value' : α'} (values : related value value') (c d : Cursor ε) :
    Parallel related c d (.matched value c) (.matched value' d) :=
  .matched values 0 (Nat.zero_le _)

/-- A match runs in parallel only to a match that passes as many elements. -/
theorem of_matched {value : α} {rest : Cursor ε} {second : Outcome ε α'}
    (parallel : Parallel related c d (.matched value rest) second) :
    ∃ value' count, related value value' ∧ count ≤ c.remainingCount ∧
      rest = c.advanceBy count ∧ second = .matched value' (d.advanceBy count) := by
  cases parallel with
  | @matched _ value' values count inside => exact ⟨value', count, values, inside, rfl, rfl⟩

/-- A refusal runs in parallel only to a refusal. -/
theorem of_noMatch (parallel : Parallel related c d .noMatch second) : second = .noMatch := by
  cases parallel
  rfl

/-- A reading that never ends runs in parallel only to one that never ends either. -/
theorem of_unfinished (parallel : Parallel related c d .unfinished second) :
    second = .unfinished := by
  cases parallel
  rfl

/-- Readings that are parallel after the same number of steps are parallel from the start. -/
theorem after_steps {count : Nat} (inside : count ≤ c.remainingCount)
    (parallel : Parallel related (c.advanceBy count) (d.advanceBy count) first second) :
    Parallel related c d first second := by
  cases parallel with
  | @matched value value' values more moreInside =>
      rw [← c.advanceBy_add count more, ← d.advanceBy_add count more]
      rw [Cursor.remainingCount_advanceBy] at moreInside
      exact .matched values (count + more) (by omega)
  | noMatch => exact .noMatch
  | unfinished => exact .unfinished

/-- Changes of the values that keep them related keep readings parallel. -/
theorem map (parallel : Parallel related c d first second) {f : α → β} {f' : α' → β'}
    (keeps : ∀ value value', related value value' → further (f value) (f' value')) :
    Parallel further c d (first.map f) (second.map f') := by
  cases parallel with
  | matched values count inside => exact .matched (keeps _ _ values) count inside
  | noMatch => exact .noMatch
  | unfinished => exact .unfinished

/-- Readings that go on in parallel after each match are parallel. -/
theorem bind (parallel : Parallel related c d first second)
    {next : α → Cursor ε → Outcome ε β} {next' : α' → Cursor ε → Outcome ε β'}
    (goOn : ∀ value value' count, related value value' → count ≤ c.remainingCount →
      Parallel further (c.advanceBy count) (d.advanceBy count)
        (next value (c.advanceBy count)) (next' value' (d.advanceBy count))) :
    Parallel further c d (first.bind next) (second.bind next') := by
  cases parallel with
  | matched values count inside =>
      exact after_steps inside (goOn _ _ count values inside)
  | noMatch => exact .noMatch
  | unfinished => exact .unfinished

/-- Readings with parallel alternatives are parallel. -/
theorem orElse (parallel : Parallel related c d first second)
    {alternative : Unit → Outcome ε α} {alternative' : Unit → Outcome ε α'}
    (fallback : Parallel related c d (alternative ()) (alternative' ())) :
    Parallel related c d (first.orElse alternative) (second.orElse alternative') := by
  cases parallel with
  | matched values count inside => exact .matched values count inside
  | noMatch => exact fallback
  | unfinished => exact .unfinished

end Parallel

end ParserCombinators.Outcome
