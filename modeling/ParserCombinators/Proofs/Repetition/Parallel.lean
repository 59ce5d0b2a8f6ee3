import Mathlib.Data.List.Forall2
import ParserCombinators.Proofs.Outcome.Parallel
import ParserCombinators.Repetition.Lemmas

/-! # Parallel repetition

Attempts that run in parallel make repetitions that run in parallel: the rounds go side by side, so
each exit of one loop is taken by the other in the same round. The lists that the loops yield are
related value by value. -/

namespace ParserCombinators.Repetition

open Outcome

variable {ε α α' β β' : Type} {related : α → α' → Prop} {c d : Cursor ε}

/-- The two attempts run in parallel after every number of steps from `c` and from `d`, and as many
steps can be taken from one as from the other. -/
structure ParallelFrom (related : α → α' → Prop) (attempt : Cursor ε → Outcome ε α)
    (attempt' : Cursor ε → Outcome ε α') (c d : Cursor ε) : Prop where
  /-- As many elements are left at one cursor as at the other. -/
  sameCount : c.remainingCount = d.remainingCount
  /-- After the same number of steps the attempts are parallel. -/
  afterSteps : ∀ count, count ≤ c.remainingCount →
    Parallel related (c.advanceBy count) (d.advanceBy count)
      (attempt (c.advanceBy count)) (attempt' (d.advanceBy count))

namespace ParallelFrom

variable {attempt : Cursor ε → Outcome ε α} {attempt' : Cursor ε → Outcome ε α'}

/-- Attempts that are parallel from a start are parallel there. -/
theorem here (parallel : ParallelFrom related attempt attempt' c d) :
    Parallel related c d (attempt c) (attempt' d) :=
  parallel.afterSteps 0 (Nat.zero_le _)

/-- Attempts that are parallel from a start are parallel from what it reaches. -/
theorem of_steps (parallel : ParallelFrom related attempt attempt' c d) {count : Nat}
    (inside : count ≤ c.remainingCount) :
    ParallelFrom related attempt attempt' (c.advanceBy count) (d.advanceBy count) where
  sameCount := by
    rw [Cursor.remainingCount_advanceBy, Cursor.remainingCount_advanceBy, parallel.sameCount]
  afterSteps := by
    intro further furtherInside
    rw [Cursor.remainingCount_advanceBy] at furtherInside
    rw [← c.advanceBy_add, ← d.advanceBy_add]
    exact parallel.afterSteps (count + further) (by omega)

/-- An attempt that runs in parallel wherever the same content is left does so from such cursors. -/
theorem of_remaining_eq {related : α → α → Prop} (same : c.remaining = d.remaining)
    (parallel : ∀ {c d : Cursor ε}, c.remaining = d.remaining →
      Parallel related c d (attempt c) (attempt d)) :
    ParallelFrom related attempt attempt c d where
  sameCount := Cursor.remainingCount_eq_of_remaining_eq same
  afterSteps := fun count _ => parallel (Cursor.remaining_advanceBy_congr same count)

/-- A number of steps stands still in both readings or in neither. -/
theorem stands_iff (parallel : ParallelFrom related attempt attempt' c d) {count : Nat}
    (inside : count ≤ c.remainingCount) :
    (c.advanceBy count).position = c.position ↔ (d.advanceBy count).position = d.position := by
  have inside' : count ≤ d.remainingCount := parallel.sameCount ▸ inside
  rw [c.position_advanceBy inside, d.position_advanceBy inside']
  omega

end ParallelFrom

/-- Stopping is parallel. -/
theorem stop_parallel (least : Nat) (c d : Cursor ε) :
    Parallel (List.Forall₂ related) c d (stop least c) (stop least d) := by
  unfold stop
  split
  · exact .stand .nil c d
  · exact .noMatch

/-- A parallel round, followed by parallel repetitions, is parallel. -/
theorem round_parallel {value : α} {value' : α'} (values : related value value') {count : Nat}
    (inside : count ≤ c.remainingCount) {tail : Outcome ε (List α)} {tail' : Outcome ε (List α')}
    (parallel : Parallel (List.Forall₂ related) (c.advanceBy count) (d.advanceBy count) tail tail') :
    Parallel (List.Forall₂ related) c d (tail.map (value :: ·)) (tail'.map (value' :: ·)) :=
  (parallel.after_steps inside).map fun _ _ => .cons values

/-- Bounded repetitions of parallel attempts are parallel. -/
theorem upTo_parallel {attempt : Cursor ε → Outcome ε α} {attempt' : Cursor ε → Outcome ε α'}
    (limit least : Nat) (parallel : ParallelFrom related attempt attempt' c d) :
    Parallel (List.Forall₂ related) c d (upTo attempt limit least c)
      (upTo attempt' limit least d) := by
  induction limit generalizing least c d with
  | zero => exact stop_parallel least c d
  | succ limit ih =>
      have here := parallel.here
      rw [upTo, upTo]
      cases round : attempt c with
      | matched value rest =>
          rw [round] at here
          obtain ⟨value', count, values, inside, rfl, round'⟩ := here.of_matched
          rw [round']
          exact round_parallel values inside (ih _ (parallel.of_steps inside))
      | noMatch =>
          rw [round] at here
          rw [here.of_noMatch]
          exact stop_parallel least c d
      | unfinished =>
          rw [round] at here
          rw [here.of_unfinished]
          exact .unfinished

/-- Unbounded repetitions of parallel attempts are parallel. The two loops compare positions of their
own; they agree since both have passed the same number of elements in the round. -/
theorem unbounded_parallel {attempt : Cursor ε → Outcome ε α}
    {attempt' : Cursor ε → Outcome ε α'} (least : Nat)
    (parallel : ParallelFrom related attempt attempt' c d) :
    Parallel (List.Forall₂ related) c d (unbounded attempt least c)
      (unbounded attempt' least d) := by
  have here := parallel.here
  induction least, c using unbounded.induct attempt generalizing d with
  | case1 least c value rest round last =>
      rw [round] at here
      obtain ⟨value', count, values, inside, rfl, round'⟩ := here.of_matched
      have last' := (parallel.stands_iff inside).1 last.1
      rw [unbounded_of_matched round ⟨count, inside, rfl⟩, if_pos last,
        unbounded_of_matched round' ⟨count, parallel.sameCount ▸ inside, rfl⟩, if_pos ⟨last', last.2⟩]
      exact .matched (.cons values .nil) count inside
  | case2 least c value rest round further _ ih =>
      rw [round] at here
      obtain ⟨value', count, values, inside, rfl, round'⟩ := here.of_matched
      have further' : ¬ ((d.advanceBy count).position = d.position ∧ least ≤ 1) :=
        fun last => further (last.imp_left (parallel.stands_iff inside).2)
      rw [unbounded_of_matched round ⟨count, inside, rfl⟩, if_neg further,
        unbounded_of_matched round' ⟨count, parallel.sameCount ▸ inside, rfl⟩, if_neg further']
      have parallelAfter := parallel.of_steps inside
      exact round_parallel values inside (ih parallelAfter parallelAfter.here)
  | case3 least c value rest round further back =>
      rw [round] at here
      obtain ⟨value', count, values, inside, rfl, round'⟩ := here.of_matched
      exact absurd (needed_or_advances ⟨count, inside, rfl⟩ further) back
  | case4 least c round =>
      rw [round] at here
      rw [unbounded, unbounded, round, here.of_noMatch]
      exact stop_parallel least c d
  | case5 least c round =>
      rw [round] at here
      rw [unbounded, unbounded, round, here.of_unfinished]
      exact .unfinished

/-- Greedy repetitions of parallel attempts are parallel. -/
theorem between_parallel {attempt : Cursor ε → Outcome ε α} {attempt' : Cursor ε → Outcome ε α'}
    (least : Nat) (most : Option Nat)
    (parallel : ParallelFrom related attempt attempt' c d) :
    Parallel (List.Forall₂ related) c d (between attempt least most c)
      (between attempt' least most d) := by
  cases most with
  | some limit => exact upTo_parallel limit least parallel
  | none => exact unbounded_parallel least parallel

/-- Repetitions in advancing rounds of parallel attempts are parallel. -/
theorem whileAdvancing_parallel {attempt : Cursor ε → Outcome ε α}
    {attempt' : Cursor ε → Outcome ε α'}
    (parallel : ParallelFrom related attempt attempt' c d) :
    Parallel (List.Forall₂ related) c d (whileAdvancing attempt c)
      (whileAdvancing attempt' d) := by
  have here := parallel.here
  induction c using whileAdvancing.induct attempt generalizing d with
  | case1 c value rest round advances ih =>
      rw [round] at here
      obtain ⟨value', count, values, inside, rfl, round'⟩ := here.of_matched
      have parallelAfter := parallel.of_steps inside
      have advances' := advances
      rw [parallelAfter.sameCount, parallel.sameCount] at advances'
      rw [whileAdvancing, whileAdvancing, round, round']
      simp only [if_pos advances, if_pos advances']
      exact round_parallel values inside (ih parallelAfter parallelAfter.here)
  | case2 c value rest round stands =>
      rw [round] at here
      obtain ⟨value', count, values, inside, rfl, round'⟩ := here.of_matched
      have stands' := stands
      rw [(parallel.of_steps inside).sameCount, parallel.sameCount] at stands'
      rw [whileAdvancing, whileAdvancing, round, round']
      simp only [if_neg stands, if_neg stands']
      exact .unfinished
  | case3 c round =>
      rw [round] at here
      rw [whileAdvancing, whileAdvancing, round, here.of_noMatch]
      exact .stand .nil c d
  | case4 c round =>
      rw [round] at here
      rw [whileAdvancing, whileAdvancing, round, here.of_unfinished]
      exact .unfinished

/-- Separated lists of parallel items with parallel separators are parallel. -/
theorem separated_parallel {relatedSeparators : β → β' → Prop} {item : Cursor ε → Outcome ε α}
    {item' : Cursor ε → Outcome ε α'} {separator : Cursor ε → Outcome ε β}
    {separator' : Cursor ε → Outcome ε β'}
    (items : ParallelFrom related item item' c d)
    (separators : ParallelFrom relatedSeparators separator separator' c d) :
    Parallel (List.Forall₂ related) c d (separated item separator c)
      (separated item' separator' d) := by
  refine items.here.bind fun first first' count firsts inside => ?_
  have itemsAfter := items.of_steps inside
  have separatorsAfter := separators.of_steps inside
  have rounds : ParallelFrom related (fun before => (separator before).bind fun _ after => item after)
      (fun before => (separator' before).bind fun _ after => item' after)
      (c.advanceBy count) (d.advanceBy count) :=
    ⟨itemsAfter.sameCount, fun before beforeInside =>
      (separatorsAfter.afterSteps before beforeInside).bind fun _ _ after _ afterInside =>
        (itemsAfter.of_steps beforeInside).afterSteps after afterInside⟩
  exact (whileAdvancing_parallel rounds).map fun _ _ => .cons firsts

end ParserCombinators.Repetition
