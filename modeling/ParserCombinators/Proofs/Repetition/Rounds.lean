import Mathlib.Order.Bounds.Defs
import Mathlib.Order.Nat
import Mathlib.Tactic.ByContra
import ParserCombinators.Grammar.Equations

/-! # Repetition, round by round

The rounds of a repetition start one where the other ended. The repetition comes to the values of
the first rounds, up to the least number of them at which it stops: at its bound, before a round
that is refused, or, without a bound, after a round that is not needed any more and has stood still.

* **`Repetition.rounds`** — the values of a number of rounds and the cursor after them.
* **`Repetition.StandsStill`** — a round ends at the position where it started.
* **`Repetition.Stops`** — the repetition may stop after a number of rounds.
* **`Repetition.between_eq_map_of_rounds`** — before it may stop, a repetition is its first rounds
  and the repetition behind them.
* **`Repetition.between_eq_of_isLeast`** — what a repetition comes to.
* **`Repetition.exists_stops`** — a repetition stops if its attempts end.
* **`Grammar.parse_repeated_rounds`** — the same of the repeated parser. -/

namespace ParserCombinators

open Outcome

variable {ε ν : Type} {τ : ν → Type} {α : Type}

namespace Repetition

/-- The values of the first `count` rounds and the cursor after them, or `none` if one of them does
not match. Each round is attempted where the one before it ended. -/
def rounds (attempt : Cursor ε → Outcome ε α) (c : Cursor ε) : (count : Nat) →
    Option (List α × Cursor ε)
  | 0 => some ([], c)
  | count + 1 =>
      (rounds attempt c count).bind fun (values, d) =>
        match attempt d with
        | .matched value e => some (values ++ [value], e)
        | .noMatch => none
        | .unfinished => none

/-- Of the rounds, the one of the given number, counted from one, ends at the position where it
started. -/
def StandsStill (attempt : Cursor ε → Outcome ε α) (c : Cursor ε) (number : Nat) : Prop :=
  ∃ before values d value e, number = before + 1 ∧ rounds attempt c before = some (values, d) ∧
    attempt d = .matched value e ∧ e.position = d.position

/-- After `count` rounds that match there is a reason for the repetition to stop: the bound, a
refusal of the next round or, without a bound and when enough values are there, a last round that
has stood still. -/
def Stops (attempt : Cursor ε → Outcome ε α) (least : Nat) (most : Option Nat) (c : Cursor ε)
    (count : Nat) : Prop :=
  ∃ values d, rounds attempt c count = some (values, d) ∧
    (most = some count ∨ attempt d = .noMatch ∨
      most = none ∧ least ≤ count ∧ StandsStill attempt c count)

variable {attempt : Cursor ε → Outcome ε α} {c : Cursor ε} {least : Nat} {most : Option Nat}

/-! ## Rounds -/

/-- One round more than a number of them is a round that matches where they ended. -/
theorem rounds_succ_iff {count : Nat} {values : List α} {e : Cursor ε} :
    rounds attempt c (count + 1) = some (values, e) ↔
      ∃ before d value, rounds attempt c count = some (before, d) ∧
        attempt d = .matched value e ∧ values = before ++ [value] := by
  rw [rounds, Option.bind_eq_some_iff]
  constructor
  · rintro ⟨⟨before, d⟩, passed, found⟩
    cases round : attempt d with
    | matched value rest =>
        simp only [round, Option.some_inj, Prod.mk.injEq] at found
        obtain ⟨rfl, rfl⟩ := found
        exact ⟨before, d, value, passed, round, rfl⟩
    | noMatch => simp [round] at found
    | unfinished => simp [round] at found
  · rintro ⟨before, d, value, passed, round, rfl⟩
    exact ⟨(before, d), passed, by simp only [round]⟩

/-- Every round yields one value. -/
theorem length_of_rounds {count : Nat} {values : List α} {d : Cursor ε}
    (passed : rounds attempt c count = some (values, d)) : values.length = count := by
  induction count generalizing values d with
  | zero =>
      cases passed
      rfl
  | succ count ih =>
      obtain ⟨before, middle, value, passed', -, rfl⟩ := rounds_succ_iff.1 passed
      rw [List.length_append, ih passed', List.length_singleton]

/-- Rounds lead to cursors that the start reaches. -/
theorem reaches_of_rounds (forward : MovesForward attempt c) {count : Nat} {values : List α}
    {d : Cursor ε} (passed : rounds attempt c count = some (values, d)) : c.Reaches d := by
  induction count generalizing values d with
  | zero =>
      cases passed
      exact .refl c
  | succ count ih =>
      obtain ⟨before, middle, value, passed', round, -⟩ := rounds_succ_iff.1 passed
      have reaches := ih passed'
      exact reaches.trans (forward middle reaches value d round)

/-- Fewer rounds match too. -/
theorem exists_rounds_of_le {count fewer : Nat} (le : fewer ≤ count)
    {passed : List α × Cursor ε} (found : rounds attempt c count = some passed) :
    ∃ passed', rounds attempt c fewer = some passed' := by
  induction le generalizing passed with
  | refl => exact ⟨passed, found⟩
  | step _ ih =>
      obtain ⟨before, d, value, found', -, -⟩ := rounds_succ_iff.1 found
      exact ih found'

/-- A round that stands still has matched at the very cursor where it ended. -/
theorem StandsStill.exists_round (forward : MovesForward attempt c) {number : Nat}
    (stood : StandsStill attempt c number) {values : List α} {d : Cursor ε}
    (passed : rounds attempt c number = some (values, d)) :
    ∃ before values' value, number = before + 1 ∧ values = values' ++ [value] ∧
      rounds attempt c before = some (values', d) ∧ attempt d = .matched value d := by
  obtain ⟨before, values', e, value, d', rfl, passed', round, stands⟩ := stood
  obtain ⟨_, _, _, again, round', rfl⟩ := rounds_succ_iff.1 passed
  cases passed'.symm.trans again
  cases round.symm.trans round'
  have reaches := forward e (reaches_of_rounds forward passed') value d round
  obtain rfl : d = e := reaches.eq_of_position_eq stands
  exact ⟨before, values', value, rfl, rfl, passed', round⟩

/-! ## Before the repetition stops -/

/-- Where a bounded repetition has not stopped, the bound is still ahead. -/
theorem lt_of_not_stops {limit count : Nat} {passed : List α × Cursor ε}
    (found : rounds attempt c count = some passed)
    (goesOn : ∀ fewer, fewer ≤ count → ¬ Stops attempt least (some limit) c fewer) :
    count < limit := by
  refine Nat.lt_of_not_le fun beyond => ?_
  obtain ⟨⟨values, d⟩, found'⟩ := exists_rounds_of_le beyond found
  exact goesOn limit beyond ⟨values, d, found', Or.inl rfl⟩

/-- **Before it may stop, a repetition is its first rounds and the repetition behind them**, for
which as many values less are needed and allowed. -/
theorem between_eq_map_of_rounds (forward : MovesForward attempt c) {count : Nat} {values : List α}
    {d : Cursor ε} (passed : rounds attempt c count = some (values, d))
    (goesOn : ∀ fewer, fewer < count → ¬ Stops attempt least most c fewer)
    (moves : ¬ (most = none ∧ least ≤ count ∧ StandsStill attempt c count)) :
    between attempt least most c =
      (between attempt (least - count) (most.map (· - count)) d).map (values ++ ·) := by
  induction count generalizing values d with
  | zero =>
      cases passed
      cases most with
      | none => exact (map_id _).symm
      | some limit => exact (map_id _).symm
  | succ count ih =>
      obtain ⟨before, middle, value, passed', round, rfl⟩ := rounds_succ_iff.1 passed
      have reaches := forward middle (reaches_of_rounds forward passed') value d round
      have goesOn' := goesOn count (Nat.lt_succ_self count)
      rw [ih passed' (fun fewer lt => goesOn fewer (Nat.lt_succ_of_lt lt)) fun stood =>
        goesOn' ⟨before, middle, passed', Or.inr (Or.inr stood)⟩]
      -- one round at `middle`
      have oneRound : between attempt (least - count) (most.map (· - count)) middle =
          (between attempt (least - (count + 1)) (most.map (· - (count + 1))) d).map
            (value :: ·) := by
        cases most with
        | none =>
            have further : ¬ (d.position = middle.position ∧ least - count ≤ 1) := by
              rintro ⟨stands, enough⟩
              exact moves
                ⟨rfl, by omega, count, before, middle, value, d, rfl, passed', round, stands⟩
            exact (unbounded_of_matched round reaches).trans (if_neg further)
        | some limit =>
            have ahead : count < limit :=
              lt_of_not_stops passed' fun fewer le => goesOn fewer (Nat.lt_succ_of_le le)
            obtain ⟨further, rfl⟩ : ∃ further, limit = count + 1 + further :=
              Nat.exists_eq_add_of_le ahead
            have here : count + 1 + further - count = further + 1 := by omega
            have behind : count + 1 + further - (count + 1) = further := by omega
            simp only [between, Option.map_some, here, behind, upTo, round, Nat.sub_sub]
      rw [oneRound, map_map]
      simp only [Function.comp_def, List.append_assoc, List.singleton_append]

/-- Without a bound, a repetition that has not stopped has read an element in every round that was
not needed, and in the last one that was. -/
theorem count_add_remainingCount_le (forward : MovesForward attempt c) {count : Nat}
    {values : List α} {d : Cursor ε} (passed : rounds attempt c count = some (values, d))
    (goesOn : ∀ fewer, fewer ≤ count → ¬ Stops attempt least none c fewer) :
    count + d.remainingCount ≤ c.remainingCount + (least - 1) := by
  induction count generalizing values d with
  | zero =>
      cases passed
      omega
  | succ count ih =>
      obtain ⟨before, middle, value, passed', round, -⟩ := rounds_succ_iff.1 passed
      have reached := reaches_of_rounds forward passed'
      have reaches := forward middle reached value d round
      have sofar := ih passed' fun fewer le => goesOn fewer (Nat.le_succ_of_le le)
      by_cases enough : least ≤ count + 1
      · -- the round is the last one needed or a later one, so it has moved on
        have moved : d.position ≠ middle.position := fun stands =>
          goesOn (count + 1) (Nat.le_refl _) ⟨_, d, passed, Or.inr (Or.inr
            ⟨rfl, enough, count, before, middle, value, d, rfl, passed', round, stands⟩)⟩
        have fewer := reaches.remainingCount_lt moved
        omega
      · have notMore := (reached.trans reaches).remainingCount_le
        omega

/-! ## Where the repetition stops -/

/-- Where the next round is not allowed or refused, a repetition has no further round. -/
theorem between_eq_stop {d : Cursor ε} (last : most = some 0 ∨ attempt d = .noMatch) :
    between attempt least most d = stop least d := by
  rcases last with rfl | refused
  · rfl
  · cases most with
    | none => rw [between, unbounded, refused]
    | some limit =>
        cases limit with
        | zero => rfl
        | succ limit => rw [between, upTo, refused]

/-- **What a repetition comes to**: the values of its rounds up to the first at which it stops, or a
refusal if these are fewer than needed. -/
theorem between_eq_of_isLeast (forward : MovesForward attempt c) {count : Nat}
    (first : IsLeast {k | Stops attempt least most c k} count) {values : List α} {d : Cursor ε}
    (passed : rounds attempt c count = some (values, d)) :
    between attempt least most c = if count < least then .noMatch else .matched values d := by
  have goesOn : ∀ fewer, fewer < count → ¬ Stops attempt least most c fewer :=
    fun fewer lt stops => Nat.not_le_of_lt lt (first.2 stops)
  by_cases stood : most = none ∧ least ≤ count ∧ StandsStill attempt c count
  · -- the round before last is followed by one that is the last
    obtain ⟨rfl, enough, stood⟩ := stood
    obtain ⟨before, values', value, rfl, rfl, passed', round⟩ := stood.exists_round forward passed
    have goesOn' := goesOn before (Nat.lt_succ_self before)
    rw [between_eq_map_of_rounds forward passed'
      (fun fewer lt => goesOn fewer (Nat.lt_succ_of_lt lt))
      fun stood => goesOn' ⟨values', d, passed', Or.inr (Or.inr stood)⟩]
    have last : between attempt (least - before) none d = .matched [value] d :=
      (unbounded_of_matched round (.refl d)).trans (if_pos ⟨rfl, by omega⟩)
    rw [Option.map_none, last, map_matched, if_neg (Nat.not_lt_of_le enough)]
  · obtain ⟨values', d', passed', reason⟩ := first.1
    cases passed.symm.trans passed'
    have last : most.map (· - count) = some 0 ∨ attempt d = .noMatch := by
      rcases reason with rfl | refused | stood'
      · exact Or.inl (by rw [Option.map_some, Nat.sub_self])
      · exact Or.inr refused
      · exact absurd stood' stood
    rw [between_eq_map_of_rounds forward passed goesOn stood, between_eq_stop last, stop]
    by_cases few : count < least
    · rw [if_pos few, if_neg (by omega), map_noMatch]
    · rw [if_neg few, if_pos (by omega), map_matched, List.append_nil]

/-- A repetition whose attempts end stops: without a bound, the rounds that move on use up what is
left to read. -/
theorem exists_stops (forward : MovesForward attempt c)
    (ends : ∀ count values d, rounds attempt c count = some (values, d) →
      (∀ fewer, fewer ≤ count → ¬ Stops attempt least most c fewer) → attempt d ≠ .unfinished) :
    ∃ count, Stops attempt least most c count := by
  by_contra never
  have goesOn : ∀ count, ¬ Stops attempt least most c count :=
    fun count stops => never ⟨count, stops⟩
  have all : ∀ count, ∃ passed, rounds attempt c count = some passed := by
    intro count
    induction count with
    | zero => exact ⟨([], c), rfl⟩
    | succ count ih =>
        obtain ⟨⟨values, d⟩, passed⟩ := ih
        cases round : attempt d with
        | matched value e =>
            exact ⟨(values ++ [value], e), rounds_succ_iff.2 ⟨values, d, value, passed, round, rfl⟩⟩
        | noMatch => exact absurd ⟨values, d, passed, Or.inr (Or.inl round)⟩ (goesOn count)
        | unfinished => exact absurd round (ends count values d passed fun fewer _ => goesOn fewer)
  cases most with
  | none =>
      obtain ⟨⟨values, d⟩, passed⟩ := all (c.remainingCount + (least - 1) + 1)
      have atMost := count_add_remainingCount_le forward passed fun fewer _ => goesOn fewer
      omega
  | some limit =>
      obtain ⟨passed, found⟩ := all limit
      exact Nat.lt_irrefl limit (lt_of_not_stops found fun fewer _ => goesOn fewer)

/-- If a repetition may stop, there is a first number of rounds after which it does. -/
theorem exists_isLeast_of_exists (stops : ∃ count, Stops attempt least most c count) :
    ∃ count, IsLeast {k | Stops attempt least most c k} count := by
  classical
  exact ⟨Nat.find stops, Nat.find_spec stops, fun count stops' => Nat.find_min' stops stops'⟩

/-- An attempt that does not end keeps a repetition from ending that allows for it. -/
theorem between_eq_unfinished {d : Cursor ε} (allowed : most ≠ some 0)
    (isOpen : attempt d = .unfinished) : between attempt least most d = .unfinished := by
  cases most with
  | none => rw [between, unbounded, isOpen]
  | some limit =>
      cases limit with
      | zero => exact absurd rfl allowed
      | succ limit => rw [between, upTo, isOpen]

/-- **A repetition ends exactly when it stops** after some number of rounds. -/
theorem between_ne_unfinished_iff (forward : MovesForward attempt c) :
    between attempt least most c ≠ .unfinished ↔ ∃ count, Stops attempt least most c count := by
  constructor
  · intro ends
    refine exists_stops forward fun count values d passed goesOn isOpen => ends ?_
    have allowed : most.map (· - count) ≠ some 0 := by
      cases most with
      | none => exact (Option.some_ne_none 0).symm
      | some limit =>
          have ahead := lt_of_not_stops passed goesOn
          rw [Option.map_some, ne_eq, Option.some_inj]
          omega
    rw [between_eq_map_of_rounds forward passed (fun fewer lt => goesOn fewer (Nat.le_of_lt lt))
      fun stood => goesOn count (Nat.le_refl count) ⟨values, d, passed, Or.inr (Or.inr stood)⟩,
      between_eq_unfinished allowed isOpen, map_unfinished]
  · intro stops
    obtain ⟨count, first⟩ := exists_isLeast_of_exists stops
    obtain ⟨values, d, passed, -⟩ := first.1
    rw [between_eq_of_isLeast forward first passed]
    by_cases few : count < least
    · rw [if_pos few]
      exact noMatch_ne_unfinished
    · rw [if_neg few]
      exact matched_ne_unfinished values d

/-- The values of a repetition that matches are those of its rounds up to the first at which it
stops, and are as many as needed. -/
theorem exists_rounds_of_matched (forward : MovesForward attempt c) {values : List α}
    {rest : Cursor ε} (found : between attempt least most c = .matched values rest) :
    ∃ count, IsLeast {k | Stops attempt least most c k} count ∧ least ≤ count ∧
      rounds attempt c count = some (values, rest) := by
  have ends : between attempt least most c ≠ .unfinished := by
    rw [found]
    exact matched_ne_unfinished values rest
  obtain ⟨count, first⟩ := exists_isLeast_of_exists ((between_ne_unfinished_iff forward).1 ends)
  obtain ⟨values', rest', passed, -⟩ := first.1
  rw [between_eq_of_isLeast forward first passed] at found
  by_cases few : count < least
  · rw [if_pos few] at found
    cases found
  · rw [if_neg few] at found
    cases found
    exact ⟨count, first, Nat.le_of_not_lt few, passed⟩

/-- With a bound below the number needed, a repetition never matches. -/
theorem between_ne_matched_of_lt (forward : MovesForward attempt c) {limit : Nat}
    (crossed : limit < least) (values : List α) (rest : Cursor ε) :
    between attempt least (some limit) c ≠ .matched values rest := by
  intro found
  obtain ⟨count, first, enough, passed⟩ := exists_rounds_of_matched forward found
  -- the bound is reached on the way
  obtain ⟨⟨values', d⟩, atLimit⟩ :=
    exists_rounds_of_le (Nat.le_trans (Nat.le_of_lt crossed) enough) passed
  have stopped : count ≤ limit := first.2 ⟨values', d, atLimit, Or.inl rfl⟩
  omega

/-- Without a bound, the values are no more than the elements that were left and those needed, of
which there is counted at least one. -/
theorem length_le_of_matched (forward : MovesForward attempt c) {values : List α} {rest : Cursor ε}
    (found : between attempt least none c = .matched values rest) :
    values.length ≤ c.remainingCount + max 1 least := by
  obtain ⟨count, first, -, passed⟩ := exists_rounds_of_matched forward found
  rw [length_of_rounds passed]
  cases count with
  | zero => omega
  | succ count =>
      -- the round before the last one did not stop the repetition
      obtain ⟨⟨before, d⟩, passed'⟩ := exists_rounds_of_le (Nat.le_succ count) passed
      have atMost := count_add_remainingCount_le forward passed' fun fewer le stops =>
        Nat.not_succ_le_self count (Nat.le_trans (first.2 stops) le)
      omega

/-! ## Rounds that stand still -/

/-- A round that stands still is repeated for as long as values are needed, and at least once. -/
theorem unbounded_of_stands {d : Cursor ε} {value : α} (round : attempt d = .matched value d)
    (least : Nat) :
    unbounded attempt least d = .matched (List.replicate (max 1 least) value) d := by
  induction least with
  | zero => exact (unbounded_of_matched round (.refl d)).trans (if_pos ⟨rfl, Nat.zero_le 1⟩)
  | succ least ih =>
      rw [unbounded_of_matched round (.refl d)]
      by_cases last : least = 0
      · subst last
        exact if_pos ⟨rfl, Nat.le_refl 1⟩
      · have copies : max 1 (least + 1) = max 1 least + 1 := by omega
        rw [if_neg fun stands => last (Nat.le_zero.1 (Nat.le_of_succ_le_succ stands.2)),
          Nat.add_sub_cancel, ih, map_matched, copies, List.replicate_succ]

/-- **Once a round stands still, it is copied as often as values are needed.** -/
theorem unbounded_of_isLeast_standsStill (forward : MovesForward attempt c) {number : Nat}
    (first : IsLeast {k | StandsStill attempt c k} number) {values : List α} {value : α}
    {e : Cursor ε} (passed : rounds attempt c number = some (values ++ [value], e)) :
    unbounded attempt least c =
      .matched (values ++ List.replicate (max 1 (least + 1 - number)) value) e := by
  obtain ⟨before, values', value', rfl, same, passed', round⟩ := first.1.exists_round forward passed
  obtain ⟨rfl, rfl⟩ : values = values' ∧ value = value' := by simpa using same
  -- up to this round every round has matched and moved on
  have goesOn : ∀ fewer, fewer ≤ before → ¬ Stops attempt least none c fewer := by
    rintro fewer le ⟨_, d', passed'', unlimited | refused | ⟨-, -, stood⟩⟩
    · cases unlimited
    · obtain ⟨_, next⟩ := exists_rounds_of_le (Nat.succ_le_succ le) passed
      obtain ⟨_, _, _, again', round'', -⟩ := rounds_succ_iff.1 next
      cases passed''.symm.trans again'
      rw [refused] at round''
      cases round''
    · exact Nat.not_succ_le_self before (Nat.le_trans (first.2 stood) le)
  have split : unbounded attempt least c =
      (unbounded attempt (least - before) e).map (values ++ ·) :=
    between_eq_map_of_rounds forward passed' (fun fewer lt => goesOn fewer (Nat.le_of_lt lt))
      fun stood => goesOn before (Nat.le_refl before) ⟨values, e, passed', Or.inr (Or.inr stood)⟩
  have copies : least + 1 - (before + 1) = least - before := Nat.add_sub_add_right least 1 before
  rw [copies]
  calc unbounded attempt least c
      = (unbounded attempt (least - before) e).map (values ++ ·) := split
    _ = .matched (values ++ List.replicate (max 1 (least - before)) value) e := by
        rw [unbounded_of_stands round, map_matched]

end Repetition

namespace Grammar

open Repetition

variable [DecidableEq ε]

/-- **The exact meaning of bounded repetition.** The repeated parser is attempted in rounds, and the
first number of rounds after which it may stop decides: the outcome is a refusal if that number is
less than needed, and otherwise the values of so many rounds and the cursor after them. There is
such a number exactly if the repetition ends, which it does if all its attempts do. A bound below
the number needed leaves nothing that matches. Without a bound, the first round that stands still is
copied as often as values are still needed, and at least once, and there are no more values than
elements left at the start and values needed, of which at least one is counted. -/
theorem parse_repeated_rounds (g : Grammar ε τ) (p : Parser ε τ α) (least : Nat) (most : Option Nat)
    (c : Cursor ε) :
    ((∀ count values d, rounds (g.parse p) c count = some (values, d) →
        g.parse p d ≠ .unfinished) →
      ∃ count, IsLeast {k | Stops (g.parse p) least most c k} count) ∧
    (g.parse (p.repeated least most) c ≠ .unfinished ↔
      ∃ count, Stops (g.parse p) least most c count) ∧
    (∀ count values d, IsLeast {k | Stops (g.parse p) least most c k} count →
      rounds (g.parse p) c count = some (values, d) →
        values.length = count ∧
        g.parse (p.repeated least most) c =
          if count < least then .noMatch else .matched values d) ∧
    (∀ limit values rest, limit < least →
      g.parse (p.repeated least (some limit)) c ≠ .matched values rest) ∧
    (∀ number values value e, IsLeast {k | StandsStill (g.parse p) c k} number →
      rounds (g.parse p) c number = some (values ++ [value], e) →
        g.parse (p.repeated least none) c =
          .matched (values ++ List.replicate (max 1 (least + 1 - number)) value) e) ∧
    ∀ values rest, g.parse (p.repeated least none) c = .matched values rest →
      values.length ≤ c.remainingCount + max 1 least := by
  have forward : MovesForward (g.parse p) c := fun d _ => g.parse_leadsOnFrom p d
  simp only [parse_repeated]
  refine ⟨fun ends => ?_, between_ne_unfinished_iff forward, fun count values d first passed => ?_,
    fun limit values rest crossed => between_ne_matched_of_lt forward crossed values rest,
    fun number values value e first passed => ?_, fun values rest => length_le_of_matched forward⟩
  · exact exists_isLeast_of_exists
      (exists_stops forward fun count values d passed _ => ends count values d passed)
  · exact ⟨length_of_rounds passed, between_eq_of_isLeast forward first passed⟩
  · exact unbounded_of_isLeast_standsStill forward first passed

/-- In `ab` an optional `a` is read three times: the second round stands still and is copied. With a
bound of one, one round is read, and if two are needed then nothing matches. -/
theorem parse_repeated_rounds_optional :
    let p := (Parser.satisfy (ε := Char) (· == 'a')).optional
    let attempt := (ruleless (τ := fun _ => Nat)).parse p
    let start := Cursor.valid #['a', 'b'] 0
    let behind := Cursor.valid #['a', 'b'] 1
    (IsLeast {k | StandsStill attempt start k} 2 ∧
      rounds attempt start 2 = some ([some 'a', none], behind) ∧
      ruleless.parse (τ := fun _ => Nat) (p.repeated 3 none) start =
        .matched [some 'a', none, none] behind) ∧
    (∃ count, IsLeast {k | Stops attempt 3 none start k} count) ∧
    (IsLeast {k | Stops attempt 0 (some 1) start k} 1 ∧
      ruleless.parse (τ := fun _ => Nat) (p.repeated 0 (some 1)) start =
        .matched [some 'a'] behind) ∧
    ∀ values rest, ruleless.parse (τ := fun _ => Nat) (p.repeated 2 (some 1)) start ≠
      .matched values rest := by
  intro p attempt start behind
  have round : attempt start = .matched (some 'a') behind := by decide
  have passed : rounds attempt start 2 = some ([some 'a', none], behind) := by decide
  have stood : IsLeast {k | StandsStill attempt start k} 2 := by
    refine ⟨⟨1, [some 'a'], behind, none, behind, rfl, by decide, by decide, rfl⟩, ?_⟩
    rintro number ⟨before, values, d, value, e, rfl, passed', round', stands⟩
    refine Nat.succ_le_succ (Nat.one_le_iff_ne_zero.2 ?_)
    -- the first round moves on
    rintro rfl
    cases passed'
    cases round.symm.trans round'
    exact absurd stands (by decide)
  have bounded : IsLeast {k | Stops attempt 0 (some 1) start k} 1 := by
    refine ⟨⟨[some 'a'], behind, by decide, Or.inl rfl⟩, ?_⟩
    rintro number ⟨values, d, passed', reason⟩
    refine Nat.one_le_iff_ne_zero.2 ?_
    rintro rfl
    cases passed'
    rcases reason with limit | refused | ⟨unlimited, -⟩
    · cases limit
    · cases round.symm.trans refused
    · cases unlimited
  have ends : ∀ d, attempt d ≠ .unfinished := by
    intro d
    simp only [attempt, p, parse_optional, parse_satisfy]
    refine orElse_ne_unfinished (fun isOpen => ?_) (matched_ne_unfinished none d)
    rw [map_eq_unfinished_iff, Parser.readElement] at isOpen
    split at isOpen
    · split at isOpen <;> cases isOpen
    · cases isOpen
  refine ⟨⟨stood, passed, ?_⟩, ?_, ⟨bounded, ?_⟩, ?_⟩
  · exact (ruleless.parse_repeated_rounds p 3 none start).2.2.2.2.1 2 [some 'a'] none behind stood
      passed
  · exact (ruleless.parse_repeated_rounds p 3 none start).1 fun _ _ d _ => ends d
  · exact ((ruleless.parse_repeated_rounds p 0 (some 1) start).2.2.1 1 [some 'a'] behind bounded
      (by decide)).2
  · exact fun values rest =>
      (ruleless.parse_repeated_rounds p 2 none start).2.2.2.1 1 values rest (by decide)

end Grammar

end ParserCombinators
