import ParserCombinators.Repetition.Lemmas

/-! # Repetition without a bound, in terms of its first round

* **`Repetition.unbounded_ne_noMatch`** — where no round is needed, nothing is refused.
* **`Repetition.unbounded_zero_eq`** — any number of rounds is at least one round or none.
* **`Repetition.unbounded_one_eq`** — at least one round is a round and then any number of rounds, if
  the round moves on.
* **`Repetition.whileAdvancing_ne_noMatch`**, **`Repetition.whileAdvancing_eq_unbounded`** —
  repetition in advancing rounds refuses nothing, and where every round moves on it is any number of
  rounds. -/

namespace ParserCombinators.Repetition

open Outcome

variable {ε α : Type} {attempt : Cursor ε → Outcome ε α}

/-- Unbounded repetition refuses nothing where no round is needed. -/
theorem unbounded_ne_noMatch {least : Nat} (noneNeeded : least = 0) (c : Cursor ε) :
    unbounded attempt least c ≠ .noMatch := by
  induction least, c using unbounded.induct attempt with
  | case1 least c value rest round last =>
      rw [unbounded, round]
      simp [if_pos last]
  | case2 least c value rest round further guard ih =>
      have tail := ih (by omega)
      rw [unbounded, round]
      simpa only [if_neg further, if_pos guard, ne_eq, map_eq_noMatch_iff] using tail
  | case3 least c value rest round further back =>
      rw [unbounded, round]
      simp [if_neg further, if_neg back]
  | case4 least c round =>
      rw [unbounded, round, stop]
      simp [noneNeeded]
  | case5 least c round =>
      rw [unbounded, round]
      simp

/-- **Any number of rounds is at least one round or none**, also if a round stands still: such a
round is the last one in either form. -/
theorem unbounded_zero_eq {c : Cursor ε} (forward : MovesForward attempt c) :
    unbounded attempt 0 c = (unbounded attempt 1 c).orElse fun _ => .matched [] c := by
  cases round : attempt c with
  | matched value rest =>
      have reaches := forward c (.refl c) value rest round
      -- with one round done, nothing is needed any more in either form
      have same : unbounded attempt 0 c = unbounded attempt 1 c := by
        simp only [unbounded_of_matched round reaches, Nat.zero_le, Nat.le_refl, Nat.sub_self,
          Nat.zero_sub]
      rw [← same, orElse_eq_self (unbounded_ne_noMatch rfl c)]
  | noMatch =>
      rw [unbounded, unbounded, round]
      rfl
  | unfinished =>
      rw [unbounded, unbounded, round]
      rfl

/-- A round that moves on is followed by the repetition behind it. -/
theorem unbounded_zero_of_matched {c rest : Cursor ε} {value : α}
    (round : attempt c = .matched value rest) (reaches : c.Reaches rest)
    (moved : rest.position ≠ c.position) :
    unbounded attempt 0 c = (unbounded attempt 0 rest).map (value :: ·) := by
  rw [unbounded_of_matched round reaches, if_neg fun stands => moved stands.1]

/-- **At least one round is a round and then any number of rounds**, if the round moves on. A round
that stands still would be the only one. -/
theorem unbounded_one_eq {c : Cursor ε} (forward : MovesForward attempt c)
    (advances : ∀ value rest, attempt c = .matched value rest → rest.position ≠ c.position) :
    unbounded attempt 1 c =
      (attempt c).bind fun value rest => (unbounded attempt 0 rest).map (value :: ·) := by
  cases round : attempt c with
  | matched value rest =>
      have reaches := forward c (.refl c) value rest round
      have moved := advances value rest round
      rw [unbounded_of_matched round reaches, if_neg fun stands => moved stands.1]
      rfl
  | noMatch =>
      rw [unbounded, round]
      rfl
  | unfinished =>
      rw [unbounded, round]
      rfl

/-- Repetition in advancing rounds refuses nothing. -/
theorem whileAdvancing_ne_noMatch (c : Cursor ε) : whileAdvancing attempt c ≠ .noMatch := by
  induction c using whileAdvancing.induct attempt with
  | case1 c value rest round advances ih =>
      rw [whileAdvancing, round]
      simpa only [if_pos advances, ne_eq, map_eq_noMatch_iff] using ih
  | case2 c value rest round stands =>
      rw [whileAdvancing, round]
      simp [if_neg stands]
  | case3 c round =>
      rw [whileAdvancing, round]
      simp
  | case4 c round =>
      rw [whileAdvancing, round]
      simp

/-- **Repetition in advancing rounds is any number of rounds**, if every round moves on. A round that
stood still would end the one and go on forever in the other. -/
theorem whileAdvancing_eq_unbounded {c : Cursor ε} (forward : MovesForward attempt c)
    (advances : ∀ d value rest, attempt d = .matched value rest → rest.position ≠ d.position) :
    whileAdvancing attempt c = unbounded attempt 0 c := by
  induction c using whileAdvancing.induct attempt with
  | case1 c value rest round fewer ih =>
      have reaches := forward c (.refl c) value rest round
      rw [unbounded_zero_of_matched round reaches (advances c value rest round), whileAdvancing,
        round]
      simp only [if_pos fewer, ih (forward.of_reaches reaches)]
  | case2 c value rest round stands =>
      -- this is where the two loops would part
      have reaches := forward c (.refl c) value rest round
      exact absurd (reaches.remainingCount_lt (advances c value rest round)) stands
  | case3 c round =>
      rw [whileAdvancing, unbounded, round]
      rfl
  | case4 c round => rw [whileAdvancing, unbounded, round]

end ParserCombinators.Repetition
