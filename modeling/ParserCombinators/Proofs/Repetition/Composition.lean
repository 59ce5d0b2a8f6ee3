import ParserCombinators.Proofs.Grammar.Recognition
import ParserCombinators.Proofs.Repetition.Rounds

/-! # Repetitions one after the other

A repetition with one pair of bounds is a sequence of repetitions with other bounds. Where every
round counts, which is so under an upper bound, this holds of whatever is repeated. Without an upper
bound a round that stands still may end the repetition, so there the rounds have to move on.

* **`Repetition.upTo_add`** — a bounded repetition is a fixed number of rounds and the repetition of
  what is still allowed and needed behind them.
* **`Repetition.exists_upTo_take`** — a smaller bound yields a beginning of the list.
* **`Repetition.unbounded_add`** — an unbounded repetition is a fixed number of rounds and the
  unbounded repetition behind them.
* **`Repetition.unbounded_eq_upTo`** — as many rounds as there are elements left are no bound.
* **`Repetition.attempt_eq_noMatch_of_unbounded`** — an unbounded repetition leaves nothing behind
  it that it could have taken.
* **`Grammar.parse_repeated_composition`** — the same of the repeated parser. -/

namespace ParserCombinators

open Outcome

variable {ε ν : Type} {τ : ν → Type} {α : Type}

namespace Repetition

variable {attempt : Cursor ε → Outcome ε α} {c : Cursor ε}

/-! ## With an upper bound -/

/-- A first value, put before the values of two repetitions that follow each other, is put before
those of the first one. -/
theorem map_cons_bind_append (value : α) (outcome : Outcome ε (List α))
    (next : Cursor ε → Outcome ε (List α)) :
    (outcome.bind fun values d => (next d).map (values ++ ·)).map (value :: ·) =
      (outcome.map (value :: ·)).bind fun values d => (next d).map (values ++ ·) := by
  cases outcome with
  | matched values d => exact map_map (next d) (values ++ ·) (value :: ·)
  | noMatch => rfl
  | unfinished => rfl

/-- **A bounded repetition is a number of rounds and the repetition behind them**, for which so many
rounds less are allowed and needed. -/
theorem upTo_add (count limit least : Nat) (c : Cursor ε) :
    upTo attempt (count + limit) (count + least) c =
      (upTo attempt count count c).bind fun values d =>
        (upTo attempt limit least d).map (values ++ ·) := by
  induction count generalizing c with
  | zero =>
      rw [Nat.zero_add, Nat.zero_add]
      exact (map_id _).symm
  | succ count ih =>
      -- a first round takes one off each bound on either side
      rw [Nat.add_right_comm, Nat.add_right_comm count 1 least, upTo, upTo]
      cases attempt c with
      | matched value rest =>
          simp only [Nat.add_sub_cancel]
          rw [ih rest, map_cons_bind_append]
      | noMatch => rfl
      | unfinished => rfl

/-- **A smaller bound yields a beginning of the list** that a greater one does, if no round is needed
and the repetition with the greater bound ends. Neither refuses anything. -/
theorem exists_upTo_take {fewer limit : Nat} (le : fewer ≤ limit)
    (ends : upTo attempt limit 0 c ≠ .unfinished) :
    ∃ values rest rest', upTo attempt limit 0 c = .matched values rest ∧
      upTo attempt fewer 0 c = .matched (values.take fewer) rest' := by
  induction limit generalizing fewer c with
  | zero =>
      obtain rfl : fewer = 0 := Nat.le_zero.1 le
      exact ⟨[], c, c, rfl, rfl⟩
  | succ limit ih =>
      rw [upTo] at ends ⊢
      cases round : attempt c with
      | matched value middle =>
          simp only [round, Nat.zero_sub, ne_eq, map_eq_unfinished_iff] at ends
          cases fewer with
          | zero =>
              obtain ⟨values, rest, -, found, -⟩ := ih (Nat.zero_le limit) ends
              exact ⟨value :: values, rest, c, by simp only [Nat.zero_sub, found, map_matched], rfl⟩
          | succ fewer =>
              obtain ⟨values, rest, rest', found, found'⟩ := ih (Nat.le_of_succ_le_succ le) ends
              refine ⟨value :: values, rest, rest', ?_, ?_⟩
              · simp only [Nat.zero_sub, found, map_matched]
              · simp only [upTo, round, Nat.zero_sub, found', map_matched, List.take_succ_cons]
      | noMatch =>
          -- both stop here, the smaller bound perhaps before it is refused
          refine ⟨[], c, c, rfl, ?_⟩
          cases fewer with
          | zero => rfl
          | succ fewer => simp only [upTo, round, stop, if_pos, List.take_nil]
      | unfinished => simp [round] at ends

/-! ## Without an upper bound -/

section MovingOn

variable (forward : MovesForward attempt c)
  (advances : ∀ d value rest, attempt d = .matched value rest → rest.position ≠ d.position)

include forward advances

/-- **An unbounded repetition is a number of rounds and the unbounded repetition behind them**, if
every round moves on. A round that stood still would be repeated once more behind them. -/
theorem unbounded_add (count least : Nat) :
    unbounded attempt (count + least) c =
      (upTo attempt count count c).bind fun values d =>
        (unbounded attempt least d).map (values ++ ·) := by
  induction count generalizing c with
  | zero =>
      rw [Nat.zero_add]
      exact (map_id _).symm
  | succ count ih =>
      rw [Nat.add_right_comm, upTo]
      cases round : attempt c with
      | matched value rest =>
          have reaches := forward c (.refl c) value rest round
          rw [unbounded_of_matched round reaches,
            if_neg fun stands => advances c value rest round stands.1]
          simp only [Nat.add_sub_cancel]
          rw [ih (forward.of_reaches reaches), map_cons_bind_append]
      | noMatch =>
          rw [unbounded, round]
          rfl
      | unfinished =>
          rw [unbounded, round]
          rfl

/-- **As many rounds as there are elements left are no bound**, if every round moves on. Without a
bound there is one attempt more at the end of the input, so if all elements may be used up, the
unbounded repetition has to end. -/
theorem unbounded_eq_upTo {limit : Nat} (least : Nat) (few : c.remainingCount ≤ limit)
    (ends : c.remainingCount = limit → unbounded attempt least c ≠ .unfinished) :
    unbounded attempt least c = upTo attempt limit least c := by
  induction limit generalizing least c with
  | zero =>
      have noneLeft : c.remainingCount = 0 := Nat.le_zero.1 few
      -- the unbounded repetition attempts a round that the bound does not allow
      cases round : attempt c with
      | matched value rest =>
          have fewer := (forward c (.refl c) value rest round).remainingCount_lt
            (advances c value rest round)
          omega
      | noMatch =>
          rw [unbounded, round]
          rfl
      | unfinished => exact absurd (by rw [unbounded, round]) (ends noneLeft)
  | succ limit ih =>
      rw [upTo]
      cases round : attempt c with
      | matched value rest =>
          have reaches := forward c (.refl c) value rest round
          have moved := advances c value rest round
          have fewer := reaches.remainingCount_lt moved
          have once : unbounded attempt least c =
              (unbounded attempt (least - 1) rest).map (value :: ·) := by
            rw [unbounded_of_matched round reaches, if_neg fun stands => moved stands.1]
          rw [once]
          refine congrArg (·.map (value :: ·)) (ih (forward.of_reaches reaches) _ (by omega) ?_)
          intro allLeft isOpen
          exact ends (by omega) (by rw [once, isOpen, map_unfinished])
      | noMatch => rw [unbounded, round]
      | unfinished => rw [unbounded, round]

/-- **An unbounded repetition leaves nothing that it could have taken**: it ends where the attempt is
refused, if every round moves on. -/
theorem attempt_eq_noMatch_of_unbounded {least : Nat} {values : List α} {rest : Cursor ε}
    (found : unbounded attempt least c = .matched values rest) : attempt rest = .noMatch := by
  have found' : between attempt least none c = .matched values rest := found
  obtain ⟨count, first, -, passed⟩ := exists_rounds_of_matched forward found'
  obtain ⟨values', rest', passed', reason⟩ := first.1
  cases passed.symm.trans passed'
  rcases reason with unlimited | refused | ⟨-, -, stood⟩
  · cases unlimited
  · exact refused
  · obtain ⟨_, _, d, value, e, _, _, round, stands⟩ := stood
    exact absurd stands (advances d value e round)

end MovingOn

end Repetition

namespace Grammar

open Repetition

variable [DecidableEq ε]

/-- A fixed number of times is repetition with one bound from below and from above. -/
theorem parse_times (g : Grammar ε τ) (p : Parser ε τ α) (count : Nat) (c : Cursor ε) :
    g.parse (p.times count) c = upTo (g.parse p) count count c :=
  g.parse_repeated c p count (some count)

/-- The grammar whose only rule enters itself. -/
def endless : Grammar Char (fun _ : Unit => Char) :=
  single (.rule ())

/-- Such a rule does not end with any depth. -/
theorem callTo_endless (depth : Nat) (c : Cursor Char) :
    endless.callTo depth () c = .unfinished := by
  induction depth with
  | zero => rfl
  | succ depth ih =>
      -- the depth that is added is used up by entering the rule again
      exact ih

/-- **Repetitions with different bounds, compared.** With an upper bound, a repetition is the rounds
that are needed and then those that are only allowed; fixed numbers of rounds add up; and if nothing
is needed, a smaller bound yields the beginning of the list that a greater one does. If the parser
never matches without advancing, a repetition without an upper bound is the rounds that are needed
and then any number of them; a bound that is no less than the number of elements left changes
nothing; and no further match of the parser follows the repetition.

The last but one compares what the two come to: without a bound the parser is attempted once more
when every element has been used up, and that attempt may not end, though the bounded repetition
does. Nothing else keeps one of them from ending where the other does. -/
theorem parse_repeated_composition (g : Grammar ε τ) (p : Parser ε τ α) (c : Cursor ε) :
    (∀ least most, least ≤ most → g.parse (p.repeated least (some most)) c =
      g.parse ((p.times least).sequence (p.repeated 0 (some (most - least))) (· ++ ·)) c) ∧
    (∀ count further, g.parse (p.times (count + further)) c =
      g.parse ((p.times count).sequence (p.times further) (· ++ ·)) c) ∧
    (∀ fewer most, fewer ≤ most → g.parse (p.repeated 0 (some most)) c ≠ .unfinished →
      ∃ values rest rest', g.parse (p.repeated 0 (some most)) c = .matched values rest ∧
        g.parse (p.repeated 0 (some fewer)) c = .matched (values.take fewer) rest') ∧
    (g.AlwaysAdvances p →
      (∀ least, g.parse (p.repeated least none) c =
        g.parse ((p.times least).sequence p.many (· ++ ·)) c) ∧
      (∀ least most, c.remainingCount ≤ most →
        (c.remainingCount = most → g.parse (p.repeated least none) c ≠ .unfinished) →
          g.parse (p.repeated least none) c = g.parse (p.repeated least (some most)) c) ∧
      ∀ (γ : Type) (combine : List α → α → γ) least value rest,
        g.parse ((p.repeated least none).sequence p combine) c ≠ .matched value rest) := by
  have forward : MovesForward (g.parse p) c := fun d _ => g.parse_leadsOnFrom p d
  refine ⟨fun least most le => ?_, fun count further => ?_, fun fewer most le ends => ?_,
    fun advances => ⟨fun least => ?_, fun least most few ends => ?_,
      fun γ combine least value rest found => ?_⟩⟩
  · obtain ⟨further, rfl⟩ := Nat.exists_eq_add_of_le le
    simp only [parse_sequence, parse_times, parse_repeated, Nat.add_sub_cancel_left]
    exact upTo_add least further 0 c
  · simp only [parse_sequence, parse_times]
    exact upTo_add count further further c
  · simp only [parse_repeated] at ends ⊢
    exact exists_upTo_take le ends
  · simp only [parse_sequence, parse_times, parse_many, parse_repeated]
    exact unbounded_add forward advances least 0
  · simp only [parse_repeated] at ends ⊢
    exact unbounded_eq_upTo forward advances least few ends
  · simp only [parse_sequence, parse_repeated] at found
    obtain ⟨values, middle, all, further⟩ := bind_eq_matched_iff.1 found
    obtain ⟨next, again, -⟩ := map_eq_matched_iff.1 further
    rw [attempt_eq_noMatch_of_unbounded forward advances all] at again
    cases again

/-- In `aaab` an optional `a` is read five times, which is twice and then up to three times more,
where the last two rounds stand still. Read without a bound, the letter is read three times, as it is
with a bound of four, of which two are the first two; and it is not read once more behind that. -/
theorem parse_repeated_composition_letters :
    let g := ruleless (ε := Char) (τ := fun _ => Nat)
    let letter := Parser.satisfy (· == 'a')
    let start := Cursor.valid #['a', 'a', 'a', 'b'] 0
    let behind := Cursor.valid #['a', 'a', 'a', 'b'] 3
    (2 ≤ 5 ∧ g.parse ((letter.optional.times 2).sequence (letter.optional.repeated 0 (some 3))
        (· ++ ·)) start = .matched [some 'a', some 'a', some 'a', none, none] behind) ∧
      (2 ≤ 4 ∧ g.parse (letter.repeated 0 (some 4)) start ≠ .unfinished ∧
        ∃ rest, g.parse (letter.repeated 0 (some 2)) start = .matched ['a', 'a'] rest) ∧
      g.AlwaysAdvances letter ∧
      (start.remainingCount ≤ 4 ∧ g.parse (letter.repeated 1 none) start ≠ .unfinished ∧
        g.parse (letter.repeated 1 none) start = g.parse (letter.repeated 1 (some 4)) start) ∧
      ∀ value rest, g.parse ((letter.repeated 1 none).sequence letter Prod.mk) start ≠
        .matched value rest := by
  intro g letter start behind
  have ofOptional := g.parse_repeated_composition letter.optional start
  have ofLetter := g.parse_repeated_composition letter start
  have advances : g.AlwaysAdvances letter :=
    alwaysAdvances_of_not_nullable (not_nullable_satisfy g (· == 'a'))
  have optionals : g.parse (letter.optional.repeated 2 (some 5)) start =
      .matched [some 'a', some 'a', some 'a', none, none] behind := by cbv
  have four : g.parse (letter.repeated 0 (some 4)) start = .matched ['a', 'a', 'a'] behind := by cbv
  have unlimited : g.parse (letter.repeated 1 none) start = .matched ['a', 'a', 'a'] behind := by cbv
  have ends : g.parse (letter.repeated 0 (some 4)) start ≠ .unfinished := by
    rw [four]
    exact matched_ne_unfinished _ _
  have ends' : g.parse (letter.repeated 1 none) start ≠ .unfinished := by
    rw [unlimited]
    exact matched_ne_unfinished _ _
  refine ⟨⟨by decide, ?_⟩, ⟨by decide, ends, ?_⟩, advances, ⟨by decide, ends', ?_⟩, ?_⟩
  · exact (ofOptional.1 2 5 (by decide)).symm.trans optionals
  · obtain ⟨values, rest, rest', found, found'⟩ := ofLetter.2.2.1 2 4 (by decide) ends
    cases four.symm.trans found
    exact ⟨rest', found'⟩
  · exact (ofLetter.2.2.2 advances).2.1 1 4 (by decide) fun _ => ends'
  · exact (ofLetter.2.2.2 advances).2.2 _ Prod.mk 1

/-- Where an `a` or else the rule without an end is read, every match advances. In a text of one `a`
one round is as many as there are elements left, and a repetition with that bound matches, but without
a bound the rule is entered at the end of the text. -/
theorem parse_repeated_endless_at_end :
    let p := (Parser.satisfy (· == 'a')).orElse (.rule ())
    let start := Cursor.valid #['a'] 0
    endless.AlwaysAdvances p ∧ start.remainingCount ≤ 1 ∧
      endless.parse (p.repeated 0 (some 1)) start = .matched ['a'] (.endOfInput #['a']) ∧
      endless.parse (p.repeated 0 none) start = .unfinished := by
  intro p start
  refine ⟨fun c value rest found => ?_, by decide, by cbv, by cbv⟩
  -- the rule never matches, so every match is one of the letter
  rw [parse_orElse] at found
  rcases Outcome.orElse_eq_matched_iff.1 found with letter | ⟨-, rule⟩
  · exact alwaysAdvances_of_not_nullable (not_nullable_satisfy endless _) c value rest letter
  · cases (callTo_endless (endless.depthBound c) c).symm.trans rule

end Grammar

end ParserCombinators
