import ParserCombinators.Outcome.Basic

/-! # Repeating an attempt

An attempt is anything that maps a cursor to an outcome. It is repeated greedily: each round starts
where the one before it ended, and nothing that was taken is ever given back.

* **`Repetition.upTo`** — at most a given number of rounds.
* **`Repetition.unbounded`** — rounds until the attempt is refused, or until a round that is not
  needed any more ends at the position where it started: every further round would do the same.
* **`Repetition.between`** — the two under one head, with the least and the greatest number of
  rounds.
* **`Repetition.whileAdvancing`** — rounds until the attempt is refused, where a round that leaves
  the cursor where it was is repeated forever.

The recursion of the unbounded forms is on what is left to read; `unbounded` may stand still only in
rounds that are still needed, and of those there are finitely many. -/

namespace ParserCombinators.Repetition

variable {ε α β : Type}

/-- No further round takes place: the empty list if no further value is needed, a refusal if one
is. -/
def stop (least : Nat) (c : Cursor ε) : Outcome ε (List α) :=
  if least = 0 then .matched [] c else .noMatch

/-- Greedy repetition with at most `limit` rounds, refused if fewer than `least` succeed. A round
that leaves the cursor where it was counts like any other. -/
def upTo (attempt : Cursor ε → Outcome ε α) : (limit least : Nat) → Cursor ε → Outcome ε (List α)
  | 0, least, c => stop least c
  | limit + 1, least, c =>
      match attempt c with
      | .matched value rest => (upTo attempt limit (least - 1) rest).map (value :: ·)
      | .noMatch => stop least c
      | .unfinished => .unfinished

/-- Greedy repetition without a bound, refused if fewer than `least` rounds succeed. It ends with
the first round that leaves nothing needed and ends at the position where it started; that round's
value is kept. -/
def unbounded (attempt : Cursor ε → Outcome ε α) (least : Nat) (c : Cursor ε) :
    Outcome ε (List α) :=
  match attempt c with
  | .matched value rest =>
      if rest.position = c.position ∧ least ≤ 1 then .matched [value] rest
      else if 0 < least ∨ rest.remainingCount < c.remainingCount then
        (unbounded attempt (least - 1) rest).map (value :: ·)
      else .unfinished   -- an attempt that never goes back does not come here
  | .noMatch => stop least c
  | .unfinished => .unfinished
termination_by (least, c.remainingCount)
decreasing_by
  rcases Nat.eq_zero_or_pos least with nothingNeeded | someNeeded
  · subst nothingNeeded
    exact Prod.Lex.right _ (by omega)
  · exact Prod.Lex.left _ _ (by omega)

/-- Greedy repetition of at least `least` rounds and at most `most`, where `none` is no bound. If
`most` is less than `least`, every content is refused. -/
def between (attempt : Cursor ε → Outcome ε α) (least : Nat) (most : Option Nat) (c : Cursor ε) :
    Outcome ε (List α) :=
  match most with
  | some limit => upTo attempt limit least c
  | none => unbounded attempt least c

/-- Greedy repetition in which every round has to advance. A round that matches without advancing
would be followed by the same round again and again, so the repetition does not end. -/
def whileAdvancing (attempt : Cursor ε → Outcome ε α) (c : Cursor ε) : Outcome ε (List α) :=
  match attempt c with
  | .matched value rest =>
      if rest.remainingCount < c.remainingCount then
        (whileAdvancing attempt rest).map (value :: ·)
      else .unfinished
  | .noMatch => .matched [] c
  | .unfinished => .unfinished
termination_by c.remainingCount

/-- One item, then greedily a separator and another item. A separator that no item follows is not
taken. -/
def separated (item : Cursor ε → Outcome ε α) (separator : Cursor ε → Outcome ε β)
    (c : Cursor ε) : Outcome ε (List α) :=
  (item c).bind fun first rest =>
    (whileAdvancing (fun before => (separator before).bind fun _ after => item after) rest).map
      (first :: ·)

end ParserCombinators.Repetition
