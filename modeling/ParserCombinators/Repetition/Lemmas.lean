import ParserCombinators.Outcome.Approximation
import ParserCombinators.Repetition.Basic

/-! # Repetition and the cursors it passes

A repetition asks its attempt only at cursors that the start reaches, if every round leads to such
cursors again. So it leads on from its start, and an attempt that is known only in part gives a
repetition that is known only in part. -/

namespace ParserCombinators.Repetition

variable {ε α β : Type}

/-- At every cursor that `c` reaches, the attempt leads to cursors which that one reaches. -/
def MovesForward (attempt : Cursor ε → Outcome ε α) (c : Cursor ε) : Prop :=
  ∀ d, c.Reaches d → (attempt d).LeadsOnFrom d

/-- At every cursor that `c` reaches, the first attempt approximates the second. -/
def ApproximatesFrom (attempt attempt' : Cursor ε → Outcome ε α) (c : Cursor ε) : Prop :=
  ∀ d, c.Reaches d → (attempt d).Approximates (attempt' d)

/-- Moving forward from a cursor is moving forward from what it reaches. -/
theorem MovesForward.of_reaches {attempt : Cursor ε → Outcome ε α} {c d : Cursor ε}
    (forward : MovesForward attempt c) (reaches : c.Reaches d) : MovesForward attempt d :=
  fun e further => forward e (reaches.trans further)

/-- Approximating from a cursor is approximating from what it reaches. -/
theorem ApproximatesFrom.of_reaches {attempt attempt' : Cursor ε → Outcome ε α} {c d : Cursor ε}
    (below : ApproximatesFrom attempt attempt' c) (reaches : c.Reaches d) :
    ApproximatesFrom attempt attempt' d :=
  fun e further => below e (reaches.trans further)

/-- Stopping stays where it is. -/
theorem stop_leadsOnFrom (least : Nat) (c : Cursor ε) :
    (stop least c : Outcome ε (List α)).LeadsOnFrom c := by
  unfold stop
  split
  · exact .matched (.refl c) []
  · exact .noMatch c

/-- A round that leads on, followed by a repetition that leads on, leads on. -/
theorem round_leadsOnFrom {rest c : Cursor ε} {value : α} {tail : Outcome ε (List α)}
    (reaches : c.Reaches rest) (leadsOn : tail.LeadsOnFrom rest) :
    (tail.map (value :: ·)).LeadsOnFrom c := by
  intro values last same
  exact reaches.trans (leadsOn.map (value :: ·) values last same)

/-- After a round that does not end the repetition, a further round is needed or the cursor has
moved on. -/
theorem needed_or_advances {least : Nat} {c rest : Cursor ε} (reaches : c.Reaches rest)
    (further : ¬ (rest.position = c.position ∧ least ≤ 1)) :
    0 < least ∨ rest.remainingCount < c.remainingCount := by
  by_cases stands : rest.position = c.position
  · have needed : ¬ least ≤ 1 := fun enough => further ⟨stands, enough⟩
    exact Or.inl (by omega)
  · exact Or.inr (reaches.remainingCount_lt stands)

/-- An attempt that leads on is repeated unless its round stands still and is the last one needed. -/
theorem unbounded_of_matched {attempt : Cursor ε → Outcome ε α} {least : Nat} {c rest : Cursor ε}
    {value : α} (round : attempt c = .matched value rest) (reaches : c.Reaches rest) :
    unbounded attempt least c =
      if rest.position = c.position ∧ least ≤ 1 then .matched [value] rest
      else (unbounded attempt (least - 1) rest).map (value :: ·) := by
  rw [unbounded, round]
  by_cases last : rest.position = c.position ∧ least ≤ 1
  · simp only [if_pos last]
  · simp only [if_neg last, if_pos (needed_or_advances reaches last)]

/-- Bounded repetition leads on from its start. -/
theorem upTo_leadsOnFrom {attempt : Cursor ε → Outcome ε α} (limit least : Nat) (c : Cursor ε)
    (forward : MovesForward attempt c) : (upTo attempt limit least c).LeadsOnFrom c := by
  induction limit generalizing least c with
  | zero => exact stop_leadsOnFrom least c
  | succ limit ih =>
      rw [upTo]
      cases round : attempt c with
      | matched value rest =>
          have reaches := forward c (.refl c) value rest round
          exact round_leadsOnFrom reaches (ih _ rest (forward.of_reaches reaches))
      | noMatch => exact stop_leadsOnFrom least c
      | unfinished => exact .unfinished c

/-- Unbounded repetition leads on from its start. -/
theorem unbounded_leadsOnFrom {attempt : Cursor ε → Outcome ε α} (least : Nat) (c : Cursor ε)
    (forward : MovesForward attempt c) : (unbounded attempt least c).LeadsOnFrom c := by
  induction least, c using unbounded.induct attempt with
  | case1 least c value rest round last =>
      rw [unbounded, round]
      simp only [if_pos last]
      exact .matched (forward c (.refl c) value rest round) [value]
  | case2 least c value rest round further guard ih =>
      have reaches := forward c (.refl c) value rest round
      rw [unbounded, round]
      simp only [if_neg further, if_pos guard]
      exact round_leadsOnFrom reaches (ih (forward.of_reaches reaches))
  | case3 least c value rest round further back =>
      rw [unbounded, round]
      simp only [if_neg further, if_neg back]
      exact .unfinished c
  | case4 least c round =>
      rw [unbounded, round]
      exact stop_leadsOnFrom least c
  | case5 least c round =>
      rw [unbounded, round]
      exact .unfinished c

/-- Greedy repetition leads on from its start. -/
theorem between_leadsOnFrom {attempt : Cursor ε → Outcome ε α} (least : Nat) (most : Option Nat)
    (c : Cursor ε) (forward : MovesForward attempt c) :
    (between attempt least most c).LeadsOnFrom c := by
  cases most with
  | some limit => exact upTo_leadsOnFrom limit least c forward
  | none => exact unbounded_leadsOnFrom least c forward

/-- Repetition in advancing rounds leads on from its start. -/
theorem whileAdvancing_leadsOnFrom {attempt : Cursor ε → Outcome ε α} (c : Cursor ε)
    (forward : MovesForward attempt c) : (whileAdvancing attempt c).LeadsOnFrom c := by
  induction c using whileAdvancing.induct attempt with
  | case1 c value rest round advances ih =>
      have reaches := forward c (.refl c) value rest round
      rw [whileAdvancing, round]
      simp only [if_pos advances]
      exact round_leadsOnFrom reaches (ih (forward.of_reaches reaches))
  | case2 c value rest round stands =>
      rw [whileAdvancing, round]
      simp only [if_neg stands]
      exact .unfinished c
  | case3 c round =>
      rw [whileAdvancing, round]
      exact .matched (.refl c) []
  | case4 c round =>
      rw [whileAdvancing, round]
      exact .unfinished c

/-- A separator and an item after it move forward if both do. -/
theorem MovesForward.followed {separator : Cursor ε → Outcome ε β} {item : Cursor ε → Outcome ε α}
    {c : Cursor ε} (separatorForward : MovesForward separator c)
    (itemForward : MovesForward item c) :
    MovesForward (fun d => (separator d).bind fun _ after => item after) c :=
  fun d reaches => (separatorForward d reaches).bind fun _ after found =>
    itemForward after (reaches.trans found)

/-- A separated list leads on from its start. -/
theorem separated_leadsOnFrom {item : Cursor ε → Outcome ε α} {separator : Cursor ε → Outcome ε β}
    (c : Cursor ε) (itemForward : MovesForward item c)
    (separatorForward : MovesForward separator c) :
    (separated item separator c).LeadsOnFrom c :=
  (itemForward c (.refl c)).bind fun first rest reaches =>
    (whileAdvancing_leadsOnFrom rest
      ((separatorForward.of_reaches reaches).followed (itemForward.of_reaches reaches))).map
      (first :: ·)

/-- Bounded repetition of an approximation approximates. -/
theorem upTo_approximates {attempt attempt' : Cursor ε → Outcome ε α} (limit least : Nat)
    (c : Cursor ε) (forward : MovesForward attempt c)
    (below : ApproximatesFrom attempt attempt' c) :
    (upTo attempt limit least c).Approximates (upTo attempt' limit least c) := by
  induction limit generalizing least c with
  | zero => exact .refl _
  | succ limit ih =>
      rw [upTo, upTo]
      rcases below c (.refl c) with isOpen | same
      · rw [isOpen]
        exact .unfinished _
      · rw [← same]
        cases round : attempt c with
        | matched value rest =>
            have reaches := forward c (.refl c) value rest round
            exact (ih _ rest (forward.of_reaches reaches) (below.of_reaches reaches)).map _
        | noMatch => exact .refl _
        | unfinished => exact .refl _

/-- Unbounded repetition of an approximation approximates. -/
theorem unbounded_approximates {attempt attempt' : Cursor ε → Outcome ε α} (least : Nat)
    (c : Cursor ε) (forward : MovesForward attempt c)
    (below : ApproximatesFrom attempt attempt' c) :
    (unbounded attempt least c).Approximates (unbounded attempt' least c) := by
  induction least, c using unbounded.induct attempt with
  | case1 least c value rest round last =>
      have same := (below c (.refl c)).eq_of_ne_unfinished (by simp [round])
      rw [unbounded, unbounded, same, round]
      simp only [if_pos last]
      exact .refl _
  | case2 least c value rest round further guard ih =>
      have reaches := forward c (.refl c) value rest round
      have same := (below c (.refl c)).eq_of_ne_unfinished (by simp [round])
      rw [unbounded, unbounded, same, round]
      simp only [if_neg further, if_pos guard]
      exact (ih (forward.of_reaches reaches) (below.of_reaches reaches)).map _
  | case3 least c value rest round further back =>
      rw [unbounded, round]
      simp only [if_neg further, if_neg back]
      exact .unfinished _
  | case4 least c round =>
      have same := (below c (.refl c)).eq_of_ne_unfinished (by simp [round])
      rw [unbounded, unbounded, same, round]
      exact .refl _
  | case5 least c round =>
      rw [unbounded, round]
      exact .unfinished _

/-- Greedy repetition of an approximation approximates. -/
theorem between_approximates {attempt attempt' : Cursor ε → Outcome ε α} (least : Nat)
    (most : Option Nat) (c : Cursor ε) (forward : MovesForward attempt c)
    (below : ApproximatesFrom attempt attempt' c) :
    (between attempt least most c).Approximates (between attempt' least most c) := by
  cases most with
  | some limit => exact upTo_approximates limit least c forward below
  | none => exact unbounded_approximates least c forward below

/-- Repetition in advancing rounds of an approximation approximates. -/
theorem whileAdvancing_approximates {attempt attempt' : Cursor ε → Outcome ε α} (c : Cursor ε)
    (forward : MovesForward attempt c) (below : ApproximatesFrom attempt attempt' c) :
    (whileAdvancing attempt c).Approximates (whileAdvancing attempt' c) := by
  induction c using whileAdvancing.induct attempt with
  | case1 c value rest round advances ih =>
      have reaches := forward c (.refl c) value rest round
      have same := (below c (.refl c)).eq_of_ne_unfinished (by simp [round])
      rw [whileAdvancing, whileAdvancing, same, round]
      simp only [if_pos advances]
      exact (ih (forward.of_reaches reaches) (below.of_reaches reaches)).map _
  | case2 c value rest round stands =>
      rw [whileAdvancing, round]
      simp only [if_neg stands]
      exact .unfinished _
  | case3 c round =>
      have same := (below c (.refl c)).eq_of_ne_unfinished (by simp [round])
      rw [whileAdvancing, whileAdvancing, same, round]
      exact .refl _
  | case4 c round =>
      rw [whileAdvancing, round]
      exact .unfinished _

/-- A separated list of approximations approximates. -/
theorem separated_approximates {item item' : Cursor ε → Outcome ε α}
    {separator separator' : Cursor ε → Outcome ε β} (c : Cursor ε)
    (itemForward : MovesForward item c) (separatorForward : MovesForward separator c)
    (itemBelow : ApproximatesFrom item item' c)
    (separatorBelow : ApproximatesFrom separator separator' c) :
    (separated item separator c).Approximates (separated item' separator' c) := by
  refine (itemBelow c (.refl c)).bind fun first rest found => ?_
  have reaches := itemForward c (.refl c) first rest found
  refine (whileAdvancing_approximates rest
    ((separatorForward.of_reaches reaches).followed (itemForward.of_reaches reaches)) ?_).map _
  intro d further
  have reachesD := reaches.trans further
  refine (separatorBelow d reachesD).bind fun _ after separated => ?_
  exact itemBelow after (reachesD.trans (separatorForward d reachesD _ after separated))

end ParserCombinators.Repetition
