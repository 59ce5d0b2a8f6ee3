import ParserCombinators.Grammar.Basic
import ParserCombinators.Repetition.Lemmas

/-! # Reading with partial knowledge of the rules

* **`Parser.parseWith_leadsOnFrom`** — a parser leads only to cursors that its start reaches, if the
  rules do.
* **`Parser.parseWith_approximates`** — the less is known of the rules, the less is known of the
  outcome; only the rules' outcomes at cursors that the start reaches count.
* **`Grammar.callTo_approximates`** — a greater depth finishes more and changes nothing that is
  finished. -/

namespace ParserCombinators

variable {ε ν : Type} {τ : ν → Type} {α : Type}

namespace Parser

/-- Reading an element leads to the cursor after it. -/
theorem readElement_leadsOnFrom (accepts : ε → Bool) (c : Cursor ε) :
    (readElement accepts c).LeadsOnFrom c := by
  unfold readElement
  split
  · next element next =>
      split
      · exact .matched (.advance next) element
      · exact .noMatch c
  · exact .noMatch c

variable [DecidableEq ε]

/-- Skipping a word leads to a reached cursor. -/
theorem reaches_of_skipWord? {expected : List ε} {c rest : Cursor ε}
    (skipped : skipWord? expected c = some rest) : c.Reaches rest := by
  induction expected generalizing c with
  | nil =>
      cases skipped
      exact .refl _
  | cons element others ih =>
      rw [skipWord?] at skipped
      split at skipped
      · next next => exact (Cursor.Reaches.advance next).trans (ih skipped)
      · cases skipped

/-- Reading a word leads to the cursor after it. -/
theorem readWord_leadsOnFrom (expected : List ε) (c : Cursor ε) :
    (readWord expected c).LeadsOnFrom c := by
  unfold readWord
  split
  · next rest skipped => exact .matched (reaches_of_skipWord? skipped) expected
  · exact .noMatch c

/-- A word is skipped exactly where it is next. -/
theorem skipWord?_eq (expected : List ε) (c : Cursor ε) :
    skipWord? expected c =
      if expected <+: c.remaining then some (c.advanceBy expected.length) else none := by
  induction expected generalizing c with
  | nil => rw [skipWord?, if_pos List.nil_prefix, List.length_nil, Cursor.advanceBy]
  | cons element others ih =>
      rw [skipWord?, ih, Cursor.first?_eq_head?, Cursor.remaining_advance,
        Cursor.advanceBy_advance, List.length_cons]
      cases c.remaining with
      | nil => simp
      | cons head tail =>
          by_cases next : head = element
          · subst next
            rw [List.head?_cons, if_pos rfl]
            exact ite_congr (by rw [List.tail_cons, List.prefix_cons_inj]) (fun _ => rfl) fun _ => rfl
          · have other : ¬ element = head := fun same => next same.symm
            simp [next, other]

/-- A word is read exactly where it is next, and nothing beyond it. -/
theorem readWord_eq (expected : List ε) (c : Cursor ε) :
    readWord expected c =
      if expected <+: c.remaining then .matched expected (c.advanceBy expected.length)
      else .noMatch := by
  rw [readWord, skipWord?_eq]
  by_cases next : expected <+: c.remaining
  · rw [if_pos next, if_pos next]
  · rw [if_neg next, if_neg next]

variable {call call' : (name : ν) → Cursor ε → Outcome ε (τ name)}

/-- A function that is applied to the values of two parsers combines the values of their sequence. -/
theorem parseWith_lift₂ {β γ : Type} (f : α → β → γ) (p : Parser ε τ α) (q : Parser ε τ β)
    (c : Cursor ε) : (lift₂ f p q).parseWith call c = (p.sequence q f).parseWith call c :=
  Outcome.map_bind (p.parseWith call c) f fun g rest => (q.parseWith call rest).map g

/-- A parser leads only to cursors that its start reaches, if the rules do. -/
theorem parseWith_leadsOnFrom (forward : ∀ name d, (call name d).LeadsOnFrom d)
    (p : Parser ε τ α) (c : Cursor ε) : (p.parseWith call c).LeadsOnFrom c := by
  induction p generalizing c with
  | satisfy accepts => exact readElement_leadsOnFrom accepts c
  | word expected => exact readWord_leadsOnFrom expected c
  | succeed value => exact .matched (.refl c) value
  | map p f ih => exact (ih c).map f
  | filter p keep ih =>
      refine (ih c).bind fun value rest _ => ?_
      split
      · exact .matched (.refl rest) value
      · exact .noMatch rest
  | filterMap p f ih =>
      refine (ih c).bind fun value rest _ => ?_
      split
      · exact .matched (.refl rest) _
      · exact .noMatch rest
  | sequence p q combine ihp ihq =>
      exact (ihp c).bind fun first rest _ => (ihq rest).map (combine first)
  | apply p q ihp ihq => exact (ihp c).bind fun f rest _ => (ihq rest).map f
  | orElse p q ihp ihq => exact (ihp c).orElse (ihq c)
  | optional p ih => exact ((ih c).map some).orElse (.matched (.refl c) none)
  | repeated p least most ih =>
      exact Repetition.between_leadsOnFrom least most c fun d _ => ih d
  | separated item separator ihItem ihSeparator =>
      exact Repetition.separated_leadsOnFrom c (fun d _ => ihItem d) fun d _ => ihSeparator d
  | rule name => exact forward name c

/-- The less is known of the rules at the cursors that the start reaches, the less is known of the
outcome. -/
theorem parseWith_approximates (forward : ∀ name d, (call name d).LeadsOnFrom d)
    (p : Parser ε τ α) (c : Cursor ε)
    (below : ∀ name d, c.Reaches d → (call name d).Approximates (call' name d)) :
    (p.parseWith call c).Approximates (p.parseWith call' c) := by
  induction p generalizing c with
  | satisfy accepts => exact .refl _
  | word expected => exact .refl _
  | succeed value => exact .refl _
  | map p f ih => exact (ih c below).map f
  | filter p keep ih => exact (ih c below).bind fun _ _ _ => .refl _
  | filterMap p f ih => exact (ih c below).bind fun _ _ _ => .refl _
  | sequence p q combine ihp ihq =>
      refine (ihp c below).bind fun first rest found => ?_
      have reaches := parseWith_leadsOnFrom forward p c first rest found
      exact (ihq rest fun name d further => below name d (reaches.trans further)).map _
  | apply p q ihp ihq =>
      refine (ihp c below).bind fun f rest found => ?_
      have reaches := parseWith_leadsOnFrom forward p c f rest found
      exact (ihq rest fun name d further => below name d (reaches.trans further)).map _
  | orElse p q ihp ihq => exact (ihp c below).orElse (ihq c below)
  | optional p ih => exact ((ih c below).map some).orElse (.refl _)
  | repeated p least most ih =>
      exact Repetition.between_approximates least most c
        (fun d _ => parseWith_leadsOnFrom forward p d)
        fun d reaches => ih d fun name e further => below name e (reaches.trans further)
  | separated item separator ihItem ihSeparator =>
      exact Repetition.separated_approximates c
        (fun d _ => parseWith_leadsOnFrom forward item d)
        (fun d _ => parseWith_leadsOnFrom forward separator d)
        (fun d reaches => ihItem d fun name e further => below name e (reaches.trans further))
        fun d reaches => ihSeparator d fun name e further => below name e (reaches.trans further)
  | rule name => exact below name c (.refl c)

/-- Rules that agree at the cursors that the start reaches give the same outcome. -/
theorem parseWith_congr (forward : ∀ name d, (call name d).LeadsOnFrom d)
    (forward' : ∀ name d, (call' name d).LeadsOnFrom d) (p : Parser ε τ α) (c : Cursor ε)
    (agree : ∀ name d, c.Reaches d → call name d = call' name d) :
    p.parseWith call c = p.parseWith call' c :=
  (parseWith_approximates forward p c fun name d reaches => Or.inr (agree name d reaches)).antisymm
    (parseWith_approximates forward' p c fun name d reaches =>
      Or.inr (agree name d reaches).symm)

end Parser

namespace Grammar

variable [DecidableEq ε]

/-- A rule leads only to cursors that its start reaches. -/
theorem callTo_leadsOnFrom (g : Grammar ε τ) (depth : Nat) (name : ν) (c : Cursor ε) :
    (g.callTo depth name c).LeadsOnFrom c := by
  induction depth generalizing name c with
  | zero => exact .unfinished c
  | succ depth ih => exact Parser.parseWith_leadsOnFrom ih (g.body name) c

/-- One rule more that may be open finishes more and changes nothing that is finished. -/
theorem callTo_approximates_succ (g : Grammar ε τ) (depth : Nat) (name : ν) (c : Cursor ε) :
    (g.callTo depth name c).Approximates (g.callTo (depth + 1) name c) := by
  induction depth generalizing name c with
  | zero => exact .unfinished _
  | succ depth ih =>
      exact Parser.parseWith_approximates (g.callTo_leadsOnFrom depth) (g.body name) c
        fun inner d _ => ih inner d

/-- A greater depth finishes more and changes nothing that is finished. -/
theorem callTo_approximates (g : Grammar ε τ) {depth deeper : Nat} (le : depth ≤ deeper)
    (name : ν) (c : Cursor ε) :
    (g.callTo depth name c).Approximates (g.callTo deeper name c) := by
  induction le with
  | refl => exact .refl _
  | step _ ih => exact ih.trans (g.callTo_approximates_succ _ name c)

/-- Reading with a greater depth finishes more and changes nothing that is finished. -/
theorem runTo_approximates (g : Grammar ε τ) {depth deeper : Nat} (le : depth ≤ deeper)
    (p : Parser ε τ α) (c : Cursor ε) :
    (g.runTo depth p c).Approximates (g.runTo deeper p c) :=
  Parser.parseWith_approximates (g.callTo_leadsOnFrom depth) p c
    fun name d _ => g.callTo_approximates le name d

end Grammar

end ParserCombinators
