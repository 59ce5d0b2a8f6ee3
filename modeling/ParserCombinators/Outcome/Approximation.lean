import ParserCombinators.Cursor.Lemmas
import ParserCombinators.Outcome.Basic

/-! # Approximated outcomes

* **`Outcome.Approximates`** — the order in which `Outcome.unfinished` lies below everything and
  nothing else lies below anything but itself: what is known of an outcome when a reading is cut
  short. Every way of going on from an outcome respects it.
* **`Outcome.LeadsOnFrom`** — a match, if there is one, ends at a cursor that the start reaches. Every
  way of going on respects that too. -/

namespace ParserCombinators.Outcome

variable {ε α β : Type}

/-- The first outcome is the second, or is not known yet. -/
def Approximates (partially fully : Outcome ε α) : Prop :=
  partially = unfinished ∨ partially = fully

/-- A match, if there is one, ends at a cursor that the start reaches. -/
def LeadsOnFrom (outcome : Outcome ε α) (c : Cursor ε) : Prop :=
  ∀ value rest, outcome = matched value rest → c.Reaches rest

namespace Approximates

/-- An outcome approximates itself. -/
theorem refl (outcome : Outcome ε α) : outcome.Approximates outcome :=
  Or.inr rfl

/-- What is not known yet approximates everything. -/
theorem unfinished (outcome : Outcome ε α) : Outcome.unfinished.Approximates outcome :=
  Or.inl rfl

/-- Approximations compose. -/
theorem trans {first second third : Outcome ε α} (lower : first.Approximates second)
    (upper : second.Approximates third) : first.Approximates third := by
  rcases lower with open₁ | rfl
  · exact Or.inl open₁
  · exact upper

/-- Outcomes that approximate each other are the same. -/
theorem antisymm {first second : Outcome ε α} (lower : first.Approximates second)
    (upper : second.Approximates first) : first = second := by
  rcases lower with open₁ | same
  · rcases upper with open₂ | same
    · rw [open₁, open₂]
    · exact same.symm
  · exact same

/-- What a finished outcome approximates is that outcome. -/
theorem eq_of_ne_unfinished {partially fully : Outcome ε α}
    (approximates : partially.Approximates fully) (finished : partially ≠ .unfinished) :
    fully = partially := by
  rcases approximates with isOpen | same
  · exact absurd isOpen finished
  · exact same.symm

/-- Changing the value respects approximation. -/
theorem map {partially fully : Outcome ε α} (approximates : partially.Approximates fully)
    (f : α → β) : (partially.map f).Approximates (fully.map f) := by
  rcases approximates with rfl | rfl
  · exact unfinished _
  · exact refl _

/-- Going on after a match respects approximation. -/
theorem bind {partially fully : Outcome ε α} (approximates : partially.Approximates fully)
    {next next' : α → Cursor ε → Outcome ε β}
    (further : ∀ value rest, partially = matched value rest →
      (next value rest).Approximates (next' value rest)) :
    (partially.bind next).Approximates (fully.bind next') := by
  rcases approximates with rfl | rfl
  · exact unfinished _
  · cases partially with
    | matched value rest => exact further value rest rfl
    | noMatch => exact refl _
    | unfinished => exact refl _

/-- Falling back respects approximation. -/
theorem orElse {partially fully : Outcome ε α} (approximates : partially.Approximates fully)
    {alternative alternative' : Unit → Outcome ε α}
    (fallback : (alternative ()).Approximates (alternative' ())) :
    (partially.orElse alternative).Approximates (fully.orElse alternative') := by
  rcases approximates with rfl | rfl
  · exact unfinished _
  · cases partially with
    | matched value rest => exact refl _
    | noMatch => exact fallback
    | unfinished => exact refl _

end Approximates

namespace LeadsOnFrom

/-- A match that ends at a reached cursor leads on. -/
theorem matched {c rest : Cursor ε} (reaches : c.Reaches rest) (value : α) :
    (Outcome.matched value rest).LeadsOnFrom c := by
  intro value' rest' same
  cases same
  exact reaches

/-- A refusal leads nowhere. -/
theorem noMatch (c : Cursor ε) : (Outcome.noMatch : Outcome ε α).LeadsOnFrom c := nofun

/-- What never ends leads nowhere. -/
theorem unfinished (c : Cursor ε) : (Outcome.unfinished : Outcome ε α).LeadsOnFrom c := nofun

/-- Changing the value leads to the same cursor. -/
theorem map {outcome : Outcome ε α} {c : Cursor ε} (leadsOn : outcome.LeadsOnFrom c) (f : α → β) :
    (outcome.map f).LeadsOnFrom c := by
  cases outcome with
  | matched value rest => exact matched (leadsOn value rest rfl) (f value)
  | noMatch => exact noMatch c
  | unfinished => exact unfinished c

/-- Going on from a reached cursor leads to reached cursors. -/
theorem bind {outcome : Outcome ε α} {c : Cursor ε} (leadsOn : outcome.LeadsOnFrom c)
    {next : α → Cursor ε → Outcome ε β}
    (further : ∀ value rest, c.Reaches rest → (next value rest).LeadsOnFrom rest) :
    (outcome.bind next).LeadsOnFrom c := by
  cases outcome with
  | matched value rest =>
      have reaches := leadsOn value rest rfl
      intro value' rest' same
      exact reaches.trans (further value rest reaches value' rest' same)
  | noMatch => exact noMatch c
  | unfinished => exact unfinished c

/-- Falling back at the start leads to cursors that the start reaches. -/
theorem orElse {outcome : Outcome ε α} {c : Cursor ε} (leadsOn : outcome.LeadsOnFrom c)
    {alternative : Unit → Outcome ε α} (fallback : (alternative ()).LeadsOnFrom c) :
    (outcome.orElse alternative).LeadsOnFrom c := by
  cases outcome with
  | matched value rest => exact leadsOn
  | noMatch => exact fallback
  | unfinished => exact unfinished c

end LeadsOnFrom

end ParserCombinators.Outcome
