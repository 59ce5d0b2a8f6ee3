import ParserCombinators.Cursor.Basic

/-! # Outcomes of a parse

* **`Outcome ε α`** — what reading at a cursor comes to: a value and the cursor after the match, a
  refusal, or no answer because the reading would go on forever.
* **`Outcome.map`**, **`Outcome.bind`**, **`Outcome.orElse`** — change the value, go on after the
  match, fall back to an alternative. Falling back happens on a refusal only: a reading that never
  ends keeps the alternative from being tried.
* **`Failure`** — the two ways of not matching, with their wording.

A refusal carries nothing. The caller still has the cursor it started from. -/

namespace ParserCombinators

/-- What reading at a cursor comes to. -/
inductive Outcome (ε α : Type) where
  /-- A value was read, and `rest` stands after the match. -/
  | matched (value : α) (rest : Cursor ε)
  /-- The content at the cursor is refused. -/
  | noMatch
  /-- Reading at the cursor would go on forever. -/
  | unfinished
  deriving DecidableEq

/-- The two ways in which a parse yields no value. -/
inductive Failure where
  /-- The content is refused. -/
  | noMatch
  /-- The parse would go on forever. -/
  | unfinished
  deriving DecidableEq

/-- The wording of a failure. -/
def Failure.message : Failure → String
  | .noMatch => "no match"
  | .unfinished => "the parse does not end"

namespace Outcome

variable {ε α β γ : Type}

/-- Changes the value of a match. -/
def map (f : α → β) : Outcome ε α → Outcome ε β
  | matched value rest => matched (f value) rest
  | noMatch => noMatch
  | unfinished => unfinished

/-- Goes on after a match, with its value and the cursor after it. -/
def bind (outcome : Outcome ε α) (next : α → Cursor ε → Outcome ε β) : Outcome ε β :=
  match outcome with
  | matched value rest => next value rest
  | noMatch => noMatch
  | unfinished => unfinished

/-- Falls back to an alternative when the content is refused. -/
def orElse (outcome : Outcome ε α) (alternative : Unit → Outcome ε α) : Outcome ε α :=
  match outcome with
  | matched value rest => matched value rest
  | noMatch => alternative ()
  | unfinished => unfinished

/-- The value together with the cursor after it, or the way in which there is none. -/
def toExcept : Outcome ε α → Except Failure (α × Cursor ε)
  | matched value rest => .ok (value, rest)
  | noMatch => .error .noMatch
  | unfinished => .error .unfinished

@[simp] theorem map_matched (f : α → β) (value : α) (rest : Cursor ε) :
    (matched value rest).map f = matched (f value) rest := rfl

@[simp] theorem map_noMatch (f : α → β) : (noMatch : Outcome ε α).map f = noMatch := rfl

@[simp] theorem map_unfinished (f : α → β) : (unfinished : Outcome ε α).map f = unfinished := rfl

@[simp] theorem bind_matched (value : α) (rest : Cursor ε) (next : α → Cursor ε → Outcome ε β) :
    (matched value rest).bind next = next value rest := rfl

@[simp] theorem bind_noMatch (next : α → Cursor ε → Outcome ε β) :
    (noMatch : Outcome ε α).bind next = noMatch := rfl

@[simp] theorem bind_unfinished (next : α → Cursor ε → Outcome ε β) :
    (unfinished : Outcome ε α).bind next = unfinished := rfl

@[simp] theorem orElse_matched (value : α) (rest : Cursor ε) (alternative : Unit → Outcome ε α) :
    (matched value rest).orElse alternative = matched value rest := rfl

@[simp] theorem orElse_noMatch (alternative : Unit → Outcome ε α) :
    (noMatch : Outcome ε α).orElse alternative = alternative () := rfl

@[simp] theorem orElse_unfinished (alternative : Unit → Outcome ε α) :
    (unfinished : Outcome ε α).orElse alternative = unfinished := rfl

/-- A match ends. -/
theorem matched_ne_unfinished (value : α) (rest : Cursor ε) :
    (matched value rest : Outcome ε α) ≠ unfinished := by
  intro same
  cases same

/-- A refusal ends. -/
theorem noMatch_ne_unfinished : (noMatch : Outcome ε α) ≠ unfinished := by
  intro same
  cases same

/-- Changing the value twice is changing it once by the composition. -/
@[simp] theorem map_map (outcome : Outcome ε α) (f : α → β) (g : β → γ) :
    (outcome.map f).map g = outcome.map (g ∘ f) := by
  cases outcome <;> rfl

/-- Changing the value by the identity changes nothing. -/
@[simp] theorem map_id (outcome : Outcome ε α) : outcome.map id = outcome := by
  cases outcome <;> rfl

/-- A change of the value is a continuation that stays where it is. -/
theorem map_eq_bind (outcome : Outcome ε α) (f : α → β) :
    outcome.map f = outcome.bind fun value rest => matched (f value) rest := by
  cases outcome <;> rfl

/-- What goes on after a changed value goes on after the value and makes the change itself. -/
theorem map_bind (outcome : Outcome ε α) (f : α → β) (next : β → Cursor ε → Outcome ε γ) :
    (outcome.map f).bind next = outcome.bind fun value rest => next (f value) rest := by
  cases outcome <;> rfl

/-- Continuations nest to either side. -/
theorem bind_bind (outcome : Outcome ε α) (next : α → Cursor ε → Outcome ε β)
    (last : β → Cursor ε → Outcome ε γ) :
    (outcome.bind next).bind last = outcome.bind fun value rest => (next value rest).bind last := by
  cases outcome <;> rfl

/-- A changed value comes from a match that ends at the same cursor. -/
theorem map_eq_matched_iff {outcome : Outcome ε α} {f : α → β} {changed : β} {rest : Cursor ε} :
    outcome.map f = matched changed rest ↔
      ∃ value, outcome = matched value rest ∧ f value = changed := by
  constructor
  · intro found
    cases outcome with
    | matched value rest' =>
        cases found
        exact ⟨value, rfl, rfl⟩
    | noMatch => cases found
    | unfinished => cases found
  · rintro ⟨value, rfl, rfl⟩
    rfl

/-- A continued match comes from a match and from one that starts where it ended. -/
theorem bind_eq_matched_iff {outcome : Outcome ε α} {next : α → Cursor ε → Outcome ε β} {last : β}
    {rest : Cursor ε} :
    outcome.bind next = matched last rest ↔
      ∃ value middle, outcome = matched value middle ∧ next value middle = matched last rest := by
  constructor
  · intro found
    cases outcome with
    | matched value middle => exact ⟨value, middle, rfl, found⟩
    | noMatch => cases found
    | unfinished => cases found
  · rintro ⟨value, middle, rfl, found⟩
    exact found

/-- A match with an alternative is the match or, after a refusal, the match of the alternative. -/
theorem orElse_eq_matched_iff {outcome : Outcome ε α} {alternative : Unit → Outcome ε α} {value : α}
    {rest : Cursor ε} :
    outcome.orElse alternative = matched value rest ↔
      outcome = matched value rest ∨ outcome = noMatch ∧ alternative () = matched value rest := by
  cases outcome <;> simp

/-- A reading that ends and does not match is refused. -/
theorem eq_noMatch_iff {outcome : Outcome ε α} (ends : outcome ≠ unfinished) :
    outcome = noMatch ↔ ∀ value rest, outcome ≠ matched value rest := by
  cases outcome with
  | matched value rest => simp
  | noMatch => simp
  | unfinished => exact absurd rfl ends

/-- A change of the value ends exactly where the reading does. -/
@[simp] theorem map_eq_unfinished_iff {outcome : Outcome ε α} {f : α → β} :
    outcome.map f = unfinished ↔ outcome = unfinished := by
  cases outcome <;> simp

/-- A change of the value is refused exactly where the reading is. -/
@[simp] theorem map_eq_noMatch_iff {outcome : Outcome ε α} {f : α → β} :
    outcome.map f = noMatch ↔ outcome = noMatch := by
  cases outcome <;> simp

/-- An alternative does not matter where the reading is not refused. -/
theorem orElse_eq_self {outcome : Outcome ε α} (notRefused : outcome ≠ noMatch)
    (alternative : Unit → Outcome ε α) : outcome.orElse alternative = outcome := by
  cases outcome with
  | matched value rest => rfl
  | noMatch => exact absurd rfl notRefused
  | unfinished => rfl

/-- An alternative that is refused does not matter. -/
theorem orElse_refused (outcome : Outcome ε α) : (outcome.orElse fun _ => noMatch) = outcome := by
  cases outcome <;> rfl

/-- A change of the value ends if the reading does. -/
theorem map_ne_unfinished {outcome : Outcome ε α} {f : α → β} (ends : outcome ≠ unfinished) :
    outcome.map f ≠ unfinished :=
  fun isOpen => ends (map_eq_unfinished_iff.1 isOpen)

/-- What goes on after a match ends if the reading does and every continuation of its match. -/
theorem bind_ne_unfinished {outcome : Outcome ε α} {next : α → Cursor ε → Outcome ε β}
    (ends : outcome ≠ unfinished)
    (further : ∀ value rest, outcome = matched value rest → next value rest ≠ unfinished) :
    outcome.bind next ≠ unfinished := by
  cases outcome with
  | matched value rest => exact further value rest rfl
  | noMatch => exact noMatch_ne_unfinished
  | unfinished => exact absurd rfl ends

/-- What falls back ends if the reading and the alternative do. -/
theorem orElse_ne_unfinished {outcome : Outcome ε α} {alternative : Unit → Outcome ε α}
    (ends : outcome ≠ unfinished) (fallback : alternative () ≠ unfinished) :
    outcome.orElse alternative ≠ unfinished := by
  cases outcome with
  | matched value rest => exact matched_ne_unfinished value rest
  | noMatch => exact fallback
  | unfinished => exact absurd rfl ends

end Outcome

end ParserCombinators
