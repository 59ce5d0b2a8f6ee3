import Mathlib.Logic.Function.Iterate
import ParserCombinators.Proofs.Numeral.Integer

/-! # Nested parentheses

A rule that refers to itself between an opening and a closing parenthesis is entered once for each
opening parenthesis that is next. Whether it matches is decided inside: there must be a number in
front of as many closing parentheses. No level has another way to go on, so a refusal inside is a
refusal of the whole.

* **`Parser.nested`**, **`Grammar.nested`** — a number between parentheses, with a change of the value
  at every level.
* **`NestedAt`** — opening parentheses, all that there are, a run of digits, and as many closing
  parentheses.
* **`Grammar.closeLevels`** — what becomes of a value at the closing parentheses behind it.
* **`Grammar.parse_nested`** — one level; **`Grammar.parse_nested_eq`** — all of them.
* **`Grammar.parse_nested_exact`** — what is read, and where the content is refused. -/

namespace ParserCombinators

open Digits

variable {α : Type}

/-- A number of a type, or the rule between parentheses, with a change of its value. -/
def Parser.nested (type : IntType) (leaf : Int → α) (wrap : α → α) :
    Parser Char (fun _ : Unit => α) α :=
  ((((char '(').keepRight (rule ())).keepLeft (char ')')).map wrap).orElse
    ((natural type.range).map leaf)

/-- Digits between parentheses at the beginning of a content, and the rest of it. -/
structure NestedAt (content : List Char) (depth : Nat) (digits after : List Char) : Prop where
  /-- The depth counts all the opening parentheses that there are. -/
  depth_eq : depth = (content.takeWhile (· == '(')).length
  /-- Behind these stands a run of digits, directly followed by as many closing parentheses. -/
  run : DigitRun (content.drop depth) digits (List.replicate depth ')' ++ after)

/-- Behind the closing parentheses stands the rest of the content. -/
theorem NestedAt.remaining_advanceBy {c : Cursor Char} {depth : Nat} {digits after : List Char}
    (stands : NestedAt c.remaining depth digits after) :
    (c.advanceBy (depth + digits.length + depth)).remaining = after := by
  rw [Cursor.remaining_advanceBy, ← List.drop_drop, ← List.drop_drop, stands.run.content_eq,
    List.drop_left, List.drop_left' List.length_replicate]

/-- To count on as often as a number says is to add the number. -/
theorem iterate_count (depth : Nat) (value : α) :
    (fun counted : Nat × α => (counted.1 + 1, counted.2))^[depth] (0, value) = (depth, value) := by
  induction depth with
  | zero => rfl
  | succ depth ih => rw [Function.iterate_succ_apply', ih]

namespace Grammar

/-- The grammar whose rule is a number between parentheses. -/
def nested (type : IntType) (leaf : Int → α) (wrap : α → α) : Grammar Char (fun _ : Unit => α) :=
  single (.nested type leaf wrap)

variable (type : IntType) (leaf : Int → α) (wrap : α → α) (c : Cursor Char)

/-! ## Closing parentheses -/

/-- What becomes of a value in front of closing parentheses: it is changed once for each level, and
refused if there are fewer parentheses than levels. -/
def closeLevels (levels : Nat) (value : α) (rest : Cursor Char) : Outcome Char α :=
  if List.replicate levels ')' <+: rest.remaining then
    .matched (wrap^[levels] value) (rest.advanceBy levels)
  else .noMatch

/-- Without levels a value stays as it is. -/
theorem closeLevels_zero (value : α) (rest : Cursor Char) :
    closeLevels wrap 0 value rest = .matched value rest :=
  if_pos List.nil_prefix

/-- Levels are closed one after the other, the inner ones first. -/
theorem bind_closeLevels (inner outer : Nat) (value : α) (rest : Cursor Char) :
    (closeLevels wrap inner value rest).bind (closeLevels wrap outer) =
      closeLevels wrap (inner + outer) value rest := by
  have parts := rest.append_prefix_remaining_iff (List.replicate inner ')')
    (List.replicate outer ')')
  rw [List.replicate_append_replicate, List.length_replicate] at parts
  unfold closeLevels
  by_cases next : List.replicate inner ')' <+: rest.remaining
  · rw [if_pos next, Outcome.bind_matched]
    by_cases further : List.replicate outer ')' <+: (rest.advanceBy inner).remaining
    · rw [if_pos further, if_pos (parts.2 ⟨next, further⟩), Cursor.advanceBy_add,
        Nat.add_comm inner outer, Function.iterate_add_apply]
    · rw [if_neg further, if_neg fun both => further (parts.1 both).2]
  · rw [if_neg next, if_neg fun both => next (parts.1 both).1, Outcome.bind_noMatch]

/-- A single level is closed by reading a closing parenthesis. -/
theorem parse_closing {ν : Type} {τ : ν → Type} (g : Grammar Char τ) (value : α)
    (rest : Cursor Char) :
    (g.parse (.char ')') rest).map (fun _ => wrap value) = closeLevels wrap 1 value rest := by
  have next : List.replicate 1 ')' <+: rest.remaining ↔ rest.remaining.head? = some ')' :=
    List.singleton_prefix_iff_head?_eq_some
  rw [parse_char, closeLevels]
  by_cases closes : rest.remaining.head? = some ')'
  · rw [if_pos closes, if_pos (next.2 closes)]
    rfl
  · rw [if_neg closes, if_neg (mt next.1 closes)]
    rfl

/-- A value comes through the levels where their closing parentheses are next. -/
theorem closeLevels_eq_matched_iff {levels : Nat} {value changed : α} {rest behind : Cursor Char} :
    closeLevels wrap levels value rest = .matched changed behind ↔
      rest.remaining = List.replicate levels ')' ++ behind.remaining ∧
        behind = rest.advanceBy levels ∧ changed = wrap^[levels] value := by
  rw [closeLevels]
  constructor
  · intro found
    by_cases next : List.replicate levels ')' <+: rest.remaining
    · rw [if_pos next] at found
      cases found
      have split := List.prefix_iff_eq_append.1 next
      rw [List.length_replicate] at split
      exact ⟨by rw [Cursor.remaining_advanceBy, split], rfl, rfl⟩
    · rw [if_neg next] at found
      cases found
  · rintro ⟨content, rfl, rfl⟩
    exact if_pos ⟨_, content.symm⟩

/-- To close levels ends. -/
theorem closeLevels_ne_unfinished (levels : Nat) (value : α) (rest : Cursor Char) :
    closeLevels wrap levels value rest ≠ .unfinished := by
  rw [closeLevels]
  by_cases next : List.replicate levels ')' <+: rest.remaining
  · rw [if_pos next]
    exact Outcome.matched_ne_unfinished _ _
  · rw [if_neg next]
    exact Outcome.noMatch_ne_unfinished

/-! ## Levels -/

/-- A number does not begin with a parenthesis. -/
theorem parse_natural_of_head?_eq_parenthesis {ν : Type} {τ : ν → Type} (g : Grammar Char τ)
    (range : IntRange) {c : Cursor Char} (opens : c.remaining.head? = some '(') :
    g.parse (.natural range) c = .noMatch := by
  rw [parse_natural_eq_noMatch_iff]
  intro digits after numeral
  have other : Char.isDigit '(' = false := by decide
  exact absurd opens ((numeralAt_false_iff.1 numeral).head?_ne other)

/-- **One level**: behind an opening parenthesis the same is read again, in front of a closing one;
elsewhere a number is read. -/
theorem parse_nested :
    (nested type leaf wrap).parse (.nested type leaf wrap) c =
      if c.remaining.head? = some '(' then
        ((nested type leaf wrap).parse (.nested type leaf wrap) c.advance).bind (closeLevels wrap 1)
      else ((nested type leaf wrap).parse (.natural type.range) c).map leaf := by
  set g := nested type leaf wrap
  have again : g.parse (.rule ()) c.advance = g.parse (.nested type leaf wrap) c.advance :=
    g.parse_rule () c.advance
  have level : g.parse (.nested type leaf wrap) c =
      ((g.parse (((Parser.char '(').keepRight (.rule ())).keepLeft (.char ')')) c).map wrap).orElse
        fun _ => (g.parse (.natural type.range) c).map leaf := rfl
  rw [level, Parser.keepLeft, parse_sequence, Parser.keepRight, parse_sequence, parse_char]
  by_cases opens : c.remaining.head? = some '('
  · -- the alternative is refused, whatever comes of the level
    rw [if_pos opens, if_pos opens, g.parse_natural_of_head?_eq_parenthesis _ opens,
      Outcome.map_noMatch, Outcome.orElse_refused, Outcome.bind_matched, again]
    cases g.parse (.nested type leaf wrap) c.advance with
    | matched value rest =>
        rw [Outcome.map_matched, Outcome.bind_matched, Outcome.bind_matched, Outcome.map_map,
          ← g.parse_closing]
        rfl
    | noMatch => rfl
    | unfinished => rfl
  · rw [if_neg opens, if_neg opens]
    rfl

/-- **All levels**: behind the opening parentheses a number is read, in front of as many closing
ones. -/
theorem parse_nested_eq :
    (nested type leaf wrap).parse (.nested type leaf wrap) c =
      ((nested type leaf wrap).parse (.natural type.range)
        (c.advanceBy (c.remaining.takeWhile (· == '(')).length)).bind fun number rest =>
          closeLevels wrap (c.remaining.takeWhile (· == '(')).length (leaf number) rest := by
  have inside : ∀ d : Cursor Char, d.remaining.head? ≠ some '(' →
      (nested type leaf wrap).parse (.nested type leaf wrap) d =
        ((nested type leaf wrap).parse (.natural type.range) d).bind fun number rest =>
          closeLevels wrap 0 (leaf number) rest := by
    intro d other
    rw [parse_nested, if_neg other, Outcome.map_eq_bind]
    simp only [closeLevels_zero]
  -- every opening parenthesis is a level, which is closed after those inside
  induction content : c.remaining generalizing c with
  | nil => exact inside c (by simp [content])
  | cons head tail ih =>
      by_cases opens : head = '('
      · subst opens
        have rest : c.advance.remaining = tail := by
          rw [Cursor.remaining_advance, content, List.tail_cons]
        rw [parse_nested, if_pos (by rw [content]; rfl), ih c.advance rest, Outcome.bind_bind,
          List.takeWhile_cons_of_pos rfl, List.length_cons, Cursor.advanceBy_advance]
        simp only [bind_closeLevels]
      · rw [List.takeWhile_cons_of_neg (by simpa using opens)]
        exact inside c (by simpa [content] using opens)

/-- Reading a number between parentheses ends. -/
theorem parse_nested_ne_unfinished :
    (nested type leaf wrap).parse (.nested type leaf wrap) c ≠ .unfinished := by
  rw [parse_nested_eq]
  exact Outcome.bind_ne_unfinished (parse_natural_ne_unfinished _ _ _)
    fun number rest _ => closeLevels_ne_unfinished wrap _ (leaf number) rest

/-- A number between parentheses is read where one stands that is of the type. -/
theorem parse_nested_eq_matched_iff {value : α} {rest : Cursor Char} :
    (nested type leaf wrap).parse (.nested type leaf wrap) c = .matched value rest ↔
      ∃ depth digits, NestedAt c.remaining depth digits rest.remaining ∧
        toNat digits ≤ type.range.greatest ∧ rest = c.advanceBy (depth + digits.length + depth) ∧
        value = wrap^[depth] (leaf (toNat digits)) := by
  rw [parse_nested_eq, Outcome.bind_eq_matched_iff]
  constructor
  · rintro ⟨number, middle, read, accepted⟩
    obtain ⟨digits, numeral, rfl, rfl, inside⟩ := (parse_natural_eq_matched_iff _ _ _).1 read
    obtain ⟨content, rfl, rfl⟩ := (closeLevels_eq_matched_iff wrap).1 accepted
    rw [numeralAt_false_iff, content, Cursor.remaining_advanceBy] at numeral
    refine ⟨_, digits, ⟨rfl, numeral⟩, (type.range.withSign_false_mem_iff _).1 inside, ?_, rfl⟩
    rw [Cursor.advanceBy_add, Cursor.advanceBy_add]
  · rintro ⟨depth, digits, ⟨rfl, run⟩, inside, rfl, rfl⟩
    rw [Cursor.advanceBy_add, Cursor.advanceBy_add] at run ⊢
    rw [← Cursor.remaining_advanceBy] at run
    -- behind the digits stand the closing parentheses
    have content := congrArg (List.drop digits.length) run.content_eq
    rw [← Cursor.remaining_advanceBy, List.drop_left] at content
    refine ⟨_, _, (parse_natural_eq_matched_iff _ _ _).2 ⟨digits, ?_, rfl, rfl, ?_⟩,
      (closeLevels_eq_matched_iff wrap).2 ⟨content, rfl, rfl⟩⟩
    · rw [numeralAt_false_iff, content]
      exact run
    · exact (type.range.withSign_false_mem_iff _).2 inside

/-- Everywhere else the content is refused. -/
theorem parse_nested_eq_noMatch_iff :
    (nested type leaf wrap).parse (.nested type leaf wrap) c = .noMatch ↔
      ∀ depth digits after, NestedAt c.remaining depth digits after →
        type.range.greatest < toNat digits := by
  rw [Outcome.eq_noMatch_iff (parse_nested_ne_unfinished type leaf wrap c)]
  constructor
  · intro refused depth digits after stands
    by_contra below
    have rest := stands.remaining_advanceBy
    exact refused _ _ ((parse_nested_eq_matched_iff type leaf wrap c).2
      ⟨depth, digits, rest.symm ▸ stands, Int.not_lt.1 below, rfl, rfl⟩)
  · intro none value rest read
    obtain ⟨depth, digits, stands, inside, -, -⟩ :=
      (parse_nested_eq_matched_iff type leaf wrap c).1 read
    exact Int.not_lt.2 inside (none depth digits rest.remaining stands)

/-- **Recursion counts parentheses.** A number between parentheses is read where a run of digits stands
behind all the opening parentheses that are next, if its number is one of the type and it is directly
followed by at least as many closing parentheses. The match ends behind as many of them as there are
opening ones, and it yields the number with one change of the value for each level; if the change is
to count, it yields the number of levels. Everything else is refused, at any depth. -/
theorem parse_nested_exact :
    (∀ value rest, (nested type leaf wrap).parse (.nested type leaf wrap) c = .matched value rest ↔
      ∃ depth digits, NestedAt c.remaining depth digits rest.remaining ∧
        positionalValue digits ≤ type.range.greatest ∧
        rest = c.advanceBy (depth + digits.length + depth) ∧
        value = wrap^[depth] (leaf (positionalValue digits))) ∧
    ((nested type leaf wrap).parse (.nested type leaf wrap) c = .noMatch ↔
      ∀ depth digits after, NestedAt c.remaining depth digits after →
        type.range.greatest < positionalValue digits) ∧
    let start := fun number : Int => (0, number)
    let count := fun counted : Nat × Int => (counted.1 + 1, counted.2)
    ∀ depth number rest,
      (nested type start count).parse (.nested type start count) c = .matched (depth, number) rest ↔
        ∃ digits, NestedAt c.remaining depth digits rest.remaining ∧
          positionalValue digits ≤ type.range.greatest ∧
          rest = c.advanceBy (depth + digits.length + depth) ∧ number = positionalValue digits := by
  simp only [← toNat_eq_positionalValue]
  refine ⟨fun value rest => parse_nested_eq_matched_iff type leaf wrap c,
    parse_nested_eq_noMatch_iff type leaf wrap c, fun depth number rest => ?_⟩
  rw [parse_nested_eq_matched_iff]
  simp only [iterate_count, Prod.mk.injEq]
  constructor
  · rintro ⟨depth, digits, stands, inside, position, rfl, rfl⟩
    exact ⟨digits, stands, inside, position, rfl⟩
  · rintro ⟨digits, stands, inside, position, rfl⟩
    exact ⟨depth, digits, stands, inside, position, rfl, rfl⟩

end Grammar

end ParserCombinators
