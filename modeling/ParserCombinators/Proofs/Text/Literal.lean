import ParserCombinators.Grammar.Equations
import ParserCombinators.Parser.Character

/-! # Literals match prefixes

A literal is read character by character, and what comes of it is whether its text is a prefix of
what is left. So it makes no difference in how many parts a text is read, and an alternative that
starts with an earlier one is never reached.

* **`Grammar.parse_literal`** — a literal in terms of the remaining content.
* **`Grammar.parse_literal_eq_matched_iff`**, **`Grammar.parse_literal_eq_noMatch_iff`** — where a
  literal matches, and where it does not.
* **`Grammar.parse_literal_append`** — two texts after one another.
* **`Grammar.parse_literal_orElse`** — a text and a longer one that starts with it.
* **`Grammar.parse_literal_exact`** — all of this together. -/

namespace ParserCombinators.Grammar

variable {ν : Type} {τ : ν → Type} (g : Grammar Char τ) (c : Cursor Char)

/-- A literal is read where its text is next. -/
theorem parse_literal (text : String) :
    g.parse (.literal text) c =
      if text.toList <+: c.remaining then .matched text (c.advanceBy text.length) else .noMatch := by
  rw [Parser.literal, parse_map, parse_word, Parser.readWord_eq, String.length_toList]
  by_cases next : text.toList <+: c.remaining
  · rw [if_pos next, if_pos next, Outcome.map_matched, String.ofList_toList]
  · rw [if_neg next, if_neg next, Outcome.map_noMatch]

/-- A literal matches where its text is next: it yields the text and stops behind it. -/
theorem parse_literal_eq_matched_iff {text value : String} {rest : Cursor Char} :
    g.parse (.literal text) c = .matched value rest ↔
      text.toList <+: c.remaining ∧ value = text ∧ rest = c.advanceBy text.length := by
  rw [parse_literal]
  by_cases next : text.toList <+: c.remaining
  · rw [if_pos next, Outcome.matched.injEq, and_iff_right next, eq_comm, @eq_comm _ _ rest]
  · rw [if_neg next]
    exact iff_of_false (fun found => by cases found) fun found => next found.1

/-- A literal is refused where its text is not next. -/
theorem parse_literal_eq_noMatch_iff {text : String} :
    g.parse (.literal text) c = .noMatch ↔ ¬ text.toList <+: c.remaining := by
  rw [parse_literal]
  by_cases next : text.toList <+: c.remaining
  · rw [if_pos next]
    exact iff_of_false (fun found => by cases found) fun other => other next
  · rw [if_neg next]
    exact iff_of_true rfl next

/-- A literal always ends. -/
theorem parse_literal_ne_unfinished (text : String) : g.parse (.literal text) c ≠ .unfinished := by
  rw [parse_literal]
  by_cases next : text.toList <+: c.remaining
  · rw [if_pos next]
    exact Outcome.matched_ne_unfinished _ _
  · rw [if_neg next]
    exact Outcome.noMatch_ne_unfinished

/-- A text that is put together of two is read as the first and then the second. -/
theorem parse_literal_append (first second : String) :
    g.parse (.literal (first ++ second)) c =
      g.parse ((Parser.literal first).sequence (.literal second) (· ++ ·)) c := by
  have parts := c.append_prefix_remaining_iff first.toList second.toList
  rw [String.length_toList] at parts
  rw [parse_sequence, parse_literal, parse_literal, String.toList_append, String.length_append,
    Cursor.advanceBy_add]
  by_cases next : first.toList <+: c.remaining
  · rw [if_pos next, Outcome.bind_matched, parse_literal]
    by_cases further : second.toList <+: (c.advanceBy first.length).remaining
    · rw [if_pos (parts.2 ⟨next, further⟩), if_pos further, Outcome.map_matched]
    · rw [if_neg fun both => further (parts.1 both).2, if_neg further, Outcome.map_noMatch]
  · rw [if_neg fun both => next (parts.1 both).1, if_neg next, Outcome.bind_noMatch]

/-- Behind a literal, a longer one that starts with it is never reached. -/
theorem parse_literal_orElse {short long : String} (starts : short.toList <+: long.toList) :
    g.parse ((Parser.literal short).orElse (.literal long)) c = g.parse (.literal short) c := by
  rw [parse_orElse]
  by_cases next : short.toList <+: c.remaining
  · rw [parse_literal, if_pos next, Outcome.orElse_matched]
  · have refused := g.parse_literal_eq_noMatch_iff c |>.2 next
    rw [refused, Outcome.orElse_noMatch, parse_literal_eq_noMatch_iff]
    exact fun longNext => next (starts.trans longNext)

/-- **Literals are exact.** A literal matches where its text is a prefix of what is left, yields the
text, and goes on as many elements as the text has characters; everywhere else the content is
refused. To read two texts after one another and to put them together is to read the text that they
make up. As an alternative to a text, a longer one that starts with it makes no difference. -/
theorem parse_literal_exact :
    (∀ text value rest, g.parse (.literal text) c = .matched value rest ↔
      c.remaining = text.toList ++ rest.remaining ∧ value = text ∧
        rest = c.advanceBy text.length ∧ rest.position = c.position + text.length) ∧
    (∀ text, g.parse (.literal text) c = .noMatch ↔ ¬ text.toList <+: c.remaining) ∧
    (∀ first second, g.parse (.literal (first ++ second)) c =
      g.parse ((Parser.literal first).sequence (.literal second) (· ++ ·)) c) ∧
    ∀ short long, short.toList <+: long.toList →
      g.parse ((Parser.literal short).orElse (.literal long)) c = g.parse (.literal short) c := by
  refine ⟨fun text value rest => ?_, fun text => g.parse_literal_eq_noMatch_iff c,
    g.parse_literal_append c, fun short long => g.parse_literal_orElse c⟩
  rw [parse_literal_eq_matched_iff]
  constructor
  · rintro ⟨next, rfl, rfl⟩
    have inside : value.length ≤ c.remainingCount := by
      rw [← String.length_toList]
      exact Cursor.length_le_remainingCount next
    refine ⟨?_, rfl, rfl, c.position_advanceBy inside⟩
    rw [Cursor.remaining_advanceBy, ← String.length_toList]
    exact List.prefix_iff_eq_append.1 next |>.symm
  · rintro ⟨content, same, steps, -⟩
    exact ⟨⟨rest.remaining, content.symm⟩, same, steps⟩

/-- Before `üx` the alternative that takes both characters is not reached: the first one takes the
umlaut, a single character of two bytes, and stops before the letter. -/
theorem parse_literal_exact_umlaut :
    let start := Cursor.valid #['ü', 'x'] 0
    let choice := (Parser.literal "ü").orElse (.literal "üx")
    "ü".toList <+: "üx".toList ∧
      (ruleless (τ := fun _ => Nat)).parse choice start =
        (ruleless (τ := fun _ => Nat)).parse (.literal "ü") start ∧
      (ruleless (τ := fun _ => Nat)).parse choice start = .matched "ü" (.valid #['ü', 'x'] 1) := by
  intro start choice
  have starts : "ü".toList <+: "üx".toList := by decide
  have same := ((ruleless (τ := fun _ => Nat)).parse_literal_exact start).2.2.2 "ü" "üx" starts
  exact ⟨starts, same, by rw [same, parse_literal, if_pos (by decide)]; rfl⟩

end ParserCombinators.Grammar
