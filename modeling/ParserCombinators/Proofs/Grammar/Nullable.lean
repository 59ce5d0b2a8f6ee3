import ParserCombinators.Grammar.Depth
import ParserCombinators.Parser.Numeral

/-! # Parsers that may match without reading

* **`Grammar.Nullable`** — the parsers that, as far as their form tells, may match without reading an
  element. Values and predicates do not count, so a nullable parser may well never match that way.
* **`Grammar.nullable_iff`** — the same in terms of the parts of a parser.
* **`Repetition.exists_standing_round`** — a repetition that needs a round and matches where it
  stands has a round that does.
* **`Grammar.nullable_of_parse_eq_matched`** — a parser that does match without reading is nullable,
  also where rules refer to one another. -/

namespace ParserCombinators

open Outcome

variable {ε ν : Type} {τ : ν → Type}

/-- The parsers that may match without reading an element: the least family that is closed under the
ways of building parsers. -/
inductive Grammar.Nullable (g : Grammar ε τ) : {α : Type} → Parser ε τ α → Prop
  | word : g.Nullable (.word [])
  | succeed {α : Type} (value : α) : g.Nullable (.succeed value)
  | map {α β : Type} {p : Parser ε τ α} (f : α → β) : g.Nullable p → g.Nullable (p.map f)
  | filter {α : Type} {p : Parser ε τ α} (keep : α → Bool) :
      g.Nullable p → g.Nullable (p.filter keep)
  | filterMap {α β : Type} {p : Parser ε τ α} (f : α → Option β) :
      g.Nullable p → g.Nullable (p.filterMap f)
  | sequence {α β γ : Type} {p : Parser ε τ α} {q : Parser ε τ β} (combine : α → β → γ) :
      g.Nullable p → g.Nullable q → g.Nullable (p.sequence q combine)
  | apply {α β : Type} {p : Parser ε τ (α → β)} {q : Parser ε τ α} :
      g.Nullable p → g.Nullable q → g.Nullable (p.apply q)
  | orElseLeft {α : Type} {p : Parser ε τ α} (q : Parser ε τ α) :
      g.Nullable p → g.Nullable (p.orElse q)
  | orElseRight {α : Type} (p : Parser ε τ α) {q : Parser ε τ α} :
      g.Nullable q → g.Nullable (p.orElse q)
  | optional {α : Type} (p : Parser ε τ α) : g.Nullable p.optional
  | noneNeeded {α : Type} (p : Parser ε τ α) (most : Option Nat) : g.Nullable (p.repeated 0 most)
  | repeated {α : Type} {p : Parser ε τ α} (least : Nat) (most : Option Nat) :
      g.Nullable p → g.Nullable (p.repeated least most)
  | separated {α β : Type} {item : Parser ε τ α} (separator : Parser ε τ β) :
      g.Nullable item → g.Nullable (item.separated separator)
  | rule {name : ν} : g.Nullable (g.body name) → g.Nullable (.rule name)

variable {α : Type}

namespace Grammar

/-- What it takes for a parser to be nullable, in terms of its parts. -/
def NullableByParts (g : Grammar ε τ) {α : Type} : Parser ε τ α → Prop
  | .satisfy _ => False
  | .word expected => expected = []
  | .succeed _ => True
  | .map p _ => g.Nullable p
  | .filter p _ => g.Nullable p
  | .filterMap p _ => g.Nullable p
  | .sequence p q _ => g.Nullable p ∧ g.Nullable q
  | .apply p q => g.Nullable p ∧ g.Nullable q
  | .orElse p q => g.Nullable p ∨ g.Nullable q
  | .optional _ => True
  | .repeated p least _ => least = 0 ∨ g.Nullable p
  | .separated item _ => g.Nullable item
  | .rule name => g.Nullable (g.body name)

/-- A parser is nullable exactly when its parts make it so. -/
theorem nullable_iff (g : Grammar ε τ) (p : Parser ε τ α) : g.Nullable p ↔ g.NullableByParts p := by
  constructor
  · intro nullable
    cases nullable with
    | word => exact rfl
    | succeed => trivial
    | map f part => exact part
    | filter keep part => exact part
    | filterMap f part => exact part
    | sequence combine first second => exact ⟨first, second⟩
    | apply first second => exact ⟨first, second⟩
    | orElseLeft q part => exact Or.inl part
    | orElseRight p part => exact Or.inr part
    | optional => trivial
    | noneNeeded => exact Or.inl rfl
    | repeated least most part => exact Or.inr part
    | separated separator part => exact part
    | rule body => exact body
  · intro parts
    cases p with
    | satisfy => exact parts.elim
    | word expected =>
        obtain rfl : expected = [] := parts
        exact .word
    | succeed constant => exact .succeed constant
    | map p f => exact .map f parts
    | filter p keep => exact .filter keep parts
    | filterMap p f => exact .filterMap f parts
    | sequence p q combine => exact .sequence combine parts.1 parts.2
    | apply p q => exact .apply parts.1 parts.2
    | orElse p q => exact parts.elim (.orElseLeft q) (.orElseRight p)
    | optional p => exact .optional p
    | repeated p least most =>
        rcases parts with rfl | part
        · exact .noneNeeded p most
        · exact .repeated least most part
    | separated item separator => exact .separated separator parts
    | rule name => exact .rule parts

/-- A parser of a single element is not nullable. -/
theorem not_nullable_satisfy (g : Grammar ε τ) (accepts : ε → Bool) :
    ¬ g.Nullable (.satisfy accepts) :=
  (g.nullable_iff (.satisfy accepts)).1

section Characters

variable (g : Grammar Char τ)

/-- One or more digits are not nullable. -/
theorem not_nullable_digits : ¬ g.Nullable Parser.digits := by
  rw [Parser.digits, Parser.many1, nullable_iff]
  rintro (noneNeeded | digit)
  · cases noneNeeded
  · exact g.not_nullable_satisfy _ digit

/-- An unsigned numeral is not nullable. -/
theorem not_nullable_natural (range : IntRange) : ¬ g.Nullable (.natural range) := by
  rw [Parser.natural, nullable_iff]
  exact g.not_nullable_digits

/-- A signed numeral is not nullable, although its sign is. -/
theorem not_nullable_integer (range : IntRange) : ¬ g.Nullable (.integer range) := by
  rw [Parser.integer, nullable_iff, NullableByParts, Parser.both, nullable_iff]
  rintro ⟨-, digits⟩
  exact g.not_nullable_digits digits

/-- A decimal fraction is not nullable. -/
theorem not_nullable_decimal (format : BinaryFormat) : ¬ g.Nullable (.decimal format) := by
  rw [Parser.decimal, nullable_iff, NullableByParts, Parser.both, nullable_iff]
  rintro ⟨-, parts⟩
  rw [Parser.decimalString, Parser.extendPair, Parser.digitString, nullable_iff, NullableByParts,
    nullable_iff] at parts
  exact g.not_nullable_digits ((g.nullable_iff _).1 parts.2)

/-- A number is not nullable, with a fraction or without. -/
theorem not_nullable_number : ¬ g.Nullable .number := by
  rw [Parser.number, nullable_iff]
  rintro (fraction | integer)
  · exact g.not_nullable_decimal _ ((g.nullable_iff _).1 fraction)
  · exact g.not_nullable_integer _ ((g.nullable_iff _).1 integer)

end Characters

end Grammar

namespace Repetition

/-- If no further round takes place and this is a match, none was needed. -/
theorem least_eq_zero_of_stop {least : Nat} {c rest : Cursor ε} {values : List α}
    (stopped : stop least c = .matched values rest) : least = 0 := by
  unfold stop at stopped
  split at stopped
  · next none => exact none
  · cases stopped

/-- If the rounds after a first one lead back to where that one started, it stands still. -/
theorem eq_of_round_stands {c rest : Cursor ε} {value : α} {values : List α}
    {tail : Outcome ε (List α)} (forth : c.Reaches rest) (leadsOn : tail.LeadsOnFrom rest)
    (stands : tail.map (value :: ·) = .matched values c) : rest = c := by
  obtain ⟨others, found, -⟩ := map_eq_matched_iff.1 stands
  have back : rest.Reaches c := leadsOn others c found
  exact forth.antisymm back

/-- A bounded repetition that needs a round and matches where it stands has a first round that
does. -/
theorem exists_standing_round_of_upTo {attempt : Cursor ε → Outcome ε α} {limit least : Nat}
    {c : Cursor ε} {values : List α} (forward : MovesForward attempt c)
    (stands : upTo attempt limit least c = .matched values c) :
    least = 0 ∨ ∃ value, attempt c = .matched value c := by
  cases limit with
  | zero => exact Or.inl (least_eq_zero_of_stop stands)
  | succ limit =>
      rw [upTo] at stands
      cases round : attempt c with
      | matched value rest =>
          rw [round] at stands
          have forth := forward c (.refl c) value rest round
          have leadsOn := upTo_leadsOnFrom limit (least - 1) rest (forward.of_reaches forth)
          obtain rfl := eq_of_round_stands forth leadsOn stands
          exact Or.inr ⟨value, rfl⟩
      | noMatch =>
          rw [round] at stands
          exact Or.inl (least_eq_zero_of_stop stands)
      | unfinished =>
          rw [round] at stands
          cases stands

/-- An unbounded repetition that needs a round and matches where it stands has a first round that
does. -/
theorem exists_standing_round_of_unbounded {attempt : Cursor ε → Outcome ε α} {least : Nat}
    {c : Cursor ε} {values : List α} (forward : MovesForward attempt c)
    (stands : unbounded attempt least c = .matched values c) :
    least = 0 ∨ ∃ value, attempt c = .matched value c := by
  cases round : attempt c with
  | matched value rest =>
      have forth := forward c (.refl c) value rest round
      rw [unbounded_of_matched round forth] at stands
      split at stands
      · cases stands
        exact Or.inr ⟨value, rfl⟩
      · have leadsOn := unbounded_leadsOnFrom (least - 1) rest (forward.of_reaches forth)
        obtain rfl := eq_of_round_stands forth leadsOn stands
        exact Or.inr ⟨value, rfl⟩
  | noMatch =>
      rw [unbounded, round] at stands
      exact Or.inl (least_eq_zero_of_stop stands)
  | unfinished =>
      rw [unbounded, round] at stands
      cases stands

/-- A repetition that needs a round and matches where it stands has a first round that does. -/
theorem exists_standing_round {attempt : Cursor ε → Outcome ε α} {least : Nat} {most : Option Nat}
    {c : Cursor ε} {values : List α} (forward : MovesForward attempt c)
    (stands : between attempt least most c = .matched values c) :
    least = 0 ∨ ∃ value, attempt c = .matched value c := by
  cases most with
  | some limit => exact exists_standing_round_of_upTo forward stands
  | none => exact exists_standing_round_of_unbounded forward stands

end Repetition

namespace Parser

/-- An element is never read without an advance. -/
theorem readElement_ne_matched_self (accepts : ε → Bool) (c : Cursor ε) (value : ε) :
    readElement accepts c ≠ .matched value c := by
  unfold readElement
  intro stands
  cases next : c.first? with
  | none =>
      rw [next] at stands
      cases stands
  | some element =>
      rw [next] at stands
      by_cases fits : accepts element = true
      · simp only [if_pos fits] at stands
        have advanced : c.advance = c := (Outcome.matched.inj stands).2
        have fewer := c.remainingCount_advance
        have some := Cursor.remainingCount_pos_of_first? next
        rw [advanced] at fewer
        omega
      · simp only [if_neg fits] at stands
        cases stands

variable [DecidableEq ε]

/-- A word that is read without an advance is empty. -/
theorem eq_nil_of_readWord_stands {expected word : List ε} {c : Cursor ε}
    (stands : readWord expected c = .matched word c) : expected = [] := by
  rw [readWord_eq] at stands
  split at stands
  · next isNext =>
      have advanced : c.advanceBy expected.length = c := (Outcome.matched.inj stands).2
      have inside := Cursor.length_le_remainingCount isNext
      have fewer := c.remainingCount_advanceBy expected.length
      rw [advanced] at fewer
      exact List.eq_nil_of_length_eq_zero (by omega)
  · cases stands

/-- If a second parser leads back to where the first one started, the first one stands still. -/
theorem eq_of_parseWith_back {call : (name : ν) → Cursor ε → Outcome ε (τ name)}
    (forward : ∀ name d, (call name d).LeadsOnFrom d) {β : Type} {p : Parser ε τ α}
    {q : Parser ε τ β} {c middle : Cursor ε} {first : α} {second : β}
    (forth : p.parseWith call c = .matched first middle)
    (back : q.parseWith call middle = .matched second c) : middle = c :=
  Cursor.Reaches.antisymm (parseWith_leadsOnFrom forward p c first middle forth)
    (parseWith_leadsOnFrom forward q middle second c back)

end Parser

namespace Grammar

variable [DecidableEq ε]

/-- A parser that matches where it stands is nullable, if that is so for the rules. -/
theorem nullable_of_parseWith_eq_matched (g : Grammar ε τ)
    {call : (name : ν) → Cursor ε → Outcome ε (τ name)}
    (forward : ∀ name d, (call name d).LeadsOnFrom d)
    (rules : ∀ name d value, call name d = .matched value d → g.Nullable (.rule name))
    (p : Parser ε τ α) {c : Cursor ε} {value : α}
    (stands : p.parseWith call c = .matched value c) : g.Nullable p := by
  induction p with
  | satisfy accepts => exact absurd stands (Parser.readElement_ne_matched_self accepts c value)
  | word expected =>
      rw [Parser.eq_nil_of_readWord_stands stands]
      exact .word
  | succeed constant => exact .succeed constant
  | map p f ih =>
      obtain ⟨_, found, -⟩ := map_eq_matched_iff.1 stands
      exact .map f (ih found)
  | filter p keep ih =>
      -- what a filter adds to a match stays where the match ended
      obtain ⟨value, middle, found, kept⟩ := bind_eq_matched_iff.1 stands
      split at kept
      · cases kept
        exact .filter keep (ih found)
      · cases kept
  | filterMap p f ih =>
      obtain ⟨value, middle, found, kept⟩ := bind_eq_matched_iff.1 stands
      split at kept
      · cases kept
        exact .filterMap f (ih found)
      · cases kept
  | sequence p q combine ihp ihq =>
      obtain ⟨first, middle, foundFirst, further⟩ := bind_eq_matched_iff.1 stands
      obtain ⟨second, foundSecond, -⟩ := map_eq_matched_iff.1 further
      obtain rfl := Parser.eq_of_parseWith_back forward foundFirst foundSecond
      exact .sequence combine (ihp foundFirst) (ihq foundSecond)
  | apply p q ihp ihq =>
      obtain ⟨f, middle, foundFirst, further⟩ := bind_eq_matched_iff.1 stands
      obtain ⟨argument, foundSecond, -⟩ := map_eq_matched_iff.1 further
      obtain rfl := Parser.eq_of_parseWith_back forward foundFirst foundSecond
      exact .apply (ihp foundFirst) (ihq foundSecond)
  | orElse p q ihp ihq =>
      rcases orElse_eq_matched_iff.1 stands with found | ⟨-, found⟩
      · exact .orElseLeft q (ihp found)
      · exact .orElseRight p (ihq found)
  | optional p ih => exact .optional p
  | repeated p least most ih =>
      rcases Repetition.exists_standing_round
        (fun d _ => Parser.parseWith_leadsOnFrom forward p d) stands with rfl | ⟨value, found⟩
      · exact .noneNeeded p most
      · exact .repeated least most (ih found)
  | separated item separator ihItem ihSeparator =>
      obtain ⟨first, middle, found, further⟩ := bind_eq_matched_iff.1 stands
      obtain ⟨others, foundOthers, -⟩ := map_eq_matched_iff.1 further
      have forth := Parser.parseWith_leadsOnFrom forward item c first middle found
      have back := Repetition.whileAdvancing_leadsOnFrom middle
        (.followed (fun d _ => Parser.parseWith_leadsOnFrom forward separator d)
          fun d _ => Parser.parseWith_leadsOnFrom forward item d) others c foundOthers
      obtain rfl := forth.antisymm back
      exact .separated separator (ihItem found)
  | rule name => exact rules name c value stands

/-- A rule that matches where it stands is nullable, to every depth. -/
theorem nullable_of_callTo_eq_matched (g : Grammar ε τ) (depth : Nat) (name : ν) {c : Cursor ε}
    {value : τ name} (stands : g.callTo depth name c = .matched value c) :
    g.Nullable (.rule name) := by
  induction depth generalizing name c with
  | zero => cases stands
  | succ depth ih =>
      exact .rule (g.nullable_of_parseWith_eq_matched (g.callTo_leadsOnFrom depth)
        (fun inner _ _ found => ih inner found) (g.body name) stands)

/-- **A parser that matches without reading an element is nullable.** -/
theorem nullable_of_parse_eq_matched (g : Grammar ε τ) (p : Parser ε τ α) {c : Cursor ε}
    {value : α} (stands : g.parse p c = .matched value c) : g.Nullable p :=
  g.nullable_of_parseWith_eq_matched (g.callTo_leadsOnFrom _)
    (fun name _ _ found => g.nullable_of_callTo_eq_matched _ name found) p stands

end Grammar

end ParserCombinators
