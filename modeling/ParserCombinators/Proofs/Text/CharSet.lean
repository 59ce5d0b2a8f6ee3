import Mathlib.Data.Char
import Mathlib.Order.Interval.Set.Basic
import ParserCombinators.Parser.Character
import ParserCombinators.Proofs.Repetition.Span

/-! # Sets of characters mean sets

A set of characters is stored as the ranges that it was given, in their order, and they may overlap,
be repeated or hold nothing. For membership none of this matters: however a set is put together, its
members are those of the ranges and the characters that it was put together from.

* **`CharSetExpr`** — the ways in which sets are put together; **`CharSetExpr.toCharSet`** — the set
  that is stored; **`CharSetExpr.members`** — the characters that are meant.
* **`CharSet.contains_iff`** — membership is membership in one of the ranges.
* **`CharSetExpr.contains_toCharSet_iff`** — the members are the characters that are meant.
* **`CharSetExpr.operands`** — what unions are built of, without their order and grouping.
* **`Grammar.parse_oneOf_eq_matched_iff`**, **`Grammar.parse_oneOf_eq_noMatch_iff`** — a character of
  a set is read exactly where one comes next.
* **`Grammar.parse_oneOf_union`** — a character of a union is a character of one set or the other.
* **`CharSetExpr.denotes_members`** — all of this together. -/

namespace ParserCombinators

/-- A way in which a set of characters is put together. -/
inductive CharSetExpr where
  /-- The characters from a first one to a last one. -/
  | range (first last : Char)
  /-- The characters of some ranges. -/
  | ranges (given : List CharRange)
  /-- The characters of a text. -/
  | text (listed : String)
  /-- The characters of a list. -/
  | chars (listed : List Char)
  /-- The digits `0` to `9`. -/
  | decimalDigits
  /-- The digits `0` to `9` and the letters `a` to `f` in either case. -/
  | hexDigits
  /-- The signs. -/
  | signs
  /-- The double quote. -/
  | quotes
  /-- The characters after which a line ends. -/
  | newlines
  /-- The characters of either of two sets. -/
  | union (left right : CharSetExpr)

namespace CharSet

/-- The members of a set are those of its ranges. -/
theorem contains_iff {set : CharSet} {c : Char} :
    set.contains c = true ↔ ∃ range ∈ set.ranges, c ∈ Set.Icc range.first range.last := by
  simp [contains, CharRange.contains]

/-- The members of a set that is given by a list are the members of the list. -/
theorem contains_ofList_iff {listed : List Char} {c : Char} :
    (ofList listed).contains c = true ↔ c ∈ listed := by
  simp [contains_iff, ofList, CharRange.single, -Set.mem_Icc]

/-- Unions may be grouped in any way: the same ranges are stored in the same order. -/
theorem union_assoc (s t u : CharSet) : (s.union t).union u = s.union (t.union u) := by
  rw [union, union, union, union, List.append_assoc]

end CharSet

namespace CharSetExpr

/-- The set that is stored. -/
def toCharSet : CharSetExpr → CharSet
  | range first last => .ofRange first last
  | ranges given => ⟨given⟩
  | text listed => .ofString listed
  | chars listed => .ofList listed
  | decimalDigits => .decimalDigits
  | hexDigits => .hexDigits
  | signs => .signs
  | quotes => .quotes
  | newlines => .newlines
  | union left right => left.toCharSet.union right.toCharSet

/-- The characters that are meant. There are none between bounds that are reversed. -/
def members : CharSetExpr → Set Char
  | range first last => Set.Icc first last
  | ranges given => {c | ∃ range ∈ given, c ∈ Set.Icc range.first range.last}
  | text listed => {c | c ∈ listed.toList}
  | chars listed => {c | c ∈ listed}
  | decimalDigits => Set.Icc '0' '9'
  | hexDigits => Set.Icc '0' '9' ∪ Set.Icc 'a' 'f' ∪ Set.Icc 'A' 'F'
  | signs => {'+', '-'}
  | quotes => {'"'}
  | newlines => Set.Icc '\n' '\r' ∪ Set.Icc '\u0085' '\u0085' ∪ Set.Icc '\u2028' '\u2029'
  | union left right => left.members ∪ right.members

/-- What a union is built of, from left to right; anything else is built of itself. -/
def operands : CharSetExpr → List CharSetExpr
  | union left right => left.operands ++ right.operands
  | other => [other]

/-- **The members of a set are the characters that are meant.** -/
theorem contains_toCharSet_iff (e : CharSetExpr) (c : Char) :
    e.toCharSet.contains c = true ↔ c ∈ e.members := by
  induction e with
  | range first last => simp [toCharSet, members, CharSet.contains_iff, CharSet.ofRange]
  | ranges given => exact CharSet.contains_iff
  | text listed => exact CharSet.contains_ofList_iff
  | chars listed => exact CharSet.contains_ofList_iff
  | decimalDigits => simp [toCharSet, members, CharSet.contains_iff, CharSet.decimalDigits,
      CharSet.ofRange]
  | hexDigits => simp [toCharSet, members, CharSet.contains_iff, CharSet.hexDigits, or_assoc]
  | signs => simp [toCharSet, members, CharSet.contains_iff, CharSet.signs, -Set.mem_Icc]
  | quotes => simp [toCharSet, members, CharSet.contains_iff, CharSet.quotes, -Set.mem_Icc]
  | newlines => simp [toCharSet, members, CharSet.contains_iff, CharSet.newlines, or_assoc,
      -Set.mem_Icc, -Set.Icc_self]
  | union left right ihLeft ihRight =>
      rw [toCharSet, CharSet.contains_union, Bool.or_eq_true, ihLeft, ihRight]
      rfl

/-- The characters that are meant are those of the operands. -/
theorem mem_members_iff {e : CharSetExpr} {c : Char} :
    c ∈ e.members ↔ ∃ operand ∈ e.operands, c ∈ operand.members := by
  induction e with
  | union left right ihLeft ihRight =>
      rw [members, Set.mem_union, ihLeft, ihRight, operands]
      simp only [List.mem_append, or_and_right, exists_or]
  | _ => simp [operands]

/-- Sets that are built of the same operands have the same members, whatever the order, the grouping
and the number of times of the operands. -/
theorem contains_eq_of_operands {e f : CharSetExpr}
    (same : ∀ operand, operand ∈ e.operands ↔ operand ∈ f.operands) :
    e.toCharSet.contains = f.toCharSet.contains := by
  funext c
  rw [Bool.eq_iff_iff, contains_toCharSet_iff, contains_toCharSet_iff, mem_members_iff,
    mem_members_iff]
  simp only [same]

end CharSetExpr

namespace Grammar

variable {ν : Type} {τ : ν → Type} (g : Grammar Char τ) (c : Cursor Char)

/-- To read a character of a set is to read the next character, if it is a member. -/
theorem parse_oneOf_eq_matched_iff (s : CharSet) {char : Char} {rest : Cursor Char} :
    g.parse (.oneOf s) c = .matched char rest ↔
      c.first? = some char ∧ s.contains char = true ∧ rest = c.advance := by
  rw [Parser.oneOf, parse_satisfy, Parser.readElement]
  cases c.first? with
  | none => simp
  | some next =>
      by_cases member : s.contains next = true
      · simp only [if_pos member, Outcome.matched.injEq, Option.some.injEq]
        constructor
        · rintro ⟨rfl, rfl⟩
          exact ⟨rfl, member, rfl⟩
        · rintro ⟨rfl, -, rfl⟩
          exact ⟨rfl, rfl⟩
      · simp only [if_neg member, reduceCtorEq, Option.some.injEq, false_iff]
        rintro ⟨rfl, member', -⟩
        exact member member'

/-- No character of a set is read exactly where the next character, if there is one, is no member. -/
theorem parse_oneOf_eq_noMatch_iff (s : CharSet) :
    g.parse (.oneOf s) c = .noMatch ↔ ∀ char, c.first? = some char → s.contains char ≠ true := by
  rw [Parser.oneOf, parse_satisfy, Parser.readElement]
  cases c.first? with
  | none => simp
  | some next => by_cases member : s.contains next = true <;> simp [member]

/-- A character of a union is a character of the one set or else of the other. -/
theorem parse_oneOf_union (s t : CharSet) :
    g.parse (.oneOf (s.union t)) c = g.parse ((Parser.oneOf s).orElse (.oneOf t)) c := by
  rw [parse_orElse, Parser.oneOf, Parser.oneOf, Parser.oneOf, parse_satisfy, parse_satisfy,
    parse_satisfy]
  cases content : c.remaining with
  | nil => simp only [Parser.readElement_of_remaining_eq_nil _ content, Outcome.orElse_noMatch]
  | cons head tail =>
      simp only [Parser.readElement_of_remaining_eq_cons _ content, CharSet.contains_union,
        Bool.or_eq_true]
      by_cases inFirst : s.contains head = true
      · rw [if_pos (Or.inl inFirst), if_pos inFirst, Outcome.orElse_matched]
      · simp only [inFirst, false_or, Bool.false_eq_true, if_false, Outcome.orElse_noMatch]

/-- Characters of a union, as many as there are, are characters of either set. -/
theorem parse_many_oneOf_union (s t : CharSet) :
    g.parse (Parser.oneOf (s.union t)).many c =
      g.parse ((Parser.oneOf s).orElse (.oneOf t)).many c := by
  have same : g.parse (.oneOf (s.union t)) = g.parse ((Parser.oneOf s).orElse (.oneOf t)) :=
    funext fun d => g.parse_oneOf_union d s t
  rw [Parser.many, Parser.many, parse_repeated, parse_repeated, same]

end Grammar

namespace CharSetExpr

/-- **Sets of characters mean sets.** However a set is put together, its members are the characters
that are meant. So the order, the grouping and the repetition of the operands of unions do not matter
for membership, and the grouping does not matter for what is stored either. A character of the set is
read exactly where one of these comes next. To read a character of a union is to read one of the first
set or else one of the second, and to read many is to repeat that choice. -/
theorem denotes_members :
    (∀ (e : CharSetExpr) (c : Char), e.toCharSet.contains c = true ↔ c ∈ e.members) ∧
    (∀ e f : CharSetExpr, (∀ operand, operand ∈ e.operands ↔ operand ∈ f.operands) →
      e.toCharSet.contains = f.toCharSet.contains) ∧
    (∀ s t u : CharSet, (s.union t).union u = s.union (t.union u)) ∧
    (∀ {ν : Type} {τ : ν → Type} (g : Grammar Char τ) (c : Cursor Char) (e : CharSetExpr),
      (∀ char rest, g.parse (.oneOf e.toCharSet) c = .matched char rest ↔
        c.first? = some char ∧ char ∈ e.members ∧ rest = c.advance) ∧
      (g.parse (.oneOf e.toCharSet) c = .noMatch ↔
        ∀ char, c.first? = some char → char ∉ e.members)) ∧
    ∀ {ν : Type} {τ : ν → Type} (g : Grammar Char τ) (c : Cursor Char) (s t : CharSet),
      g.parse (.oneOf (s.union t)) c = g.parse ((Parser.oneOf s).orElse (.oneOf t)) c ∧
      g.parse (Parser.oneOf (s.union t)).many c =
        g.parse ((Parser.oneOf s).orElse (.oneOf t)).many c := by
  refine ⟨contains_toCharSet_iff, fun _ _ => contains_eq_of_operands, CharSet.union_assoc,
    fun g c e => ⟨fun char rest => ?_, ?_⟩,
    fun g c s t => ⟨g.parse_oneOf_union c s t, g.parse_many_oneOf_union c s t⟩⟩
  · rw [Grammar.parse_oneOf_eq_matched_iff, contains_toCharSet_iff]
  · simp only [Grammar.parse_oneOf_eq_noMatch_iff, Ne, contains_toCharSet_iff]

/-- Three operands, one of them with reversed bounds, and the same in another order and grouping with
one of them repeated: what is stored differs, the members do not. A character between the reversed
bounds is refused, and one of another operand is read. -/
theorem denotes_members_reordered :
    let e := (range 'c' 'a').union ((text "ab").union (range 'x' 'z'))
    let f := ((range 'x' 'z').union (text "ab")).union ((range 'c' 'a').union (text "ab"))
    let g := Grammar.ruleless (ε := Char) (τ := fun _ => Nat)
    (∀ operand, operand ∈ e.operands ↔ operand ∈ f.operands) ∧ e.toCharSet ≠ f.toCharSet ∧
      e.toCharSet.contains = f.toCharSet.contains ∧
      g.parse (.oneOf f.toCharSet) (.valid #['y', 'c'] 0) = .matched 'y' (.valid #['y', 'c'] 1) ∧
      g.parse (.oneOf f.toCharSet) (.valid #['y', 'c'] 1) = .noMatch := by
  intro e f g
  have same : ∀ operand, operand ∈ e.operands ↔ operand ∈ f.operands := by
    intro operand
    simp only [e, f, operands, List.mem_append, List.mem_singleton]
    grind
  have y : 'y' ∈ f.members := (contains_toCharSet_iff f 'y').1 (by decide)
  have c : 'c' ∉ f.members := mt (contains_toCharSet_iff f 'c').2 (by decide)
  refine ⟨same, by decide, denotes_members.2.1 e f same, ?_, ?_⟩
  · exact ((denotes_members.2.2.2.1 g _ f).1 'y' _).2 ⟨rfl, y, rfl⟩
  · refine (denotes_members.2.2.2.1 g _ f).2.2 fun char next => ?_
    cases next
    exact c

end CharSetExpr

end ParserCombinators
