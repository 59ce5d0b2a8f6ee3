import ParserCombinators.Proofs.Grammar.Recognition

/-! # Separated lists as repetitions

A separated list gathers its items in a loop of its own, which keeps the cursor before a separator
until an item has been read behind it. Where a separator and an item always advance, this is one item
and then the greedy repetition of a separator and an item.

* **`Grammar.parse_keepRight`**, **`Grammar.parse_lift₂`** — how the parts of that sequence read.
* **`Grammar.parse_separated_eq_bind`** — a list is an item and what the loop gathers behind it.
* **`Grammar.ItemsFrom`** — items in a row, with a separator before each of them but the first.
* **`Grammar.itemsFrom_of_whileAdvancing`**, **`Grammar.ItemsFrom.exists_whileAdvancing`** — the loop
  gathers the items that stand in a row, up to where no further one stands, in both directions.
* **`Grammar.parse_separated_eq_lift₂_many`** — the list and the sequence read the same, and a list
  ends right behind an item. -/

namespace ParserCombinators.Grammar

open Outcome Repetition

variable {ε ν : Type} {τ : ν → Type} {α β γ : Type} [DecidableEq ε] (g : Grammar ε τ)

/-! ## One item and then any number of separators and items -/

/-- A sequence for its second value is read in turn and yields what the second parser does. -/
theorem parse_keepRight (p : Parser ε τ α) (q : Parser ε τ β) (c : Cursor ε) :
    g.parse (p.keepRight q) c = (g.parse p c).bind fun _ rest => g.parse q rest := by
  rw [Parser.keepRight, parse_sequence]
  congr 1
  funext first rest
  exact map_id (g.parse q rest)

/-- A function of two arguments is applied to what two parsers yield in turn. -/
theorem parse_lift₂ (f : α → β → γ) (p : Parser ε τ α) (q : Parser ε τ β) (c : Cursor ε) :
    g.parse (.lift₂ f p q) c =
      (g.parse p c).bind fun first rest => (g.parse q rest).map (f first) := by
  rw [← parse_sequence]
  exact Parser.parseWith_lift₂ f p q c

/-- A list is an item and what the loop gathers behind it. -/
theorem parse_separated_eq_bind (item : Parser ε τ α) (separator : Parser ε τ β) (c : Cursor ε) :
    g.parse (item.separated separator) c =
      (g.parse item c).bind fun first rest =>
        (whileAdvancing (g.parse (separator.keepRight item)) rest).map (first :: ·) := by
  rw [parse_separated, Repetition.separated, funext (g.parse_keepRight separator item)]

variable {g} {item : Parser ε τ α} {separator : Parser ε τ β}

/-- The loop of a list is any number of separators and items, if these advance. -/
theorem whileAdvancing_eq_parse_many (advances : g.AlwaysAdvances (separator.keepRight item))
    (c : Cursor ε) :
    whileAdvancing (g.parse (separator.keepRight item)) c =
      g.parse (separator.keepRight item).many c := by
  rw [parse_many]
  exact whileAdvancing_eq_unbounded (fun d _ => g.parse_leadsOnFrom _ d) advances

/-- A separator and an item are refused if the separator is, or the item behind it. -/
theorem parse_keepRight_eq_noMatch_iff {c : Cursor ε} :
    g.parse (separator.keepRight item) c = .noMatch ↔
      g.parse separator c = .noMatch ∨
        ∃ between after, g.parse separator c = .matched between after ∧
          g.parse item after = .noMatch := by
  rw [parse_keepRight]
  cases g.parse separator c with
  | matched between after =>
      rw [bind_matched]
      constructor
      · intro refused
        exact Or.inr ⟨between, after, rfl, refused⟩
      · rintro (refused | ⟨_, _, same, refused⟩)
        · cases refused
        · cases same
          exact refused
  | noMatch => simp
  | unfinished => simp

/-! ## Where the items stand -/

/-- Items in a row: one that is read at the first cursor, and each further one behind a separator.
The row ends where the last item does. -/
inductive ItemsFrom (g : Grammar ε τ) (item : Parser ε τ α) (separator : Parser ε τ β) :
    Cursor ε → List α → Cursor ε → Prop
  /-- The last item. -/
  | last {c e : Cursor ε} {value : α} :
      g.parse item c = .matched value e → g.ItemsFrom item separator c [value] e
  /-- An item, a separator, and further items behind it. -/
  | more {c d after e : Cursor ε} {value : α} {between : β} {values : List α} :
      g.parse item c = .matched value d → g.parse separator d = .matched between after →
        g.ItemsFrom item separator after values e →
          g.ItemsFrom item separator c (value :: values) e

/-- Behind an item, the loop gathers the items that stand in a row, and stops where no further one
stands. -/
theorem itemsFrom_of_whileAdvancing {c d e : Cursor ε} {value : α} {values : List α}
    (first : g.parse item c = .matched value d)
    (gathered : whileAdvancing (g.parse (separator.keepRight item)) d = .matched values e) :
    g.ItemsFrom item separator c (value :: values) e ∧
      g.parse (separator.keepRight item) e = .noMatch := by
  induction d using whileAdvancing.induct (g.parse (separator.keepRight item))
    generalizing c value values with
  | case1 d next rest round advances ih =>
      rw [whileAdvancing, round] at gathered
      simp only [if_pos advances] at gathered
      obtain ⟨others, gathered', rfl⟩ := map_eq_matched_iff.1 gathered
      -- the next item starts behind the separator
      rw [parse_keepRight] at round
      obtain ⟨between, after, foundSeparator, foundItem⟩ := bind_eq_matched_iff.1 round
      obtain ⟨row, nothing⟩ := ih foundItem gathered'
      exact ⟨.more first foundSeparator row, nothing⟩
  | case2 d next rest round stands =>
      rw [whileAdvancing, round] at gathered
      simp [if_neg stands] at gathered
  | case3 d round =>
      rw [whileAdvancing, round] at gathered
      cases gathered
      exact ⟨.last first, round⟩
  | case4 d round =>
      rw [whileAdvancing, round] at gathered
      cases gathered

/-- Items in a row up to where no further one stands are gathered: the first one by itself, and the
others by the loop. -/
theorem ItemsFrom.exists_whileAdvancing (advances : g.AlwaysAdvances (separator.keepRight item))
    {c e : Cursor ε} {values : List α} (row : g.ItemsFrom item separator c values e)
    (nothing : g.parse (separator.keepRight item) e = .noMatch) :
    ∃ first d others, g.parse item c = .matched first d ∧ values = first :: others ∧
      whileAdvancing (g.parse (separator.keepRight item)) d = .matched others e := by
  induction row with
  | @last c e value first =>
      refine ⟨value, e, [], first, rfl, ?_⟩
      rw [whileAdvancing, nothing]
  | @more c d after e value between values first foundSeparator _ ih =>
      obtain ⟨next, rest, others, foundItem, rfl, gathered⟩ := ih nothing
      have round : g.parse (separator.keepRight item) d = .matched next rest := by
        rw [parse_keepRight, foundSeparator, bind_matched, foundItem]
      have reaches := g.parse_leadsOnFrom _ d next rest round
      have fewer := reaches.remainingCount_lt (advances d next rest round)
      refine ⟨value, d, next :: others, first, rfl, ?_⟩
      rw [whileAdvancing, round]
      simp only [if_pos fewer, gathered, map_matched]

/-- A list is what stands in a row of items up to where no further one stands. -/
theorem parse_separated_eq_matched_iff (advances : g.AlwaysAdvances (separator.keepRight item))
    {c e : Cursor ε} {values : List α} :
    g.parse (item.separated separator) c = .matched values e ↔
      g.ItemsFrom item separator c values e ∧
        g.parse (separator.keepRight item) e = .noMatch := by
  rw [parse_separated_eq_bind]
  constructor
  · intro found
    obtain ⟨first, d, foundItem, further⟩ := bind_eq_matched_iff.1 found
    obtain ⟨others, gathered, rfl⟩ := map_eq_matched_iff.1 further
    exact itemsFrom_of_whileAdvancing foundItem gathered
  · rintro ⟨row, nothing⟩
    obtain ⟨first, d, others, foundItem, rfl, gathered⟩ :=
      row.exists_whileAdvancing advances nothing
    rw [foundItem, bind_matched, gathered, map_matched]

/-- A list is refused exactly where its first item is: further items do not make it fail. -/
theorem parse_separated_eq_noMatch_iff {c : Cursor ε} :
    g.parse (item.separated separator) c = .noMatch ↔ g.parse item c = .noMatch := by
  rw [parse_separated_eq_bind]
  cases g.parse item c with
  | matched first d => simp [whileAdvancing_ne_noMatch]
  | noMatch => simp
  | unfinished => simp

/-- **A separated list is one item and then the greedy repetition of a separator and an item**, if
these always advance when they are read in turn: both readings yield the same items and end at the
same cursor, both are refused, or neither ends. The list is what stands in a row of items, and it ends
right behind the last of them: no separator is taken without an item, and at the end either no
separator follows or no item behind it. -/
theorem parse_separated_eq_lift₂_many (advances : g.AlwaysAdvances (separator.keepRight item))
    (c : Cursor ε) :
    g.parse (item.separated separator) c =
        g.parse (.lift₂ List.cons item (separator.keepRight item).many) c ∧
      (∀ values e, g.parse (item.separated separator) c = .matched values e ↔
        g.ItemsFrom item separator c values e ∧
          (g.parse separator e = .noMatch ∨
            ∃ between after, g.parse separator e = .matched between after ∧
              g.parse item after = .noMatch)) ∧
      (g.parse (item.separated separator) c = .noMatch ↔ g.parse item c = .noMatch) := by
  refine ⟨?_, fun values e => ?_, parse_separated_eq_noMatch_iff⟩
  · rw [parse_separated_eq_bind, parse_lift₂]
    simp only [whileAdvancing_eq_parse_many advances]
  · rw [parse_separated_eq_matched_iff advances, parse_keepRight_eq_noMatch_iff]

/-- A separator of two colons always advances, whatever is read behind it. -/
theorem alwaysAdvances_colons (item : Parser Char (fun _ : Empty => Nat) α) :
    (ruleless (τ := fun _ => Nat)).AlwaysAdvances ((Parser.word [':', ':']).keepRight item) := by
  refine alwaysAdvances_of_not_nullable fun nullable => ?_
  have colons := (nullable_iff _ _).1 ((nullable_iff _ _).1 nullable).1
  exact List.cons_ne_nil _ _ colons

/-- In `1::23::x` the digits `1` and `23` are read as a list and as a sequence; both end before the
second separator, because no digit follows it. -/
theorem parse_separated_eq_lift₂_many_digits :
    let colons := Parser.word [':', ':']
    let start := Cursor.valid #['1', ':', ':', '2', '3', ':', ':', 'x'] 0
    let behind := Cursor.valid #['1', ':', ':', '2', '3', ':', ':', 'x'] 5
    (ruleless (τ := fun _ => Nat)).AlwaysAdvances (colons.keepRight Parser.digits) ∧
      ruleless.parse (Parser.digits.separated colons) start = .matched [['1'], ['2', '3']] behind ∧
      ruleless.parse (.lift₂ List.cons Parser.digits (colons.keepRight Parser.digits).many) start =
        .matched [['1'], ['2', '3']] behind ∧
      ruleless.ItemsFrom Parser.digits colons start [['1'], ['2', '3']] behind := by
  intro colons start behind
  have advances := alwaysAdvances_colons Parser.digits
  have list : ruleless.parse (Parser.digits.separated colons) start =
      .matched [['1'], ['2', '3']] behind := by cbv
  have both := parse_separated_eq_lift₂_many advances start
  exact ⟨advances, list, both.1.symm.trans list, ((both.2.1 _ behind).1 list).1⟩

end ParserCombinators.Grammar
