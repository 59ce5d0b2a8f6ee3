import ParserCombinators.Grammar.Depth

/-! # How each kind of parser reads

One equation for each way of building a parser: what `Grammar.parse` makes of it in terms of what it
makes of the parts. Together with `Grammar.parse_rule` they determine every reading that ends. -/

namespace ParserCombinators.Grammar

variable {ε ν : Type} {τ : ν → Type} {α β γ : Type} [DecidableEq ε]
  (g : Grammar ε τ) (c : Cursor ε)

/-- A single element is read as the predicate says. -/
@[simp] theorem parse_satisfy (accepts : ε → Bool) :
    g.parse (.satisfy accepts) c = Parser.readElement accepts c := rfl

/-- A word is read element by element. -/
@[simp] theorem parse_word (expected : List ε) :
    g.parse (.word expected) c = Parser.readWord expected c := rfl

/-- A value that needs no reading matches where it stands. -/
@[simp] theorem parse_succeed (value : α) : g.parse (.succeed value) c = .matched value c := rfl

/-- A changed value is the value of the same match, changed. -/
@[simp] theorem parse_map (p : Parser ε τ α) (f : α → β) :
    g.parse (p.map f) c = (g.parse p c).map f := rfl

/-- A filter refuses the values that are not to be kept. -/
theorem parse_filter (p : Parser ε τ α) (keep : α → Bool) :
    g.parse (p.filter keep) c = (g.parse p c).bind fun value rest =>
      if keep value then .matched value rest else .noMatch := rfl

/-- A partial change refuses the values where it is undefined. -/
theorem parse_filterMap (p : Parser ε τ α) (f : α → Option β) :
    g.parse (p.filterMap f) c = (g.parse p c).bind fun value rest =>
      match f value with
      | some changed => .matched changed rest
      | none => .noMatch := rfl

/-- In a sequence the second parser reads where the first one stopped. -/
theorem parse_sequence (p : Parser ε τ α) (q : Parser ε τ β) (combine : α → β → γ) :
    g.parse (p.sequence q combine) c =
      (g.parse p c).bind fun first rest => (g.parse q rest).map (combine first) := by
  simp only [g.parse_eq_parseWith (p.sequence q combine), g.parse_eq_parseWith p,
    g.parse_eq_parseWith q, Parser.parseWith]

/-- The argument is read where the function stopped. -/
theorem parse_apply (p : Parser ε τ (α → β)) (q : Parser ε τ α) :
    g.parse (p.apply q) c = (g.parse p c).bind fun f rest => (g.parse q rest).map f := by
  simp only [g.parse_eq_parseWith (p.apply q), g.parse_eq_parseWith p, g.parse_eq_parseWith q,
    Parser.parseWith]

/-- The alternative reads where the first parser started. -/
theorem parse_orElse (p q : Parser ε τ α) :
    g.parse (p.orElse q) c = (g.parse p c).orElse fun _ => g.parse q c := rfl

/-- Where an optional parser refuses the content, nothing is read. -/
theorem parse_optional (p : Parser ε τ α) :
    g.parse p.optional c = ((g.parse p c).map some).orElse fun _ => .matched none c := rfl

/-- A repeated parser is attempted again where it stopped. -/
theorem parse_repeated (p : Parser ε τ α) (least : Nat) (most : Option Nat) :
    g.parse (p.repeated least most) c = Repetition.between (g.parse p) least most c := by
  rw [g.parse_eq_parseWith, Parser.parseWith]
  congr 1
  funext d
  exact (g.parse_eq_parseWith p d).symm

/-- A separated list attempts its item and its separator in turn. -/
theorem parse_separated (item : Parser ε τ α) (separator : Parser ε τ β) :
    g.parse (item.separated separator) c =
      Repetition.separated (g.parse item) (g.parse separator) c := by
  rw [g.parse_eq_parseWith, Parser.parseWith]
  congr 1
  · funext d
    exact (g.parse_eq_parseWith item d).symm
  · funext d
    exact (g.parse_eq_parseWith separator d).symm

end ParserCombinators.Grammar
