import ParserCombinators.Grammar.Depth
import ParserCombinators.Parser.Numeral
import ParserCombinators.Proofs.Repetition.Parallel

/-! # Values do not steer a reading

What a reading does next depends on the cursor and on whether the parts matched, never on a value
that was made of them. Only a filter looks at values, and the only filters allowed here are those
inside numerals, which are part of what a numeral is.

* **`Outcome.course`** — an outcome without its value.
* **`Numeral`** — the parsers of numerals, each a unit of its own.
* **`Parser.SameShape`** — two parsers that read alike and make different values of it. The types of
  the values may differ throughout, those of the rules included.
* **`Grammar.parse_course_eq`** — parsers of the same shape take the same course at every cursor. -/

namespace ParserCombinators

open Outcome Repetition

variable {ε ν : Type} {τ τ' : ν → Type} {α α' : Type}

/-! ## Outcomes without their values -/

namespace Outcome

/-- An outcome without its value: whether there is a match, a refusal or no end, and the cursor
after a match. -/
def course (outcome : Outcome ε α) : Outcome ε Unit :=
  outcome.map fun _ => ()

/-- Values that need not have anything in common. -/
def Unrelated (_ : α) (_ : α') : Prop :=
  True

namespace Parallel

variable {related : α → α' → Prop} {c : Cursor ε} {first : Outcome ε α} {second : Outcome ε α'}

/-- Parallel readings stay parallel when the values are looked at no more. -/
theorem unrelated (parallel : Parallel related c c first second) :
    Parallel Unrelated c c first second := by
  cases parallel with
  | matched values count inside => exact .matched trivial count inside
  | noMatch => exact .noMatch
  | unfinished => exact .unfinished

/-- Parallel readings from one cursor take the same course. -/
theorem course_eq (parallel : Parallel related c c first second) :
    first.course = second.course := by
  cases parallel <;> rfl

/-- A reading runs in parallel to itself. -/
theorem of_leadsOnFrom (leadsOn : first.LeadsOnFrom c) : Parallel Unrelated c c first first := by
  cases first with
  | matched value rest =>
      obtain ⟨count, inside, rfl⟩ := leadsOn value rest rfl
      exact .matched trivial count inside
  | noMatch => exact .noMatch
  | unfinished => exact .unfinished

end Parallel

end Outcome

/-- Attempts that run in parallel at every cursor do so from every cursor. -/
theorem Repetition.ParallelFrom.of_forall {related : α → α' → Prop}
    {attempt : Cursor ε → Outcome ε α} {attempt' : Cursor ε → Outcome ε α'}
    (parallel : ∀ d, Parallel related d d (attempt d) (attempt' d)) (c : Cursor ε) :
    ParallelFrom related attempt attempt' c c where
  sameCount := rfl
  afterSteps := fun count _ => parallel (c.advanceBy count)

/-! ## Parsers of the same shape -/

/-- The parsers of numerals. Each refuses a numeral for what it denotes, so its value belongs to
what it reads. -/
inductive Numeral : Type → Type → Type 1 where
  /-- An unsigned integer of a range. -/
  | natural (range : IntRange) : Numeral Char Int
  /-- An integer of a range. -/
  | integer (range : IntRange) : Numeral Char Int
  /-- A decimal fraction of a binary format. -/
  | decimal (format : BinaryFormat) : Numeral Char (BitVec format.width)
  /-- A decimal fraction or an integer. -/
  | number : Numeral Char Number

/-- The parser of a numeral. -/
def Numeral.parser : Numeral ε α → Parser ε τ α
  | .natural range => .natural range
  | .integer range => .integer range
  | .decimal format => .decimal format
  | .number => .number

/-- A numeral names no rule, so it reads the same whatever the rules are. -/
theorem Numeral.parseWith_eq [DecidableEq ε] (numeral : Numeral ε α)
    (call : (name : ν) → Cursor ε → Outcome ε (τ name))
    (call' : (name : ν) → Cursor ε → Outcome ε (τ' name)) (c : Cursor ε) :
    numeral.parser.parseWith call c = numeral.parser.parseWith call' c := by
  cases numeral <;> rfl

namespace Parser

/-- Two parsers that read alike: elements by the same predicates, the same words and numerals, with
the same bounds. They may make different values of what they read, of any types. Filters do not
occur. -/
inductive SameShape : {α α' : Type} → Parser ε τ α → Parser ε τ' α' → Prop
  | satisfy (accepts : ε → Bool) : SameShape (.satisfy accepts) (.satisfy accepts)
  | word (expected : List ε) : SameShape (.word expected) (.word expected)
  | numeral {α : Type} (numeral : Numeral ε α) : SameShape numeral.parser numeral.parser
  | succeed {α α' : Type} (value : α) (value' : α') : SameShape (.succeed value) (.succeed value')
  | map {α α' β β' : Type} {p : Parser ε τ α} {p' : Parser ε τ' α'} (f : α → β) (f' : α' → β') :
      SameShape p p' → SameShape (p.map f) (p'.map f')
  | sequence {α α' β β' γ γ' : Type} {p : Parser ε τ α} {p' : Parser ε τ' α'} {q : Parser ε τ β}
      {q' : Parser ε τ' β'} (combine : α → β → γ) (combine' : α' → β' → γ') :
      SameShape p p' → SameShape q q' → SameShape (p.sequence q combine) (p'.sequence q' combine')
  | apply {α α' β β' : Type} {p : Parser ε τ (α → β)} {p' : Parser ε τ' (α' → β')}
      {q : Parser ε τ α} {q' : Parser ε τ' α'} :
      SameShape p p' → SameShape q q' → SameShape (p.apply q) (p'.apply q')
  | orElse {α α' : Type} {p q : Parser ε τ α} {p' q' : Parser ε τ' α'} :
      SameShape p p' → SameShape q q' → SameShape (p.orElse q) (p'.orElse q')
  | optional {α α' : Type} {p : Parser ε τ α} {p' : Parser ε τ' α'} :
      SameShape p p' → SameShape p.optional p'.optional
  | repeated {α α' : Type} {p : Parser ε τ α} {p' : Parser ε τ' α'} (least : Nat)
      (most : Option Nat) : SameShape p p' → SameShape (p.repeated least most) (p'.repeated least most)
  | separated {α α' β β' : Type} {item : Parser ε τ α} {item' : Parser ε τ' α'}
      {separator : Parser ε τ β} {separator' : Parser ε τ' β'} :
      SameShape item item' → SameShape separator separator' →
        SameShape (item.separated separator) (item'.separated separator')
  | rule (name : ν) : SameShape (.rule name) (.rule name)

/-- Parsers of the same shape read in parallel, if the rules do. The loops of a repetition are left
in the same round because each round passes as many elements in both readings. -/
theorem SameShape.parseWith_parallel [DecidableEq ε]
    {call : (name : ν) → Cursor ε → Outcome ε (τ name)}
    {call' : (name : ν) → Cursor ε → Outcome ε (τ' name)}
    (forward : ∀ name d, (call name d).LeadsOnFrom d)
    (rules : ∀ name d, Parallel Unrelated d d (call name d) (call' name d))
    {p : Parser ε τ α} {p' : Parser ε τ' α'} (same : p.SameShape p') (c : Cursor ε) :
    Parallel Unrelated c c (p.parseWith call c) (p'.parseWith call' c) := by
  induction same generalizing c with
  | satisfy accepts => exact .of_leadsOnFrom (readElement_leadsOnFrom accepts c)
  | word expected => exact .of_leadsOnFrom (readWord_leadsOnFrom expected c)
  | numeral numeral =>
      rw [← numeral.parseWith_eq call call' c]
      exact .of_leadsOnFrom (parseWith_leadsOnFrom forward numeral.parser c)
  | succeed value value' => exact .stand trivial c c
  | map f f' _ ih => exact (ih c).map fun _ _ _ => trivial
  | sequence combine combine' _ _ ihp ihq =>
      refine (ihp c).bind fun first first' count _ _ => ?_
      exact (ihq (c.advanceBy count)).map fun _ _ _ => trivial
  | apply _ _ ihp ihq =>
      refine (ihp c).bind fun f f' count _ _ => ?_
      exact (ihq (c.advanceBy count)).map fun _ _ _ => trivial
  | orElse _ _ ihp ihq => exact (ihp c).orElse (ihq c)
  | optional _ ih => exact ((ih c).map fun _ _ _ => trivial).orElse (.stand trivial c c)
  | repeated least most _ ih =>
      exact (between_parallel least most (.of_forall ih c)).unrelated
  | separated _ _ ihItem ihSeparator =>
      exact (separated_parallel (.of_forall ihItem c) (.of_forall ihSeparator c)).unrelated
  | rule name => exact rules name c

end Parser

namespace Grammar

/-- Two grammars whose rules have the same shape, name by name. -/
def SameShape (g : Grammar ε τ) (g' : Grammar ε τ') : Prop :=
  ∀ name, (g.body name).SameShape (g'.body name)

variable [DecidableEq ε] {g : Grammar ε τ} {g' : Grammar ε τ'}

/-- Rules of the same shape read in parallel, to every depth. -/
theorem SameShape.callTo_parallel (alike : g.SameShape g') (depth : Nat) (name : ν)
    (c : Cursor ε) : Parallel Unrelated c c (g.callTo depth name c) (g'.callTo depth name c) := by
  induction depth generalizing name c with
  | zero => exact .unfinished
  | succ depth ih => exact (alike name).parseWith_parallel (g.callTo_leadsOnFrom depth) ih c

/-- **Values do not steer a reading.** Parsers and rules of the same shape take the same course at
every cursor: both match and end at the same cursor, both refuse the content, or neither ends. -/
theorem parse_course_eq (alike : g.SameShape g') {p : Parser ε τ α} {p' : Parser ε τ' α'}
    (same : p.SameShape p') (c : Cursor ε) : (g.parse p c).course = (g'.parse p' c).course := by
  -- the two grammars may count their names differently, and a common depth is enough for both
  have enough : g.depthBound c ≤ max (g.depthBound c) (g'.depthBound c) := Nat.le_max_left _ _
  have enough' : g'.depthBound c ≤ max (g.depthBound c) (g'.depthBound c) := Nat.le_max_right _ _
  rw [← g.runTo_eq_parse enough p, ← g'.runTo_eq_parse enough' p']
  exact (same.parseWith_parallel (g.callTo_leadsOnFrom _) (alike.callTo_parallel _) c).course_eq

/-- Sums in brackets, by their value. -/
def bracketedSum : Grammar Char (fun _ : Unit => Int) :=
  single <|
    ((((Parser.char '(').keepRight ((Parser.rule ()).separated (Parser.char '+'))).keepLeft
        (Parser.char ')')).map (List.foldl (· + ·) 0)).orElse
      ((Parser.natural IntType.u8.range).map id)

/-- Sums in brackets, by how deeply they are nested. -/
def bracketedDepth : Grammar Char (fun _ : Unit => Nat) where
  names := [(), ()]
  mem_names := fun _ => List.mem_cons_self
  body := fun _ =>
    ((((Parser.char '(').both ((Parser.rule ()).separated (Parser.char '+'))).both
        (Parser.char ')')).map fun parts => parts.1.2.foldl max 0 + 1).orElse
      ((Parser.natural IntType.u8.range).map fun _ => 0)

/-- The two grammars of bracketed sums have the same shape. -/
theorem bracketedSum_sameShape : bracketedSum.SameShape bracketedDepth := fun _ =>
  .orElse
    (.map _ _ (.sequence _ _ (.sequence _ _ (.satisfy _) (.separated (.rule ()) (.satisfy _)))
      (.satisfy _)))
    (.map _ _ (.numeral (.natural IntType.u8.range)))

/-- A sum is read alike for its value and for its depth, here in front of a bracket that closes
nothing. -/
theorem bracketedSum_course_eq :
    bracketedSum.SameShape bracketedDepth ∧
      (bracketedSum.parse (.rule ()) (.ofBuffer #['(', '(', '1', ')', '+', '2', ')', ')'])).course =
        (bracketedDepth.parse (.rule ())
          (.ofBuffer #['(', '(', '1', ')', '+', '2', ')', ')'])).course :=
  ⟨bracketedSum_sameShape, parse_course_eq bracketedSum_sameShape (.rule ()) _⟩

end Grammar

end ParserCombinators
