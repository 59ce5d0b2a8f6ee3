import ParserCombinators.Grammar.Equations
import ParserCombinators.Parser.Character
import ParserCombinators.Proofs.Repetition.Unbounded

/-! # Rewriting grammars

Grammars are rearranged by laws of parsers: alternatives and sequences regroup, a common front is
factored out, functions on values are composed or curried, and a rule is replaced by its body. A
rewritten grammar reads what the grammar read before.

* **`Parser.Law`** — the laws that hold however the rules are read, and so may be used from left to
  right and from right to left.
* **`Grammar.RewritesTo`** — what a parser becomes by laws and by unfolding rules of the grammar, used
  anywhere in it and any number of times.
* **`Grammar.parse_eq_of_rewritesTo`** — if the rules and a parser are rewritten, every reading stays
  what it was. This includes rules that are unfolded within themselves. Folding a body back to its
  rule is no rewriting: it may leave a rule that only refers to itself. -/

namespace ParserCombinators

open Outcome

variable {ε ν : Type} {τ : ν → Type} {α β γ δ κ : Type}

/-! ## Laws of outcomes -/

namespace Outcome

/-- Alternatives nest to either side. -/
theorem orElse_orElse (outcome : Outcome ε α) (second third : Unit → Outcome ε α) :
    (outcome.orElse second).orElse third = outcome.orElse fun _ => (second ()).orElse third := by
  cases outcome <;> rfl

/-- A change of the value passes to both alternatives. -/
theorem map_orElse (outcome : Outcome ε α) (alternative : Unit → Outcome ε α) (f : α → β) :
    (outcome.orElse alternative).map f = (outcome.map f).orElse fun _ => (alternative ()).map f := by
  cases outcome <;> rfl

/-- To go on in one of two ways after the same match is to match and then go on in one of the two
ways: if the first way is refused, matching once more leads to the same place. -/
theorem bind_orElse_bind (outcome : Outcome ε α) (next next' : α → Cursor ε → Outcome ε β) :
    ((outcome.bind next).orElse fun _ => outcome.bind next') =
      outcome.bind fun value rest => (next value rest).orElse fun _ => next' value rest := by
  cases outcome <;> rfl

end Outcome

/-! ## Laws of parsers -/

namespace Parser

/-- The laws of parsers. -/
inductive Law : {α : Type} → Parser ε τ α → Parser ε τ α → Prop
  /-- Alternatives regroup. -/
  | orElse_assoc {α : Type} (p q r : Parser ε τ α) :
      Law ((p.orElse q).orElse r) (p.orElse (q.orElse r))
  /-- What two alternatives have in front is factored out. -/
  | factor {α β γ : Type} (p : Parser ε τ α) (q r : Parser ε τ β) (combine : α → β → γ) :
      Law ((p.sequence q combine).orElse (p.sequence r combine)) (p.sequence (q.orElse r) combine)
  /-- Sequences for their last value regroup. -/
  | keepRight_assoc {α β γ : Type} (p : Parser ε τ α) (q : Parser ε τ β) (r : Parser ε τ γ) :
      Law ((p.keepRight q).keepRight r) (p.keepRight (q.keepRight r))
  /-- Sequences for their first value regroup. -/
  | keepLeft_assoc {α β γ : Type} (p : Parser ε τ α) (q : Parser ε τ β) (r : Parser ε τ γ) :
      Law ((p.keepLeft q).keepLeft r) (p.keepLeft (q.keepLeft r))
  /-- A function of two arguments is applied to both values at once or to one after the other. -/
  | lift₂ {α β γ : Type} (f : α → β → γ) (p : Parser ε τ α) (q : Parser ε τ β) :
      Law (.lift₂ f p q) (p.sequence q f)
  /-- The function that is read for its second argument may be made of the first beforehand. -/
  | apply {α β γ : Type} (f : α → β → γ) (p : Parser ε τ α) (q : Parser ε τ β) :
      Law (p.sequence q f) ((p.map f).apply q)
  /-- Nothing is read in front. -/
  | succeed_keepRight {α β : Type} (value : β) (p : Parser ε τ α) :
      Law ((succeed value).keepRight p) p
  /-- Nothing is read behind. -/
  | keepLeft_succeed {α β : Type} (p : Parser ε τ α) (value : β) :
      Law (p.keepLeft (succeed value)) p
  /-- Changes of the value compose. -/
  | map_map {α β γ : Type} (p : Parser ε τ α) (f : α → β) (f' : β → γ) :
      Law ((p.map f).map f') (p.map (f' ∘ f))
  /-- A filter is a partial change that changes nothing. -/
  | filter {α : Type} (p : Parser ε τ α) (keep : α → Bool) :
      Law (p.filter keep) (p.filterMap fun value => if keep value then some value else none)
  /-- What is optional is there or not. -/
  | optional {α : Type} (p : Parser ε τ α) :
      Law p.optional ((p.map some).orElse (succeed none))
  /-- Any number of times is at least once or not at all. -/
  | many {α : Type} (p : Parser ε τ α) : Law p.many (p.many1.orElse (succeed []))

variable [DecidableEq ε] {call : (name : ν) → Cursor ε → Outcome ε (τ name)}

/-- Sequences regroup if the values come to the same. -/
theorem parseWith_sequence_assoc {η : Type} {combine : α → β → δ} {combine' : δ → γ → κ}
    {inner : β → γ → η} {outer : α → η → κ}
    (agree : ∀ first second third,
      combine' (combine first second) third = outer first (inner second third))
    (p : Parser ε τ α) (q : Parser ε τ β) (r : Parser ε τ γ) (c : Cursor ε) :
    ((p.sequence q combine).sequence r combine').parseWith call c =
      (p.sequence (q.sequence r inner) outer).parseWith call c := by
  simp only [parseWith]
  cases p.parseWith call c with
  | matched first afterFirst =>
      simp only [bind_matched]
      cases q.parseWith call afterFirst with
      | matched second afterSecond =>
          simp only [map_matched, bind_matched, map_map]
          congr 1
          funext third
          exact agree first second third
      | noMatch => rfl
      | unfinished => rfl
  | noMatch => rfl
  | unfinished => rfl

/-- **The laws hold** however the rules are read, as long as they lead forward. -/
theorem Law.parseWith_eq (forward : ∀ name d, (call name d).LeadsOnFrom d) {p q : Parser ε τ α}
    (law : p.Law q) (c : Cursor ε) : p.parseWith call c = q.parseWith call c := by
  cases law with
  | orElse_assoc p q r => exact orElse_orElse _ _ _
  | factor p q r combine =>
      simp only [parseWith, bind_orElse_bind, map_orElse]
  | keepRight_assoc p q r =>
      unfold keepRight
      refine parseWith_sequence_assoc ?_ p q r c
      exact fun _ _ _ => rfl
  | keepLeft_assoc p q r =>
      unfold keepLeft
      refine parseWith_sequence_assoc ?_ p q r c
      exact fun _ _ _ => rfl
  | lift₂ f p q => exact parseWith_lift₂ f p q c
  | apply f p q => exact (parseWith_lift₂ f p q c).symm
  | succeed_keepRight value => exact map_id _
  | keepLeft_succeed => exact (map_eq_bind _ _).symm.trans (map_id _)
  | map_map p f f' => exact Outcome.map_map (p.parseWith call c) f f'
  | filter p keep =>
      simp only [parseWith]
      congr 1
      funext value rest
      cases keep value <;> rfl
  | optional p => rfl
  | many p => exact Repetition.unbounded_zero_eq fun d _ => parseWith_leadsOnFrom forward p d

end Parser

/-! ## Rewritten grammars -/

namespace Grammar

/-- What a parser becomes by laws and by unfolding rules of the grammar: one of them is used, or
several in a row, at any place in the parser. -/
inductive RewritesTo (g : Grammar ε τ) : {α : Type} → Parser ε τ α → Parser ε τ α → Prop
  /-- Nothing is rewritten. -/
  | refl {α : Type} (p : Parser ε τ α) : g.RewritesTo p p
  /-- One rewriting follows another. -/
  | trans {α : Type} {p q r : Parser ε τ α} :
      g.RewritesTo p q → g.RewritesTo q r → g.RewritesTo p r
  /-- A law is used from left to right. -/
  | law {α : Type} {p q : Parser ε τ α} : p.Law q → g.RewritesTo p q
  /-- A law is used from right to left. -/
  | lawBack {α : Type} {p q : Parser ε τ α} : p.Law q → g.RewritesTo q p
  /-- A rule is replaced by its body. -/
  | unfold (name : ν) : g.RewritesTo (.rule name) (g.body name)
  | map {α β : Type} {p p' : Parser ε τ α} (f : α → β) :
      g.RewritesTo p p' → g.RewritesTo (p.map f) (p'.map f)
  | filter {α : Type} {p p' : Parser ε τ α} (keep : α → Bool) :
      g.RewritesTo p p' → g.RewritesTo (p.filter keep) (p'.filter keep)
  | filterMap {α β : Type} {p p' : Parser ε τ α} (f : α → Option β) :
      g.RewritesTo p p' → g.RewritesTo (p.filterMap f) (p'.filterMap f)
  | sequence {α β γ : Type} {p p' : Parser ε τ α} {q q' : Parser ε τ β} (combine : α → β → γ) :
      g.RewritesTo p p' → g.RewritesTo q q' →
        g.RewritesTo (p.sequence q combine) (p'.sequence q' combine)
  | apply {α β : Type} {p p' : Parser ε τ (α → β)} {q q' : Parser ε τ α} :
      g.RewritesTo p p' → g.RewritesTo q q' → g.RewritesTo (p.apply q) (p'.apply q')
  | orElse {α : Type} {p p' q q' : Parser ε τ α} :
      g.RewritesTo p p' → g.RewritesTo q q' → g.RewritesTo (p.orElse q) (p'.orElse q')
  | optional {α : Type} {p p' : Parser ε τ α} :
      g.RewritesTo p p' → g.RewritesTo p.optional p'.optional
  | repeated {α : Type} {p p' : Parser ε τ α} (least : Nat) (most : Option Nat) :
      g.RewritesTo p p' → g.RewritesTo (p.repeated least most) (p'.repeated least most)
  | separated {α β : Type} {item item' : Parser ε τ α} {separator separator' : Parser ε τ β} :
      g.RewritesTo item item' → g.RewritesTo separator separator' →
        g.RewritesTo (item.separated separator) (item'.separated separator')

variable [DecidableEq ε] {g g' : Grammar ε τ} {p p' : Parser ε τ α}

/-- With the rules as they were, a rewritten parser reads the same. -/
theorem RewritesTo.parse_eq (rewrites : g.RewritesTo p p') (c : Cursor ε) :
    g.parse p c = g.parse p' c := by
  -- the grammar is the same on both sides: only here may a rule be replaced by its body at once
  induction rewrites generalizing c with
  | refl p => rfl
  | trans _ _ ih ih' => rw [ih, ih']
  | law law => exact law.parseWith_eq (g.callTo_leadsOnFrom _) c
  | lawBack law => exact (law.parseWith_eq (g.callTo_leadsOnFrom _) c).symm
  | unfold name => exact g.parse_rule name c
  | map f _ ih => rw [parse_map, parse_map, ih]
  | filter keep _ ih => rw [parse_filter, parse_filter, ih]
  | filterMap f _ ih => rw [parse_filterMap, parse_filterMap, ih]
  | sequence combine _ _ ihp ihq => simp only [parse_sequence, ihp, ihq]
  | apply _ _ ihp ihq => simp only [parse_apply, ihp, ihq]
  | orElse _ _ ihp ihq => simp only [parse_orElse, ihp, ihq]
  | optional _ ih => rw [parse_optional, parse_optional, ih]
  | repeated least most _ ih => rw [parse_repeated, parse_repeated, funext ih]
  | separated _ _ ihItem ihSeparator =>
      rw [parse_separated, parse_separated, funext ihItem, funext ihSeparator]

/-- Where rules may be open to a depth only, a rewritten parser finishes at least as much: a rule
that is unfolded counts no more among the open ones. -/
theorem RewritesTo.parseWith_approximates (rewrites : g.RewritesTo p p') (depth : Nat)
    (c : Cursor ε) :
    (p.parseWith (g.callTo depth) c).Approximates (p'.parseWith (g.callTo depth) c) := by
  have forward := g.callTo_leadsOnFrom depth
  induction rewrites generalizing c with
  | refl p => exact .refl _
  | trans _ _ ih ih' => exact (ih c).trans (ih' c)
  | law law => exact Or.inr (law.parseWith_eq forward c)
  | lawBack law => exact Or.inr (law.parseWith_eq forward c).symm
  | unfold name => exact g.callTo_approximates_succ depth name c
  | map f _ ih => exact (ih c).map f
  | filter keep _ ih => exact (ih c).bind fun _ _ _ => .refl _
  | filterMap f _ ih => exact (ih c).bind fun _ _ _ => .refl _
  | sequence combine _ _ ihp ihq =>
      exact (ihp c).bind fun first rest _ => (ihq rest).map (combine first)
  | apply _ _ ihp ihq => exact (ihp c).bind fun f rest _ => (ihq rest).map f
  | orElse _ _ ihp ihq => exact (ihp c).orElse (ihq c)
  | optional _ ih => exact ((ih c).map some).orElse (.refl _)
  | repeated least most _ ih =>
      exact Repetition.between_approximates least most c
        (fun d _ => Parser.parseWith_leadsOnFrom forward _ d) fun d _ => ih d
  | separated _ _ ihItem ihSeparator =>
      exact Repetition.separated_approximates c
        (fun d _ => Parser.parseWith_leadsOnFrom forward _ d)
        (fun d _ => Parser.parseWith_leadsOnFrom forward _ d)
        (fun d _ => ihItem d) fun d _ => ihSeparator d

/-- What is read with partial knowledge of the rules is read by the grammar. -/
theorem parseWith_approximates_parse {call : (name : ν) → Cursor ε → Outcome ε (τ name)}
    (forward : ∀ name d, (call name d).LeadsOnFrom d)
    (below : ∀ name d, (call name d).Approximates (g.parse (.rule name) d)) (p : Parser ε τ α)
    (c : Cursor ε) : (p.parseWith call c).Approximates (g.parse p c) := by
  rw [parse_eq_parseWith]
  exact Parser.parseWith_approximates forward p c fun name d _ => below name d

/-- What a grammar finishes to some depth, the rewritten grammar reads. -/
theorem callTo_approximates_parse_of_rewritesTo
    (rules : ∀ name, g.RewritesTo (g.body name) (g'.body name)) (depth : Nat) (name : ν)
    (c : Cursor ε) : (g.callTo depth name c).Approximates (g'.parse (.rule name) c) := by
  induction depth generalizing name c with
  | zero => exact .unfinished _
  | succ depth ih =>
      rw [parse_rule]
      -- first the body is rewritten where the depth is the same, then the rules that it names
      exact ((rules name).parseWith_approximates depth c).trans
        (parseWith_approximates_parse (g.callTo_leadsOnFrom depth) ih (g'.body name) c)

/-- What the rewritten grammar finishes to some depth, the grammar reads. -/
theorem callTo_approximates_parse_of_rewritesTo_back
    (rules : ∀ name, g.RewritesTo (g.body name) (g'.body name)) (depth : Nat) (name : ν)
    (c : Cursor ε) : (g'.callTo depth name c).Approximates (g.parse (.rule name) c) := by
  induction depth generalizing name c with
  | zero => exact .unfinished _
  | succ depth ih =>
      rw [parse_rule, (rules name).parse_eq]
      exact parseWith_approximates_parse (g'.callTo_leadsOnFrom depth) ih (g'.body name) c

/-- **Rewriting a grammar changes no reading.** If each rule and a parser are rewritten by laws and by
unfolding rules of the grammar as it was, the parser reads with the new rules what it read with the
old ones: the same value and the same cursor after it, a refusal, or no end. -/
theorem parse_eq_of_rewritesTo (rules : ∀ name, g.RewritesTo (g.body name) (g'.body name))
    (main : g.RewritesTo p p') (c : Cursor ε) : g'.parse p' c = g.parse p c := by
  -- with either grammar nothing is finished that the other one does not finish alike
  have forth : (g.parse p c).Approximates (g'.parse p' c) :=
    (main.parseWith_approximates _ c).trans
      (parseWith_approximates_parse (g.callTo_leadsOnFrom _)
        (callTo_approximates_parse_of_rewritesTo rules _) p' c)
  have back : (g'.parse p' c).Approximates (g.parse p c) := by
    rw [main.parse_eq]
    exact parseWith_approximates_parse (g'.callTo_leadsOnFrom _)
      (callTo_approximates_parse_of_rewritesTo_back rules _) p' c
  exact back.antisymm forth

/-- Brackets around brackets or around stars; the value counts both. -/
def starredBrackets : Grammar Char (fun _ : Unit => Nat) :=
  single <|
    (((Parser.char '(').sequence ((Parser.rule ()).keepLeft (Parser.char ')'))
        fun _ inner => inner + 1).orElse
      ((Parser.char '(').sequence ((Parser.char '*').many.map List.length)
        fun _ inner => inner + 1)).orElse
      (.succeed 0)

/-- The same brackets, where the opening bracket is factored out, the inner brackets are unfolded
once, and stars are there or not. -/
def factoredBrackets : Grammar Char (fun _ : Unit => Nat) :=
  single <|
    ((Parser.char '(').sequence
      (((starredBrackets.body ()).keepLeft (Parser.char ')')).orElse
        (((Parser.char '*').many1.orElse (.succeed [])).map List.length))
      fun _ inner => inner + 1).orElse
      (.succeed 0)

/-- The brackets are rewritten to their factored form. -/
theorem starredBrackets_rewritesTo (name : Unit) :
    starredBrackets.RewritesTo (starredBrackets.body name) (factoredBrackets.body name) :=
  .orElse
    (.trans (.law (.factor _ _ _ _))
      (.sequence _ (.refl _)
        (.orElse (.sequence _ (.unfold ()) (.refl _)) (.map _ (.law (.many _))))))
    (.refl _)

/-- The factored brackets read `((**` as the brackets do: after a bracket that is not closed, the
reading starts over at the stars. -/
theorem factoredBrackets_parse_eq :
    (∀ name, starredBrackets.RewritesTo (starredBrackets.body name) (factoredBrackets.body name)) ∧
      starredBrackets.RewritesTo (.rule ()) (starredBrackets.body ()) ∧
      factoredBrackets.parse (starredBrackets.body ()) (.ofBuffer #['(', '(', '*', '*']) =
        starredBrackets.parse (.rule ()) (.ofBuffer #['(', '(', '*', '*']) :=
  ⟨starredBrackets_rewritesTo, .unfold (),
    parse_eq_of_rewritesTo starredBrackets_rewritesTo (.unfold ()) _⟩

end Grammar

end ParserCombinators
