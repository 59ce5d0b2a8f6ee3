import ParserCombinators.Proofs.Grammar.Nullable
import ParserCombinators.Proofs.Grammar.ValueIndependence
import ParserCombinators.Proofs.Repetition.Rounds
import ParserCombinators.Proofs.Repetition.Unbounded

/-! # Parsers that match the empty input

A parser without filters that matches where nothing is left refuses no content at all. At the end of
the input every part that has to match does so without reading, and a part that matches without
reading has nothing to refuse. Elsewhere the parts may read, take other alternatives and repeat other
numbers of rounds; only that they go on is carried over.

* **`Repetition.upTo_ne_noMatch`**, **`Repetition.unbounded_ne_noMatch_of_attempt`**,
  **`Repetition.between_ne_noMatch`** — a repetition refuses nothing if no round is needed, or if its
  attempt refuses nothing and the bounds are not crossed.
* **`Parser.Unfiltered`** — the parsers that filter no values, except inside numerals.
* **`Parser.Unfiltered.parseWith_ne_noMatch`** — the step: what matches at the end of the input
  refuses nothing, if that is so for the rules.
* **`Grammar.parse_matches_of_matches_empty`** — the same of a grammar and its rules. -/

namespace ParserCombinators

open Outcome

variable {ε ν : Type} {τ : ν → Type} {α β : Type}

/-- A cursor at the end of the input reaches no other. -/
theorem Cursor.Reaches.eq_of_remaining_eq_nil {c d : Cursor ε} (reaches : c.Reaches d)
    (atEnd : c.remaining = []) : d = c := by
  refine reaches.eq_of_remainingCount_le ?_
  rw [← Cursor.length_remaining, atEnd]
  exact Nat.zero_le _

namespace Outcome

/-- What goes on after a match refuses nothing if neither the reading nor what follows does. -/
theorem bind_ne_noMatch {outcome : Outcome ε α} {next : α → Cursor ε → Outcome ε β}
    (goesOn : outcome ≠ noMatch) (further : ∀ value rest, next value rest ≠ noMatch) :
    outcome.bind next ≠ noMatch := by
  cases outcome with
  | matched value rest => exact further value rest
  | noMatch => exact absurd rfl goesOn
  | unfinished => simp

/-- What falls back is refused only if the reading and the alternative are. -/
@[simp] theorem orElse_eq_noMatch_iff {outcome : Outcome ε α}
    {alternative : Unit → Outcome ε α} :
    outcome.orElse alternative = noMatch ↔ outcome = noMatch ∧ alternative () = noMatch := by
  cases outcome <;> simp

end Outcome

/-! ## Repetitions that refuse nothing -/

namespace Repetition

variable {attempt : Cursor ε → Outcome ε α}

/-- Bounded repetition refuses nothing if no round is needed, or if the attempt refuses nothing and
as many rounds are allowed as are needed. -/
theorem upTo_ne_noMatch {limit least : Nat}
    (goesOn : least = 0 ∨ (∀ d, attempt d ≠ .noMatch) ∧ least ≤ limit) (c : Cursor ε) :
    upTo attempt limit least c ≠ .noMatch := by
  induction limit generalizing least c with
  | zero =>
      have noneNeeded : least = 0 := by omega
      simp [upTo, stop, noneNeeded]
  | succ limit ih =>
      rw [upTo]
      cases round : attempt c with
      | matched value rest =>
          -- one round less is needed, and one less is allowed
          have further : upTo attempt limit (least - 1) rest ≠ .noMatch :=
            ih (goesOn.imp (by omega) fun both => ⟨both.1, Nat.sub_le_of_le_add both.2⟩) rest
          simpa using further
      | noMatch =>
          have noneNeeded : least = 0 := goesOn.resolve_right fun both => both.1 c round
          simp [stop, noneNeeded]
      | unfinished => simp

/-- Unbounded repetition refuses nothing if the attempt refuses nothing. -/
theorem unbounded_ne_noMatch_of_attempt (accepts : ∀ d, attempt d ≠ .noMatch) (least : Nat)
    (c : Cursor ε) : unbounded attempt least c ≠ .noMatch := by
  induction least, c using unbounded.induct attempt with
  | case1 least c value rest round last =>
      rw [unbounded, round]
      simp [if_pos last]
  | case2 least c value rest round further guard ih =>
      rw [unbounded, round]
      simpa only [if_neg further, if_pos guard, ne_eq, map_eq_noMatch_iff] using ih
  | case3 least c value rest round further back =>
      rw [unbounded, round]
      simp [if_neg further, if_neg back]
  | case4 least c round => exact absurd round (accepts c)
  | case5 least c round =>
      rw [unbounded, round]
      simp

/-- **A repetition refuses nothing** if no round is needed, or if its attempt refuses nothing and the
bounds are not crossed. -/
theorem between_ne_noMatch {least : Nat} {most : Option Nat}
    (goesOn : least = 0 ∨ (∀ d, attempt d ≠ .noMatch) ∧ ∀ limit ∈ most, least ≤ limit)
    (c : Cursor ε) : between attempt least most c ≠ .noMatch := by
  cases most with
  | some limit =>
      exact upTo_ne_noMatch (goesOn.imp_right fun both => ⟨both.1, both.2 limit rfl⟩) c
  | none =>
      rcases goesOn with noneNeeded | ⟨accepts, -⟩
      · exact unbounded_ne_noMatch noneNeeded c
      · exact unbounded_ne_noMatch_of_attempt accepts least c

end Repetition

/-! ## Parsers without filters -/

/-- A numeral does not match without reading. -/
theorem Numeral.parseWith_ne_matched_self [DecidableEq ε] (numeral : Numeral ε α)
    (g : Grammar ε τ) (call : (name : ν) → Cursor ε → Outcome ε (τ name)) (c : Cursor ε)
    (value : α) : numeral.parser.parseWith call c ≠ .matched value c := by
  intro stands
  -- it names no rules, so it reads alike where none of them may be opened
  rw [numeral.parseWith_eq call (g.callTo 0)] at stands
  have nullable : g.Nullable numeral.parser :=
    g.nullable_of_parseWith_eq_matched (g.callTo_leadsOnFrom 0)
      (fun _ _ _ found => absurd found.symm (matched_ne_unfinished _ _)) numeral.parser stands
  cases numeral with
  | natural range => exact g.not_nullable_natural range nullable
  | integer range => exact g.not_nullable_integer range nullable
  | decimal format => exact g.not_nullable_decimal format nullable
  | number => exact g.not_nullable_number nullable

namespace Parser

/-- The parsers that filter no values, except inside numerals. -/
inductive Unfiltered : {α : Type} → Parser ε τ α → Prop
  | satisfy (accepts : ε → Bool) : Unfiltered (.satisfy accepts)
  | word (expected : List ε) : Unfiltered (.word expected)
  | numeral {α : Type} (numeral : Numeral ε α) : Unfiltered numeral.parser
  | succeed {α : Type} (value : α) : Unfiltered (.succeed value)
  | map {α β : Type} {p : Parser ε τ α} (f : α → β) : Unfiltered p → Unfiltered (p.map f)
  | sequence {α β γ : Type} {p : Parser ε τ α} {q : Parser ε τ β} (combine : α → β → γ) :
      Unfiltered p → Unfiltered q → Unfiltered (p.sequence q combine)
  | apply {α β : Type} {p : Parser ε τ (α → β)} {q : Parser ε τ α} :
      Unfiltered p → Unfiltered q → Unfiltered (p.apply q)
  | orElse {α : Type} {p q : Parser ε τ α} :
      Unfiltered p → Unfiltered q → Unfiltered (p.orElse q)
  | optional {α : Type} {p : Parser ε τ α} : Unfiltered p → Unfiltered p.optional
  | repeated {α : Type} {p : Parser ε τ α} (least : Nat) (most : Option Nat) :
      Unfiltered p → Unfiltered (p.repeated least most)
  | separated {α β : Type} {item : Parser ε τ α} {separator : Parser ε τ β} :
      Unfiltered item → Unfiltered separator → Unfiltered (item.separated separator)
  | rule (name : ν) : Unfiltered (.rule name)

variable [DecidableEq ε] {call call' : (name : ν) → Cursor ε → Outcome ε (τ name)}

/-- If two parsers match in a row at the end of the input, both match there. -/
theorem matched_inARow_of_remaining_eq_nil {γ : Type}
    (forward : ∀ name d, (call name d).LeadsOnFrom d) {e : Cursor ε} (atEnd : e.remaining = [])
    {p : Parser ε τ α} {q : Parser ε τ β} (combine : α → β → γ) {value : γ}
    (found : ((p.parseWith call e).bind fun first middle =>
      (q.parseWith call middle).map (combine first)) = .matched value e) :
    ∃ first second, p.parseWith call e = .matched first e ∧
      q.parseWith call e = .matched second e := by
  obtain ⟨first, middle, foundFirst, further⟩ := bind_eq_matched_iff.1 found
  obtain ⟨second, foundSecond, -⟩ := map_eq_matched_iff.1 further
  obtain rfl : middle = e :=
    (parseWith_leadsOnFrom forward p e first middle foundFirst).eq_of_remaining_eq_nil atEnd
  exact ⟨first, second, foundFirst, foundSecond⟩

/-- **What matches at the end of the input refuses nothing**, if that is so for the rules. The reading
at the end decides what the parts do there; of the other reading, which may be anywhere, nothing has
to be known but the parser. -/
theorem Unfiltered.parseWith_ne_noMatch (g : Grammar ε τ)
    (forward : ∀ name d, (call name d).LeadsOnFrom d) {e : Cursor ε} (atEnd : e.remaining = [])
    (rules : ∀ name value, call name e = .matched value e → ∀ c, call' name c ≠ .noMatch)
    {p : Parser ε τ α} (unfiltered : p.Unfiltered) {value : α}
    (found : p.parseWith call e = .matched value e) (c : Cursor ε) :
    p.parseWith call' c ≠ .noMatch := by
  have forwardFrom : ∀ {α : Type} (q : Parser ε τ α),
      Repetition.MovesForward (q.parseWith call) e :=
    fun q d _ => parseWith_leadsOnFrom forward q d
  induction unfiltered generalizing c with
  | satisfy accepts => exact absurd found (readElement_ne_matched_self accepts e value)
  | word expected =>
      -- only the empty word is there, and it is everywhere
      obtain rfl : expected = [] := eq_nil_of_readWord_stands found
      simp [parseWith, readWord_eq]
  | numeral numeral => exact absurd found (numeral.parseWith_ne_matched_self g call e value)
  | succeed constant => simp [parseWith]
  | map f _ ih =>
      obtain ⟨before, found', -⟩ := map_eq_matched_iff.1 found
      simpa [parseWith] using ih found' c
  | sequence combine _ _ ihp ihq =>
      obtain ⟨first, second, foundFirst, foundSecond⟩ :=
        matched_inARow_of_remaining_eq_nil forward atEnd combine found
      refine bind_ne_noMatch (ihp foundFirst c) fun value middle => ?_
      simpa using ihq foundSecond middle
  | apply _ _ ihp ihq =>
      obtain ⟨f, argument, foundFirst, foundSecond⟩ :=
        matched_inARow_of_remaining_eq_nil forward atEnd (fun f => f) found
      refine bind_ne_noMatch (ihp foundFirst c) fun value middle => ?_
      simpa using ihq foundSecond middle
  | orElse _ _ ihp ihq =>
      -- either alternative may be the one that matches at the end
      simp only [parseWith, ne_eq, orElse_eq_noMatch_iff, not_and]
      rcases orElse_eq_matched_iff.1 found with foundFirst | ⟨-, foundSecond⟩
      · exact fun refused => absurd refused (ihp foundFirst c)
      · exact fun _ => ihq foundSecond c
  | optional _ _ => simp [parseWith]
  | @repeated _ p least most _ ih =>
      refine Repetition.between_ne_noMatch ?_ c
      rcases Repetition.exists_standing_round (forwardFrom p) found with noneNeeded | ⟨first, round⟩
      · exact Or.inl noneNeeded
      · refine Or.inr ⟨ih round, fun limit bound => Nat.le_of_not_lt fun crossed => ?_⟩
        obtain rfl : most = some limit := bound
        exact Repetition.between_ne_matched_of_lt (forwardFrom p) crossed value e found
  | @separated _ _ item _ _ _ ihItem _ =>
      obtain ⟨first, middle, foundItem, -⟩ := bind_eq_matched_iff.1 found
      obtain rfl : middle = e := (forwardFrom item e (.refl e) first middle
        foundItem).eq_of_remaining_eq_nil atEnd
      refine bind_ne_noMatch (ihItem foundItem c) fun value rest => ?_
      simpa using Repetition.whileAdvancing_ne_noMatch rest
  | rule name => exact rules name value found c

end Parser

namespace Grammar

variable [DecidableEq ε] {g : Grammar ε τ} {p : Parser ε τ α}

/-- A rule that matches at the end of the input to some depth refuses nothing to any depth. -/
theorem callTo_ne_noMatch_of_matches_empty (rules : ∀ name, (g.body name).Unfiltered)
    {e : Cursor ε} (atEnd : e.remaining = []) (depth depth' : Nat) (name : ν) {value : τ name}
    (found : g.callTo depth name e = .matched value e) (c : Cursor ε) :
    g.callTo depth' name c ≠ .noMatch := by
  -- on the depth of the reading at the end, with whatever depth the other reading has
  induction depth generalizing name depth' c with
  | zero => exact absurd found.symm (matched_ne_unfinished value e)
  | succ depth ih =>
      cases depth' with
      | zero => exact noMatch_ne_unfinished.symm
      | succ depth' =>
          exact (rules name).parseWith_ne_noMatch g (g.callTo_leadsOnFrom depth) atEnd
            (fun inner _ found' => ih depth' inner found') found c

/-- **A parser that matches the empty input refuses nothing.** If neither it nor the rules filter
values, except inside numerals, and it matches where nothing is left, then it matches at every cursor
over every input where its reading ends. -/
theorem parse_matches_of_matches_empty (rules : ∀ name, (g.body name).Unfiltered)
    (unfiltered : p.Unfiltered) {e : Cursor ε} (atEnd : e.remaining = []) {value : α}
    {rest : Cursor ε} (found : g.parse p e = .matched value rest) (c : Cursor ε)
    (ends : g.parse p c ≠ .unfinished) : ∃ value rest, g.parse p c = .matched value rest := by
  obtain rfl : rest = e := (g.parse_leadsOnFrom p e value rest found).eq_of_remaining_eq_nil atEnd
  have accepted : g.parse p c ≠ .noMatch :=
    unfiltered.parseWith_ne_noMatch g (g.callTo_leadsOnFrom _) atEnd
      (fun name _ found' => callTo_ne_noMatch_of_matches_empty rules atEnd _ _ name found') found c
  cases outcome : g.parse p c with
  | matched value rest => exact ⟨value, rest, rfl⟩
  | noMatch => exact absurd outcome accepted
  | unfinished => exact absurd outcome ends

/-- Lists in brackets of such lists, of bytes, and of gaps, where nothing is written. -/
def gappedLists : Grammar Char (fun _ : Unit => List Int) :=
  single <|
    ((((Parser.char '(').keepRight ((Parser.rule ()).separated (Parser.char ','))).keepLeft
        (Parser.char ')')).map List.flatten).orElse
      ((Parser.natural IntType.u8.range).optional.map Option.toList)

/-- The lists with gaps filter no values but those of the bytes. -/
theorem gappedLists_unfiltered (name : Unit) : (gappedLists.body name).Unfiltered :=
  .orElse
    (.map _ (.sequence _ (.sequence _ (.satisfy _) (.separated (.rule ()) (.satisfy _)))
      (.satisfy _)))
    (.map _ (.optional (.numeral (.natural IntType.u8.range))))

/-- At the end of the input, three lists with gaps are three gaps. So two or three such lists are read
in front of `(,(,))(x` too: one in brackets, and then gaps, because the next bracket is not closed. -/
theorem gappedLists_matches :
    let lists := (Parser.rule (τ := fun _ : Unit => List Int) ()).repeated 2 (some 3)
    let content := #['(', ',', '(', ',', ')', ')', '(', 'x']
    (∀ name, (gappedLists.body name).Unfiltered) ∧ lists.Unfiltered ∧
      gappedLists.parse lists (.endOfInput #['x']) = .matched [[], [], []] (.endOfInput #['x']) ∧
      gappedLists.parse lists (.ofBuffer content) ≠ .unfinished ∧
      ∃ value rest, gappedLists.parse lists (.ofBuffer content) = .matched value rest := by
  intro lists content
  have unfiltered : lists.Unfiltered := .repeated 2 (some 3) (.rule ())
  have gaps : gappedLists.parse lists (.endOfInput #['x']) =
      .matched [[], [], []] (.endOfInput #['x']) := by cbv
  have read : gappedLists.parse lists (.ofBuffer content) =
      .matched [[], [], []] (.valid content 6) := by cbv
  have ends : gappedLists.parse lists (.ofBuffer content) ≠ .unfinished := by
    rw [read]
    exact matched_ne_unfinished _ _
  exact ⟨gappedLists_unfiltered, unfiltered, gaps, ends,
    parse_matches_of_matches_empty gappedLists_unfiltered unfiltered rfl gaps _ ends⟩

end Grammar

end ParserCombinators
