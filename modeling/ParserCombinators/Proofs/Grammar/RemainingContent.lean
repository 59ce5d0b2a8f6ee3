import ParserCombinators.Grammar.Depth
import ParserCombinators.Proofs.Repetition.Parallel

/-! # Reading depends only on the remaining content

Two readings with one parser that start with the same content left run in parallel, whatever the
buffers, the positions and the forms of the two cursors are.

* **`Parser.parseWith_parallel`** — a parser keeps readings parallel, if the rules do.
* **`Grammar.parse_parallel`** — so does `Grammar.parse`, where rules may refer to themselves.
* **`Outcome.SameReading`**, **`Grammar.parse_sameReading`** — what the two outcomes have in common,
  in terms of values, positions and content. -/

namespace ParserCombinators

open Outcome Repetition

variable {ε ν : Type} {τ : ν → Type} {α : Type}

namespace Parser

/-- An element is read in parallel where the same content is left. -/
theorem readElement_parallel (accepts : ε → Bool) {c d : Cursor ε}
    (same : c.remaining = d.remaining) :
    Parallel Eq c d (readElement accepts c) (readElement accepts d) := by
  have sameFirst : c.first? = d.first? := by
    rw [Cursor.first?_eq_head?, Cursor.first?_eq_head?, same]
  unfold readElement
  rw [← sameFirst]
  cases next : c.first? with
  | none => exact .noMatch
  | some element =>
      by_cases fits : accepts element = true
      · simp only [if_pos fits]
        exact .matched rfl 1 (Cursor.remainingCount_pos_of_first? next)
      · simp only [if_neg fits]
        exact .noMatch

variable [DecidableEq ε]

/-- A word is read in parallel where the same content is left. -/
theorem readWord_parallel (expected : List ε) {c d : Cursor ε} (same : c.remaining = d.remaining) :
    Parallel Eq c d (readWord expected c) (readWord expected d) := by
  rw [readWord_eq, readWord_eq, ← same]
  by_cases next : expected <+: c.remaining
  · rw [if_pos next, if_pos next]
    exact .matched rfl expected.length (Cursor.length_le_remainingCount next)
  · rw [if_neg next, if_neg next]
    exact .noMatch

/-- A parser reads in parallel where the same content is left, if the rules do. -/
theorem parseWith_parallel {call : (name : ν) → Cursor ε → Outcome ε (τ name)}
    (rules : ∀ name {c d : Cursor ε}, c.remaining = d.remaining →
      Parallel Eq c d (call name c) (call name d))
    (p : Parser ε τ α) {c d : Cursor ε} (same : c.remaining = d.remaining) :
    Parallel Eq c d (p.parseWith call c) (p.parseWith call d) := by
  induction p generalizing c d with
  | satisfy accepts => exact readElement_parallel accepts same
  | word expected => exact readWord_parallel expected same
  | succeed value => exact .stand rfl c d
  | map p f ih =>
      refine (ih same).map ?_
      rintro value _ rfl
      rfl
  | filter p keep ih =>
      refine (ih same).bind ?_
      rintro value _ count rfl -
      cases keep value with
      | true => exact .stand rfl _ _
      | false => exact .noMatch
  | filterMap p f ih =>
      refine (ih same).bind ?_
      rintro value _ count rfl -
      cases f value with
      | some changed => exact .stand rfl _ _
      | none => exact .noMatch
  | sequence p q combine ihp ihq =>
      refine (ihp same).bind ?_
      rintro first _ count rfl -
      refine (ihq (Cursor.remaining_advanceBy_congr same count)).map ?_
      rintro second _ rfl
      rfl
  | apply p q ihp ihq =>
      refine (ihp same).bind ?_
      rintro f _ count rfl -
      refine (ihq (Cursor.remaining_advanceBy_congr same count)).map ?_
      rintro argument _ rfl
      rfl
  | orElse p q ihp ihq => exact (ihp same).orElse (ihq same)
  | optional p ih =>
      refine Parallel.orElse ((ih same).map ?_) (.stand rfl c d)
      rintro value _ rfl
      rfl
  | repeated p least most ih =>
      -- lists of equal values are equal
      rw [← List.forall₂_eq_eq_eq]
      exact between_parallel least most (.of_remaining_eq same ih)
  | separated item separator ihItem ihSeparator =>
      rw [← List.forall₂_eq_eq_eq]
      exact separated_parallel (.of_remaining_eq same ihItem) (.of_remaining_eq same ihSeparator)
  | rule name => exact rules name same

end Parser

namespace Grammar

variable [DecidableEq ε]

/-- Rules read in parallel where the same content is left, to every depth. -/
theorem callTo_parallel (g : Grammar ε τ) (depth : Nat) (name : ν) {c d : Cursor ε}
    (same : c.remaining = d.remaining) :
    Parallel Eq c d (g.callTo depth name c) (g.callTo depth name d) := by
  induction depth generalizing name c d with
  | zero => exact .unfinished
  | succ depth ih => exact Parser.parseWith_parallel ih (g.body name) same

/-- Parsers and rules read in parallel where the same content is left. -/
theorem parse_parallel (g : Grammar ε τ) (p : Parser ε τ α) {c d : Cursor ε}
    (same : c.remaining = d.remaining) : Parallel Eq c d (g.parse p c) (g.parse p d) := by
  have sameDepth : g.depthBound c = g.depthBound d := by
    rw [depthBound, depthBound, Cursor.remainingCount_eq_of_remaining_eq same]
  unfold parse
  rw [← sameDepth]
  exact Parser.parseWith_parallel (g.callTo_parallel (g.depthBound c)) p same

end Grammar

/-! ## In terms of positions and content -/

namespace Cursor

/-- What is left at an index of a buffer is the buffer without the elements before the index. -/
theorem remaining_valid (buffer : Array ε) {index : Nat} (inside : index ≤ buffer.size) :
    (valid buffer index).remaining = buffer.toList.drop index := by
  rw [remaining, position, Nat.min_eq_left inside]
  rfl

/-- A fresh cursor over the end of a buffer has the same left as the cursor at the index where that
end begins. -/
theorem remaining_ofBuffer_extract (buffer : Array ε) {index : Nat} (inside : index ≤ buffer.size) :
    (ofBuffer (buffer.extract index)).remaining = (valid buffer index).remaining := by
  rw [remaining_ofBuffer, remaining_valid buffer inside, Array.toList_extract, List.extract_eq_take_drop]
  exact List.take_of_length_le (by simp)

/-- A fresh cursor stands at position zero. -/
theorem position_ofBuffer (buffer : Array ε) : (ofBuffer buffer).position = 0 := by
  unfold ofBuffer
  split
  · next empty =>
      rw [Array.isEmpty_iff] at empty
      rw [empty]
      rfl
  · exact Nat.zero_min _

end Cursor

variable [DecidableEq ε]

/-- What two readings have in common that start at the positions `origin` and `origin'` with the
same content left: they match, refuse the content or never end together, and after a match they
have the same value, the same content left, and as many elements passed. -/
def Outcome.SameReading (origin origin' : Nat) : Outcome ε α → Outcome ε α → Prop
  | .matched value rest, .matched value' rest' =>
      value = value' ∧ rest.sameContent rest' = true ∧
        ∃ count, rest.position = origin + count ∧ rest'.position = origin' + count
  | .noMatch, .noMatch => True
  | .unfinished, .unfinished => True
  | _, _ => False

/-- Parallel readings with equal values, from where the same content is left, are the same. -/
theorem Outcome.Parallel.sameReading {c d : Cursor ε} {first second : Outcome ε α}
    (parallel : Parallel Eq c d first second) (same : c.remaining = d.remaining) :
    SameReading c.position d.position first second := by
  cases parallel with
  | matched values count inside =>
      have inside' : count ≤ d.remainingCount :=
        Cursor.remainingCount_eq_of_remaining_eq same ▸ inside
      refine ⟨values, decide_eq_true (Cursor.remaining_advanceBy_congr same count), count, ?_, ?_⟩
      · exact c.position_advanceBy inside
      · exact d.position_advanceBy inside'
  | noMatch => trivial
  | unfinished => trivial

namespace Grammar

/-- **Reading depends only on the remaining content.** From cursors with the same content left every
parser reads the same, whatever lies before them. So reading at an index of a buffer is reading a
buffer that begins there, with all positions shifted by the index. -/
theorem parse_sameReading (g : Grammar ε τ) (p : Parser ε τ α) :
    (∀ c d : Cursor ε, c.sameContent d = true →
      SameReading c.position d.position (g.parse p c) (g.parse p d)) ∧
    ∀ (buffer : Array ε) (index : Nat), index ≤ buffer.size →
      SameReading index 0 (g.parse p (.valid buffer index))
        (g.parse p (.ofBuffer (buffer.extract index))) := by
  -- equality of cursors as the program decides it is equality of what is left
  have reading : ∀ c d : Cursor ε, c.remaining = d.remaining →
      SameReading c.position d.position (g.parse p c) (g.parse p d) :=
    fun c d same => (g.parse_parallel p same).sameReading same
  refine ⟨fun c d same => reading c d (of_decide_eq_true same), ?_⟩
  intro buffer index inside
  have suffix := reading (.valid buffer index) (.ofBuffer (buffer.extract index))
    (Cursor.remaining_ofBuffer_extract buffer inside).symm
  have here : (Cursor.valid buffer index).position = index := Nat.min_eq_left inside
  rwa [here, Cursor.position_ofBuffer] at suffix

/-- The same three letters are left inside one buffer and in another, and two of them are read from
either, as they are from the end of the first buffer on its own. An index far beyond the end of a
buffer and the end of an empty one have the same left too, and nothing is read there. -/
theorem parse_sameReading_two_buffers :
    let g := ruleless (ε := Char) (τ := fun _ => Nat)
    let p := (Parser.satisfy (· != 'c')).many
    let buffer := #['x', 'a', 'b', 'c']
    let inner := Cursor.valid buffer 1
    let fresh := Cursor.valid #['a', 'b', 'c'] 0
    let beyond := Cursor.valid #['a'] 7
    let empty := Cursor.endOfInput #[]
    (inner.sameContent fresh = true ∧ SameReading 1 0 (g.parse p inner) (g.parse p fresh) ∧
      g.parse p inner = .matched ['a', 'b'] (.valid buffer 3) ∧
      g.parse p fresh = .matched ['a', 'b'] (.valid #['a', 'b', 'c'] 2)) ∧
    (1 ≤ buffer.size ∧
      SameReading 1 0 (g.parse p inner) (g.parse p (.ofBuffer (buffer.extract 1)))) ∧
    beyond.sameContent empty = true ∧ SameReading 1 0 (g.parse p beyond) (g.parse p empty) := by
  intro g p buffer inner fresh beyond empty
  have sameInside : inner.sameContent fresh = true := by decide
  have sameBeyond : beyond.sameContent empty = true := by decide
  have inside : 1 ≤ buffer.size := by decide
  obtain ⟨ofCursors, ofSuffix⟩ := g.parse_sameReading p
  exact ⟨⟨sameInside, ofCursors inner fresh sameInside, by cbv, by cbv⟩,
    ⟨inside, ofSuffix buffer 1 inside⟩, sameBeyond, ofCursors beyond empty sameBeyond⟩

end Grammar

end ParserCombinators
