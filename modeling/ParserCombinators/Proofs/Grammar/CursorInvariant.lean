import ParserCombinators.Grammar.Depth
import ParserCombinators.Parser.Character

/-! # What a match does to the cursor

* **`Cursor.Follows`** — how the cursor after a match stands to the cursor before it.
* **`Cursor.Reaches.follows`** — whatever reading can come to follows: the invariant of a number of
  steps.
* **`Grammar.parse_follows`** — the cursor after a match follows the one before it, for every parser
  and every grammar. -/

namespace ParserCombinators

variable {ε : Type}

namespace Cursor

/-- How the cursor `e` after a match stands to the cursor `c` before it. A cursor that has not moved
is the very same, and one that has moved is canonical even if `c` is not. -/
structure Follows (c e : Cursor ε) : Prop where
  /-- The match stays in the buffer. -/
  buffer_eq : e.buffer = c.buffer
  /-- The match never goes back. -/
  position_le : c.position ≤ e.position
  /-- The match never passes the end of the buffer. -/
  position_le_size : e.position ≤ c.buffer.size
  /-- What is left after the match is what was left before it, without the elements read. -/
  remaining_eq : e.remaining = c.remaining.drop (e.position - c.position)
  /-- Without an advance the cursor is the same, in form and in index. -/
  eq_of_position_eq : e.position = c.position → e = c
  /-- The cursor is canonical if the start is or if it has moved. -/
  canonical : c.Canonical ∨ e.position ≠ c.position → e.Canonical
  /-- The cursor is marked as being at the end exactly when nothing is left. -/
  marked_iff : c.Canonical ∨ e.position ≠ c.position →
    (e = .endOfInput e.buffer ↔ e.remaining = [])

/-- A cursor that reading can come to follows its start. -/
theorem Reaches.follows {c e : Cursor ε} (reaches : c.Reaches e) : c.Follows e := by
  obtain ⟨count, inside, rfl⟩ := reaches
  have moved : (c.advanceBy count).position = c.position + count := c.position_advanceBy inside
  have atMost : (c.advanceBy count).position ≤ (c.advanceBy count).buffer.size :=
    position_le_size _
  have canonical : c.Canonical ∨ (c.advanceBy count).position ≠ c.position →
      (c.advanceBy count).Canonical := by
    rintro (start | away)
    · exact canonical_advanceBy start count
    · exact c.canonical_advanceBy_of_pos (by omega)
  refine ⟨c.buffer_advanceBy count, by omega, ?_, ?_, ?_, canonical, fun start => ?_⟩
  · rwa [buffer_advanceBy] at atMost
  · rw [remaining_advanceBy, moved, Nat.add_sub_cancel_left]
  · intro stands
    have none : count = 0 := by omega
    rw [none]
    rfl
  · exact eq_endOfInput_iff_of_canonical (canonical start)

end Cursor

namespace Grammar

variable {ν : Type} {τ : ν → Type} {α : Type}

/-- **Every match keeps the cursor invariant.** Whatever a parser reads with the rules of a grammar,
the cursor after the match follows the cursor before it. -/
theorem parse_follows [DecidableEq ε] (g : Grammar ε τ) (p : Parser ε τ α) (c : Cursor ε)
    {value : α} {e : Cursor ε} (found : g.parse p c = .matched value e) : c.Follows e :=
  (g.parse_leadsOnFrom p c value e found).follows

/-- The depth of nested parentheses, by a rule that refers to itself. -/
def nesting : Grammar Char (fun _ : Unit => Nat) where
  names := [()]
  mem_names := fun _ => List.mem_singleton.2 rfl
  body := fun _ =>
    (((Parser.char '(').keepRight ((Parser.rule ()).keepLeft (Parser.char ')'))).map (· + 1)).orElse
      (.succeed 0)

/-- In `a(())` the match after the first character takes the rest of the buffer: it leads from
an index to the mark of the end. -/
theorem nesting_follows :
    nesting.parse (.rule ()) (.valid #['a', '(', '(', ')', ')'] 1) =
        .matched 2 (.endOfInput #['a', '(', '(', ')', ')']) ∧
      (Cursor.valid #['a', '(', '(', ')', ')'] 1).Follows
        (.endOfInput #['a', '(', '(', ')', ')']) := by
  have found : nesting.parse (.rule ()) (.valid #['a', '(', '(', ')', ')'] 1) =
      .matched 2 (.endOfInput #['a', '(', '(', ')', ')']) := by decide
  exact ⟨found, nesting.parse_follows (.rule ()) (.valid #['a', '(', '(', ')', ')'] 1) found⟩

end Grammar

end ParserCombinators
