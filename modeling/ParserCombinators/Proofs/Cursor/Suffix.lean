import ParserCombinators.Cursor.Lemmas
import ParserCombinators.Numeral.IntRange

/-! # A cursor is a suffix of its buffer

Whatever cursor is started from and however often it is advanced, all that can be asked of it is
decided by the elements that it has left.

* **`Cursor.StepsAfter`** — the answers of a cursor that stands a number of steps after another;
  **`Cursor.stepsAfter_advanceBy`** — the steps lead to such a cursor.
* **`Cursor.canonical_iff`** — a cursor is canonical when it is marked as being at the end exactly
  where nothing is left.
* **`Cursor.advance?`** — a step whose index is checked to be a size;
  **`Cursor.advance?_eq_some`** — in a buffer whose size is one, no step fails the check.
* **`Cursor.readAll`** — what comes up when a cursor is read and advanced to the end;
  **`Cursor.readAll_eq_remaining`** — it is the remaining content.
* **`Cursor.advanceBy_isSuffix`** — all of it together. -/

namespace ParserCombinators.Cursor

variable {ε : Type}

/-- The position after a number of steps: every step adds one, up to the end of the buffer. -/
theorem position_advanceBy_eq_min (c : Cursor ε) (count : Nat) :
    (c.advanceBy count).position = min (c.position + count) c.buffer.size := by
  have before := c.position_add_remainingCount
  have after := (c.advanceBy count).position_add_remainingCount
  rw [buffer_advanceBy, remainingCount_advanceBy] at after
  omega

/-- The elements before a position are as many as the position tells, and those that remain follow
them. -/
theorem exists_read (c : Cursor ε) :
    ∃ read, c.buffer.toList = read ++ c.remaining ∧ read.length = c.position := by
  refine ⟨c.buffer.toList.take c.position, ?_, ?_⟩
  · exact (List.take_append_drop c.position c.buffer.toList).symm
  · rw [List.length_take, Array.length_toList]
    exact Nat.min_eq_left c.position_le_size

/-- No next element is the same as nothing left. -/
theorem first?_eq_none_iff (c : Cursor ε) : c.first? = none ↔ c.remaining = [] := by
  rw [first?_eq_head?, List.head?_eq_none_iff]

/-- A cursor has nothing left exactly at the end of its buffer. -/
theorem position_eq_size_iff (c : Cursor ε) : c.position = c.buffer.size ↔ c.remaining = [] := by
  have sum := c.position_add_remainingCount
  rw [← List.length_eq_zero_iff, length_remaining]
  omega

/-- What the operations on cursors answer at `e`, which stands `count` steps after `c`. -/
structure StepsAfter (c : Cursor ε) (count : Nat) (e : Cursor ε) : Prop where
  /-- The buffer is the same. -/
  buffer_eq : e.buffer = c.buffer
  /-- Each step has added one to the position, up to the end of the buffer. -/
  position_eq : e.position = min (c.position + count) c.buffer.size
  /-- Each step has taken one element off the remaining content. -/
  remaining_eq : e.remaining = c.remaining.drop count
  /-- The position is inside the buffer. -/
  position_le_size : e.position ≤ e.buffer.size
  /-- The remaining content is what the buffer holds behind as many elements as the position
  tells. -/
  exists_read : ∃ read, e.buffer.toList = read ++ e.remaining ∧ read.length = e.position
  /-- The next element is the first that remains. -/
  first?_eq : e.first? = e.remaining.head?
  /-- There is no next element exactly when nothing remains. -/
  first?_eq_none_iff : e.first? = none ↔ e.remaining = []
  /-- The cursor is at the end exactly when nothing remains. -/
  atEnd_iff : e.atEnd = true ↔ e.remaining = []
  /-- The position is the size of the buffer exactly when nothing remains. -/
  position_eq_size_iff : e.position = e.buffer.size ↔ e.remaining = []
  /-- Taken apart, the cursor gives its buffer and its position. -/
  inner_eq : e.inner = (e.buffer, e.position)

/-- A number of steps leads to the cursor that stands so many steps later. -/
theorem stepsAfter_advanceBy (c : Cursor ε) (count : Nat) :
    c.StepsAfter count (c.advanceBy count) where
  buffer_eq := c.buffer_advanceBy count
  position_eq := c.position_advanceBy_eq_min count
  remaining_eq := c.remaining_advanceBy count
  position_le_size := position_le_size _
  exists_read := exists_read _
  first?_eq := first?_eq_head? _
  first?_eq_none_iff := first?_eq_none_iff _
  atEnd_iff := atEnd_iff _
  position_eq_size_iff := position_eq_size_iff _
  inner_eq := inner_eq _

/-- A cursor is canonical exactly when it is marked as being at the end where nothing is left, and
nowhere else. -/
theorem canonical_iff (c : Cursor ε) :
    c.Canonical ↔ (c = .endOfInput c.buffer ↔ c.remaining = []) := by
  constructor
  · exact eq_endOfInput_iff_of_canonical
  · intro marked
    cases c with
    | valid buffer index =>
        -- an index beyond the buffer would leave nothing, without the mark
        refine Nat.lt_of_not_le fun beyond => ?_
        have nothing : (valid buffer index).remaining = [] :=
          (position_eq_size_iff _).1 (Nat.min_eq_right beyond)
        cases marked.2 nothing
    | endOfInput buffer => trivial

/-- The cursor after the next element, where the sum that gives its index is checked: `none` if it
is not a size. -/
def advance? : Cursor ε → Option (Cursor ε)
  | .valid buffer index =>
      if buffer.size - 1 ≤ index then some (.endOfInput buffer)
      else if IsSize (index + 1) then some (.valid buffer (index + 1))
      else none
  | .endOfInput buffer => some (.endOfInput buffer)

/-- In a buffer whose size is one that a size can have, a step does not leave the sizes. -/
theorem advance?_eq_some {c : Cursor ε} (isSize : IsSize c.buffer.size) :
    c.advance? = some c.advance := by
  cases c with
  | valid buffer index =>
      by_cases last : buffer.size - 1 ≤ index
      · simp only [advance?, advance, if_pos last]
      · have inside : index + 1 ≤ buffer.size := by omega
        simp only [advance?, advance, if_neg last, if_pos (isSize.of_le inside)]
  | endOfInput buffer => rfl

/-- The elements that come up when the next element is read and stepped over for as long as there is
one. -/
def readAll (c : Cursor ε) : List ε :=
  match _next : c.first? with
  | some element => element :: readAll c.advance
  | none => []
termination_by c.remainingCount
decreasing_by
  have some := remainingCount_pos_of_first? _next
  rw [remainingCount_advance]
  omega

/-- Reading to the end brings up the remaining content. -/
theorem readAll_eq_remaining (c : Cursor ε) : c.readAll = c.remaining := by
  induction c using readAll.induct with
  | case1 c element next ih =>
      obtain ⟨others, content⟩ := List.head?_eq_some_iff.1 ((first?_eq_head? c).symm.trans next)
      rw [readAll, next]
      simp only [ih, remaining_advance, content, List.tail_cons]
  | case2 c next =>
      rw [readAll, next]
      exact ((first?_eq_none_iff c).1 next).symm

/-- Two cursors compare equal exactly when the same elements come up at both. -/
theorem sameContent_iff_readAll_eq [DecidableEq ε] (c d : Cursor ε) :
    c.sameContent d = true ↔ c.readAll = d.readAll := by
  rw [sameContent, decide_eq_true_iff, readAll_eq_remaining, readAll_eq_remaining]

/-- **A cursor is a suffix of its buffer, through any number of steps.** Wherever it starts, in or
beyond the buffer, each step takes one element off what is left, and the operations answer as what
is left tells. From the start of a buffer every cursor is marked as being at the end exactly when
nothing is left, and so is every cursor that has been advanced. No step leaves the sizes. Cursors
compare equal exactly when reading and advancing brings up the same elements. -/
theorem advanceBy_isSuffix [DecidableEq ε] :
    (∀ (c : Cursor ε) (count : Nat), c.StepsAfter count (c.advanceBy count)) ∧
    (∀ (buffer : Array ε) (index count : Nat),
      ((valid buffer index).advanceBy count).position = min (index + count) buffer.size) ∧
    (∀ (buffer : Array ε) (count : Nat) (e : Cursor ε), e = (ofBuffer buffer).advanceBy count →
      (e = .endOfInput buffer ↔ e.remaining = [])) ∧
    (∀ (c : Cursor ε) (count : Nat) (e : Cursor ε), e = c.advanceBy (count + 1) →
      (e = .endOfInput c.buffer ↔ e.remaining = [])) ∧
    (∀ (c : Cursor ε) (count : Nat), IsSize c.buffer.size →
      (c.advanceBy count).advance? = some (c.advanceBy (count + 1))) ∧
    ∀ c d : Cursor ε, c.sameContent d = true ↔ c.readAll = d.readAll := by
  refine ⟨stepsAfter_advanceBy, fun buffer index count => ?_, ?_, ?_, fun c count isSize => ?_,
    sameContent_iff_readAll_eq⟩
  · have inBuffer := (valid buffer index).position_advanceBy_eq_min count
    rw [inBuffer, Cursor.buffer, position]
    omega
  · rintro buffer count e rfl
    have marked := (canonical_iff _).1 (canonical_advanceBy (canonical_ofBuffer buffer) count)
    rwa [buffer_advanceBy, buffer_ofBuffer] at marked
  · rintro c count e rfl
    have marked := (canonical_iff _).1 (c.canonical_advanceBy_of_pos count.succ_pos)
    rwa [buffer_advanceBy] at marked
  · exact advance?_eq_some (by rwa [buffer_advanceBy])

/-- Two steps from an index inside a buffer, the second of which leads to the last element, and two
from an index beyond the end of a buffer. -/
theorem advanceBy_isSuffix_two_steps :
    let inner := Cursor.valid #['a', 'b', 'c', 'd'] 1
    let beyond := Cursor.valid #['a'] 7
    (IsSize inner.buffer.size ∧ (inner.advanceBy 1).advance? = some (inner.advanceBy 2) ∧
      inner.advanceBy 2 = .valid #['a', 'b', 'c', 'd'] 3) ∧
    IsSize beyond.buffer.size ∧ (beyond.advanceBy 1).advance? = some (beyond.advanceBy 2) ∧
      beyond.advanceBy 2 = .endOfInput #['a'] := by
  intro inner beyond
  have innerSize : IsSize inner.buffer.size := by decide
  have beyondSize : IsSize beyond.buffer.size := by decide
  exact ⟨⟨innerSize, advanceBy_isSuffix.2.2.2.2.1 inner 1 innerSize, rfl⟩,
    beyondSize, advanceBy_isSuffix.2.2.2.2.1 beyond 1 beyondSize, rfl⟩

end ParserCombinators.Cursor
