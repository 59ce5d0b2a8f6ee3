import ParserCombinators.Cursor.Basic

/-! # Cursors through their remaining content

Each operation on cursors is characterised by what it does to `Cursor.remaining`: reading takes the
head, advancing takes the tail, and the count is the length. Nothing outside this file has to look
at the two forms of a cursor. -/

namespace ParserCombinators.Cursor

variable {ε : Type}

/-- The position never passes the end of the buffer. -/
theorem position_le_size (c : Cursor ε) : c.position ≤ c.buffer.size := by
  cases c with
  | valid buffer index => exact Nat.min_le_right index buffer.size
  | endOfInput buffer => exact Nat.le_refl _

/-- A cursor is taken apart into its buffer and its position. -/
theorem inner_eq (c : Cursor ε) : c.inner = (c.buffer, c.position) := by
  cases c with
  | valid buffer index => rfl
  | endOfInput buffer => rfl

/-- The position and the count of what remains make up the buffer. -/
theorem position_add_remainingCount (c : Cursor ε) :
    c.position + c.remainingCount = c.buffer.size := by
  have inside := c.position_le_size
  unfold remainingCount
  omega

/-- The count of remaining elements is the length of the remaining content. -/
@[simp] theorem length_remaining (c : Cursor ε) : c.remaining.length = c.remainingCount := by
  simp [remaining, remainingCount]

/-- Cursors with the same content left have as many elements left. -/
theorem remainingCount_eq_of_remaining_eq {c d : Cursor ε} (same : c.remaining = d.remaining) :
    c.remainingCount = d.remainingCount := by
  rw [← length_remaining, same, length_remaining]

/-- What is next is no longer than what is left. -/
theorem length_le_remainingCount {c : Cursor ε} {next : List ε} (isNext : next <+: c.remaining) :
    next.length ≤ c.remainingCount := by
  rw [← length_remaining]
  exact isNext.length_le

/-- The next element is the head of the remaining content. -/
theorem first?_eq_head? (c : Cursor ε) : c.first? = c.remaining.head? := by
  cases c with
  | valid buffer index =>
      simp only [first?, remaining, Cursor.buffer, position, List.head?_drop]
      by_cases inside : index < buffer.size
      · rw [Nat.min_eq_left (Nat.le_of_lt inside), Array.getElem?_toList]
      · have beyond : buffer.size ≤ index := Nat.le_of_not_lt inside
        rw [Nat.min_eq_right beyond, Array.getElem?_eq_none beyond,
          List.getElem?_eq_none (by simp)]
  | endOfInput buffer =>
      simp [first?, remaining, Cursor.buffer, position]

/-- Advancing takes the tail of the remaining content. -/
@[simp] theorem remaining_advance (c : Cursor ε) : c.advance.remaining = c.remaining.tail := by
  cases c with
  | valid buffer index =>
      by_cases last : buffer.size - 1 ≤ index
      · simp only [advance, if_pos last, remaining, Cursor.buffer, position, List.tail_drop]
        rw [List.drop_eq_nil_of_le (by simp), List.drop_eq_nil_of_le (by simp; omega)]
      · simp only [advance, if_neg last, remaining, Cursor.buffer, position, List.tail_drop]
        rw [Nat.min_eq_left (by omega), Nat.min_eq_left (by omega)]
  | endOfInput buffer =>
      simp [advance, remaining, Cursor.buffer, position]

/-- Advancing stays in the same buffer. -/
@[simp] theorem buffer_advance (c : Cursor ε) : c.advance.buffer = c.buffer := by
  cases c with
  | valid buffer index => simp only [advance]; split <;> rfl
  | endOfInput buffer => rfl

/-- Advancing leaves one element less, if any is left. -/
@[simp] theorem remainingCount_advance (c : Cursor ε) :
    c.advance.remainingCount = c.remainingCount - 1 := by
  rw [← length_remaining, remaining_advance, List.length_tail, length_remaining]

/-- A fresh cursor has the whole buffer left. -/
@[simp] theorem remaining_ofBuffer (buffer : Array ε) :
    (ofBuffer buffer).remaining = buffer.toList := by
  unfold ofBuffer
  split
  · next empty => simp_all [remaining, Cursor.buffer, position]
  · simp [remaining, Cursor.buffer, position]

/-- A fresh cursor looks into the buffer. -/
@[simp] theorem buffer_ofBuffer (buffer : Array ε) : (ofBuffer buffer).buffer = buffer := by
  unfold ofBuffer
  split <;> rfl

/-- There is nothing left exactly when the remaining content is empty. -/
theorem atEnd_iff (c : Cursor ε) : c.atEnd = true ↔ c.remaining = [] := by
  simp [atEnd, first?_eq_head?]

/-- Where there is a next element, at least one element is left. -/
theorem remainingCount_pos_of_first? {c : Cursor ε} {element : ε} (next : c.first? = some element) :
    0 < c.remainingCount := by
  rw [first?_eq_head?] at next
  rw [← length_remaining]
  cases content : c.remaining with
  | nil => simp [content] at next
  | cons head tail => simp

/-- Several steps drop as many elements from the remaining content. -/
@[simp] theorem remaining_advanceBy (c : Cursor ε) (count : Nat) :
    (c.advanceBy count).remaining = c.remaining.drop count := by
  induction count with
  | zero => rfl
  | succ count ih => simp [advanceBy, ih]

/-- Two parts are next after one another exactly if the first is next and, after as many steps as it
is long, the second. -/
theorem append_prefix_remaining_iff (c : Cursor ε) (first second : List ε) :
    first ++ second <+: c.remaining ↔
      first <+: c.remaining ∧ second <+: (c.advanceBy first.length).remaining := by
  rw [remaining_advanceBy]
  constructor
  · rintro ⟨behind, content⟩
    rw [← content, List.append_assoc, List.drop_left]
    exact ⟨List.prefix_append _ _, List.prefix_append _ _⟩
  · rintro ⟨⟨behind, content⟩, further⟩
    rw [← content, List.drop_left] at further
    rwa [← content, List.prefix_append_right_inj]

/-- The same number of steps leaves the same content where the same content was left. -/
theorem remaining_advanceBy_congr {c d : Cursor ε} (same : c.remaining = d.remaining)
    (count : Nat) : (c.advanceBy count).remaining = (d.advanceBy count).remaining := by
  rw [remaining_advanceBy, remaining_advanceBy, same]

/-- Several steps stay in the same buffer. -/
@[simp] theorem buffer_advanceBy (c : Cursor ε) (count : Nat) :
    (c.advanceBy count).buffer = c.buffer := by
  induction count with
  | zero => rfl
  | succ count ih => simp [advanceBy, ih]

/-- Several steps leave as many elements less. -/
@[simp] theorem remainingCount_advanceBy (c : Cursor ε) (count : Nat) :
    (c.advanceBy count).remainingCount = c.remainingCount - count := by
  rw [← length_remaining, remaining_advanceBy, List.length_drop, length_remaining]

/-- Within what is left, every step adds one to the position. -/
theorem position_advanceBy (c : Cursor ε) {count : Nat} (inside : count ≤ c.remainingCount) :
    (c.advanceBy count).position = c.position + count := by
  have before := c.position_add_remainingCount
  have after := (c.advanceBy count).position_add_remainingCount
  rw [buffer_advanceBy, remainingCount_advanceBy] at after
  omega

/-- A fresh cursor is canonical. -/
theorem canonical_ofBuffer (buffer : Array ε) : (ofBuffer buffer).Canonical := by
  unfold ofBuffer
  split
  · trivial
  · next nonempty =>
      have pos : 0 < buffer.size := by simpa [Array.size_pos_iff] using nonempty
      exact pos

/-- A step leads to a canonical cursor, even from one that is not. -/
theorem canonical_advance (c : Cursor ε) : c.advance.Canonical := by
  cases c with
  | valid buffer index =>
      by_cases last : buffer.size - 1 ≤ index
      · rw [advance, if_pos last]
        trivial
      · rw [advance, if_neg last]
        show index + 1 < buffer.size
        omega
  | endOfInput buffer => trivial

/-- Some steps lead to a canonical cursor, wherever they start. -/
theorem canonical_advanceBy_of_pos (c : Cursor ε) {count : Nat} (some : 0 < count) :
    (c.advanceBy count).Canonical := by
  obtain ⟨before, rfl⟩ : ∃ before, count = before + 1 := ⟨count - 1, by omega⟩
  exact canonical_advance (c.advanceBy before)

/-- Steps lead from a canonical cursor to canonical cursors. -/
theorem canonical_advanceBy {c : Cursor ε} (canonical : c.Canonical) (count : Nat) :
    (c.advanceBy count).Canonical := by
  rcases Nat.eq_zero_or_pos count with rfl | some
  · exact canonical
  · exact c.canonical_advanceBy_of_pos some

/-- A canonical cursor is marked as being at the end exactly when nothing is left. -/
theorem eq_endOfInput_iff_of_canonical {c : Cursor ε} (canonical : c.Canonical) :
    c = .endOfInput c.buffer ↔ c.remaining = [] := by
  cases c with
  | valid buffer index =>
      have inside : index < buffer.size := canonical
      have some : (valid buffer index).remaining.length ≠ 0 := by
        rw [length_remaining, remainingCount, Cursor.buffer, position]
        omega
      exact iff_of_false nofun fun empty => some (by rw [empty, List.length_nil])
  | endOfInput buffer =>
      refine iff_of_true rfl ?_
      simp [remaining, Cursor.buffer, position]

/-- Steps add up. -/
theorem advanceBy_add (c : Cursor ε) (count further : Nat) :
    c.advanceBy (count + further) = (c.advanceBy count).advanceBy further := by
  induction further with
  | zero => rfl
  | succ further ih => simp [advanceBy, ih]

/-- Steps after a first one are one step more. -/
theorem advanceBy_advance (c : Cursor ε) (count : Nat) :
    c.advance.advanceBy count = c.advanceBy (count + 1) := by
  rw [Nat.add_comm, advanceBy_add]
  rfl

namespace Reaches

/-- A cursor reaches itself. -/
theorem refl (c : Cursor ε) : c.Reaches c :=
  ⟨0, Nat.zero_le _, rfl⟩

/-- What is reached from a reached cursor is reached. -/
theorem trans {c d e : Cursor ε} (first : c.Reaches d) (second : d.Reaches e) : c.Reaches e := by
  obtain ⟨count, inside, rfl⟩ := first
  obtain ⟨further, furtherInside, rfl⟩ := second
  rw [remainingCount_advanceBy] at furtherInside
  exact ⟨count + further, by omega, (c.advanceBy_add count further).symm⟩

/-- Stepping over a next element reaches the cursor after it. -/
theorem advance {c : Cursor ε} {element : ε} (next : c.first? = some element) :
    c.Reaches c.advance :=
  ⟨1, remainingCount_pos_of_first? next, rfl⟩

/-- A reached cursor has no more elements left. -/
theorem remainingCount_le {c d : Cursor ε} (reaches : c.Reaches d) :
    d.remainingCount ≤ c.remainingCount := by
  obtain ⟨count, -, rfl⟩ := reaches
  rw [remainingCount_advanceBy]
  exact Nat.sub_le _ _

/-- A reached cursor at another position has fewer elements left. -/
theorem remainingCount_lt {c d : Cursor ε} (reaches : c.Reaches d)
    (moved : d.position ≠ c.position) : d.remainingCount < c.remainingCount := by
  obtain ⟨count, inside, rfl⟩ := reaches
  rw [c.position_advanceBy inside] at moved
  rw [remainingCount_advanceBy]
  omega

/-- A reached cursor that has as many elements left is the same cursor. -/
theorem eq_of_remainingCount_le {c d : Cursor ε} (reaches : c.Reaches d)
    (asMany : c.remainingCount ≤ d.remainingCount) : d = c := by
  obtain ⟨count, inside, rfl⟩ := reaches
  rw [remainingCount_advanceBy] at asMany
  have none : count = 0 := by omega
  subst none
  rfl

/-- A reached cursor at the same position is the same cursor. -/
theorem eq_of_position_eq {c d : Cursor ε} (reaches : c.Reaches d)
    (stands : d.position = c.position) : d = c := by
  obtain ⟨count, inside, rfl⟩ := reaches
  rw [c.position_advanceBy inside] at stands
  have none : count = 0 := by omega
  subst none
  rfl

/-- A reached cursor is the same or has fewer elements left. -/
theorem eq_or_remainingCount_lt {c d : Cursor ε} (reaches : c.Reaches d) :
    d = c ∨ d.remainingCount < c.remainingCount := by
  rcases Nat.lt_or_ge d.remainingCount c.remainingCount with fewer | asMany
  · exact Or.inr fewer
  · exact Or.inl (reaches.eq_of_remainingCount_le asMany)

/-- Cursors that reach each other are the same. -/
theorem antisymm {c d : Cursor ε} (forth : c.Reaches d) (back : d.Reaches c) : d = c :=
  forth.eq_of_remainingCount_le back.remainingCount_le

end Reaches

end ParserCombinators.Cursor
