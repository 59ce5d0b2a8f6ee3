import ParserCombinators.Grammar.Equations

/-! # Repeating the parser of one element

Elements that satisfy a predicate, read as long as there are any, are the longest beginning of the
remaining content that consists of such elements. A bound on the number of rounds cuts it short.

* **`IsSpanLength`** — the length of that beginning; **`isSpanLength_takeWhile`** and
  **`IsSpanLength.unique`** — it has one, and only one.
* **`Parser.readElement_of_remaining_eq_cons`**, **`Parser.readElement_of_remaining_eq_nil`** — one
  element, in terms of the content.
* **`Cursor.remaining_advanceBy_span`** — what is left after a span.
* **`Repetition.unbounded_readElement`** — repetition without a bound takes the span, or refuses it
  if it is too short; **`Repetition.upTo_readElement`** — repetition with a bound takes as much of it
  as the bound allows.
* **`Grammar.parse_repeated_satisfy`** — repetition without a bound, as a parser.
* **`Grammar.parse_repeated_satisfy_boundedSpan`** — repetition with any bounds, as a parser. -/

namespace ParserCombinators

variable {ε ν : Type} {τ : ν → Type}

/-- The length of the longest beginning of the content all of whose elements the predicate accepts. -/
structure IsSpanLength (accepts : ε → Bool) (content : List ε) (length : Nat) : Prop where
  /-- The content is as long. -/
  le_length : length ≤ content.length
  /-- The elements of the beginning are accepted. -/
  accepted : ∀ element ∈ content.take length, accepts element = true
  /-- No longer beginning consists of accepted elements. -/
  longest : ∀ longer ≤ content.length,
    (∀ element ∈ content.take longer, accepts element = true) → longer ≤ length

/-- Taking elements as long as they are accepted takes the longest beginning. -/
theorem isSpanLength_takeWhile (accepts : ε → Bool) (content : List ε) :
    IsSpanLength accepts content (content.takeWhile accepts).length where
  le_length := (List.takeWhile_sublist accepts).length_le
  accepted element mem := by
    rw [← List.prefix_iff_eq_take.1 (List.takeWhile_prefix accepts)] at mem
    exact List.all_eq_true.1 List.all_takeWhile element mem
  longest longer inside all := by
    have begins : content.take longer <+: content.takeWhile accepts := by
      rw [← List.take_append_drop longer content, List.takeWhile_append_of_pos all,
        List.take_append_drop]
      exact List.prefix_append _ _
    calc longer = (content.take longer).length := (List.length_take_of_le inside).symm
      _ ≤ (content.takeWhile accepts).length := begins.length_le

/-- Elements from the beginning of the span are elements from the beginning of the content. -/
theorem take_takeWhile_eq (accepts : ε → Bool) (content : List ε) (limit : Nat) :
    (content.takeWhile accepts).take limit =
      content.take (min (content.takeWhile accepts).length limit) := by
  rw [Nat.min_comm, ← List.take_take, ← List.prefix_iff_eq_take.1 (List.takeWhile_prefix accepts)]

/-- There is one length of the longest beginning. -/
theorem IsSpanLength.unique {accepts : ε → Bool} {content : List ε} {length length' : Nat}
    (span : IsSpanLength accepts content length) (span' : IsSpanLength accepts content length') :
    length = length' :=
  Nat.le_antisymm (span'.longest length span.le_length span.accepted)
    (span.longest length' span'.le_length span'.accepted)

namespace Parser

/-- Where an element is next, the predicate decides on it. -/
theorem readElement_of_remaining_eq_cons (accepts : ε → Bool) {c : Cursor ε} {head : ε}
    {tail : List ε} (content : c.remaining = head :: tail) :
    readElement accepts c = if accepts head then .matched head c.advance else .noMatch := by
  rw [readElement, Cursor.first?_eq_head?, content]
  rfl

/-- At the end of the input no element is read. -/
theorem readElement_of_remaining_eq_nil (accepts : ε → Bool) {c : Cursor ε}
    (content : c.remaining = []) : readElement accepts c = .noMatch := by
  rw [readElement, Cursor.first?_eq_head?, content]
  rfl

end Parser

/-- A step over an element changes the position. -/
theorem Cursor.position_advance_ne {c : Cursor ε} (some : c.remaining ≠ []) :
    c.advance.position ≠ c.position := by
  have one : 1 ≤ c.remainingCount := by
    rw [← Cursor.length_remaining]
    exact List.length_pos_iff.2 some
  have moved : c.advance.position = c.position + 1 := c.position_advanceBy one
  omega

/-- After the span of a predicate stands what comes after the span. -/
theorem Cursor.remaining_advanceBy_span (c : Cursor ε) (accepts : ε → Bool) :
    (c.advanceBy (c.remaining.takeWhile accepts).length).remaining =
      c.remaining.dropWhile accepts := by
  rw [remaining_advanceBy]
  calc c.remaining.drop (c.remaining.takeWhile accepts).length
      = (c.remaining.takeWhile accepts ++ c.remaining.dropWhile accepts).drop
          (c.remaining.takeWhile accepts).length := by rw [List.takeWhile_append_dropWhile]
    _ = c.remaining.dropWhile accepts := List.drop_left

namespace Repetition

/-- Where no element is taken, a repetition succeeds only if none is needed. -/
theorem stop_eq_matched_nil (least : Nat) (c : Cursor ε) :
    (stop least c : Outcome ε (List ε)) = if least ≤ 0 then .matched [] c else .noMatch := by
  simp only [stop, Nat.le_zero_eq]

/-- A round that takes an element, before rounds that take others, takes one element more, of which
one more may be needed. -/
theorem map_cons_taken (least : Nat) (c : Cursor ε) (head : ε) (others : List ε) :
    (if least - 1 ≤ others.length then
        (.matched others (c.advance.advanceBy others.length) : Outcome ε (List ε))
      else .noMatch).map (head :: ·) =
      if least ≤ (head :: others).length then
        .matched (head :: others) (c.advanceBy (head :: others).length)
      else .noMatch := by
  rw [List.length_cons, Cursor.advanceBy_advance]
  by_cases enough : least ≤ others.length + 1
  · rw [if_pos enough, if_pos (by omega), Outcome.map_matched]
  · rw [if_neg enough, if_neg (by omega), Outcome.map_noMatch]

/-- **Repetition takes the span.** One element, repeated without a bound, takes the longest
beginning of the content whose elements the predicate accepts, and refuses the content if that is
shorter than needed. -/
theorem unbounded_readElement (accepts : ε → Bool) (least : Nat) (c : Cursor ε) :
    unbounded (Parser.readElement accepts) least c =
      if least ≤ (c.remaining.takeWhile accepts).length then
        .matched (c.remaining.takeWhile accepts)
          (c.advanceBy (c.remaining.takeWhile accepts).length)
      else .noMatch := by
  -- the content goes down by one element with every round, whatever is still needed
  induction content : c.remaining generalizing c least with
  | nil =>
      rw [unbounded, Parser.readElement_of_remaining_eq_nil accepts content]
      exact stop_eq_matched_nil least c
  | cons head tail ih =>
      have read := Parser.readElement_of_remaining_eq_cons accepts content
      by_cases accepted : accepts head
      · rw [if_pos accepted] at read
        have reaches := Parser.readElement_leadsOnFrom accepts c head c.advance read
        have moved : c.advance.position ≠ c.position :=
          Cursor.position_advance_ne (by rw [content]; exact List.cons_ne_nil head tail)
        have rest : c.advance.remaining = tail := by
          rw [Cursor.remaining_advance, content, List.tail_cons]
        rw [unbounded_of_matched read reaches, if_neg fun stands => moved stands.1,
          ih (least - 1) c.advance rest, List.takeWhile_cons_of_pos accepted]
        exact map_cons_taken least c head (tail.takeWhile accepts)
      · rw [if_neg accepted] at read
        rw [unbounded, read, List.takeWhile_cons_of_neg accepted]
        exact stop_eq_matched_nil least c

/-- **Bounded repetition takes the beginning of the span.** One element, repeated at most `limit`
times, takes the first `limit` elements of the longest beginning of the content whose elements the
predicate accepts, or all of them if there are fewer. -/
theorem upTo_readElement (accepts : ε → Bool) (limit least : Nat) (c : Cursor ε) :
    upTo (Parser.readElement accepts) limit least c =
      if least ≤ ((c.remaining.takeWhile accepts).take limit).length then
        .matched ((c.remaining.takeWhile accepts).take limit)
          (c.advanceBy ((c.remaining.takeWhile accepts).take limit).length)
      else .noMatch := by
  -- each round takes one from the bound and one element from the content
  induction limit generalizing least c with
  | zero => exact stop_eq_matched_nil least c
  | succ limit ih =>
      rw [upTo]
      cases content : c.remaining with
      | nil =>
          rw [Parser.readElement_of_remaining_eq_nil accepts content]
          exact stop_eq_matched_nil least c
      | cons head tail =>
          rw [Parser.readElement_of_remaining_eq_cons accepts content]
          by_cases accepted : accepts head
          · have rest : c.advance.remaining = tail := by
              rw [Cursor.remaining_advance, content, List.tail_cons]
            rw [if_pos accepted, List.takeWhile_cons_of_pos accepted, List.take_succ_cons]
            simp only [ih (least - 1) c.advance, rest]
            exact map_cons_taken least c head ((tail.takeWhile accepts).take limit)
          · rw [if_neg accepted, List.takeWhile_cons_of_neg accepted]
            exact stop_eq_matched_nil least c

end Repetition

namespace Grammar

variable [DecidableEq ε] (g : Grammar ε τ)

/-- The parser of one element, repeated without a bound, takes the span. -/
theorem parse_repeated_satisfy (accepts : ε → Bool) (least : Nat) (c : Cursor ε) :
    g.parse ((Parser.satisfy accepts).repeated least none) c =
      if least ≤ (c.remaining.takeWhile accepts).length then
        .matched (c.remaining.takeWhile accepts)
          (c.advanceBy (c.remaining.takeWhile accepts).length)
      else .noMatch := by
  rw [parse_repeated]
  exact Repetition.unbounded_readElement accepts least c

/-- The parser of one element, repeated at most `limit` times, takes the beginning of the span. -/
theorem parse_repeated_satisfy_some (accepts : ε → Bool) (least limit : Nat) (c : Cursor ε) :
    g.parse ((Parser.satisfy accepts).repeated least (some limit)) c =
      if least ≤ ((c.remaining.takeWhile accepts).take limit).length then
        .matched ((c.remaining.takeWhile accepts).take limit)
          (c.advanceBy ((c.remaining.takeWhile accepts).take limit).length)
      else .noMatch := by
  rw [parse_repeated]
  exact Repetition.upTo_readElement accepts limit least c

/-- The parser of one element, repeated, takes as many elements as the span has and the bound allows,
and refuses the content if these are fewer than needed. -/
theorem parse_repeated_satisfy_eq_take (accepts : ε → Bool) (least : Nat) (most : Option Nat)
    (c : Cursor ε) {count : Nat}
    (allowed : count = most.elim (c.remaining.takeWhile accepts).length
      (min (c.remaining.takeWhile accepts).length)) (inside : count ≤ c.remaining.length) :
    g.parse ((Parser.satisfy accepts).repeated least most) c =
      if count < least then .noMatch
      else .matched (c.remaining.take count) (c.advanceBy count) := by
  have parsed : g.parse ((Parser.satisfy accepts).repeated least most) c =
      if least ≤ (c.remaining.take count).length then
        .matched (c.remaining.take count) (c.advanceBy (c.remaining.take count).length)
      else .noMatch := by
    subst allowed
    cases most with
    | none =>
        have whole := List.prefix_iff_eq_take.1 (List.takeWhile_prefix (l := c.remaining) accepts)
        rw [parse_repeated_satisfy, Option.elim_none, ← whole]
    | some limit =>
        rw [parse_repeated_satisfy_some, take_takeWhile_eq, Option.elim_some]
  rw [parsed, List.length_take_of_le inside]
  by_cases enough : least ≤ count
  · rw [if_pos enough, if_neg (Nat.not_lt_of_le enough)]
  · rw [if_neg enough, if_pos (Nat.lt_of_not_le enough)]

/-- **Repetition of one element is a bounded span.** The elements that are read are those of the
longest beginning of the content all of whose elements are accepted, or as many of them as the bound
allows if there is one. If they are fewer than needed, the content is refused; otherwise they are the
value, in their order, and the cursor stands as many steps later. Without a bound, the element that
is next then is not accepted. -/
theorem parse_repeated_satisfy_boundedSpan (accepts : ε → Bool) (least : Nat) (most : Option Nat)
    (c : Cursor ε) :
    ∃ span, IsSpanLength accepts c.remaining span ∧
      let count := most.elim span (min span)
      (g.parse ((Parser.satisfy accepts).repeated least most) c =
        if count < least then .noMatch
        else .matched (c.remaining.take count) (c.advanceBy count)) ∧
      (c.remaining.take count).length = count ∧
      (c.advanceBy count).position = c.position + count ∧
      (most = none → ∀ next, (c.advanceBy count).first? = some next → accepts next = false) := by
  have longest := isSpanLength_takeWhile accepts c.remaining
  refine ⟨_, longest, ?_⟩
  intro count
  have inside : count ≤ c.remaining.length := by
    refine Nat.le_trans ?_ longest.le_length
    cases most with
    | none => exact Nat.le_refl _
    | some limit => exact Nat.min_le_left _ limit
  refine ⟨g.parse_repeated_satisfy_eq_take accepts least most c rfl inside,
    List.length_take_of_le inside, c.position_advanceBy (c.length_remaining ▸ inside), ?_⟩
  rintro rfl next isNext
  have behind : (c.advanceBy count).first? = (c.remaining.dropWhile accepts).head? := by
    rw [Cursor.first?_eq_head?, ← c.remaining_advanceBy_span accepts]
    rfl
  have stopped := List.head?_dropWhile_not accepts c.remaining
  rw [← behind, isNext] at stopped
  simpa using stopped

/-- Two digits are next, and a letter behind them ends the span. -/
theorem parse_repeated_satisfy_boundedSpan_digits :
    let c := Cursor.ofBuffer #['4', '2', 'x']
    ∃ span, IsSpanLength Char.isDigit c.remaining span ∧
      ((ruleless (τ := fun _ => Nat)).parse ((Parser.satisfy Char.isDigit).repeated 1 none) c =
        .matched (c.remaining.take span) (c.advanceBy span)) ∧
      span = 2 ∧ (c.advanceBy span).first? = some 'x' ∧ Char.isDigit 'x' = false := by
  intro c
  obtain ⟨span, longest, read, -, -, ends⟩ :=
    (ruleless (τ := fun _ => Nat)).parse_repeated_satisfy_boundedSpan Char.isDigit 1 none c
  obtain rfl : span = 2 := longest.unique (isSpanLength_takeWhile Char.isDigit c.remaining)
  exact ⟨2, longest, read, rfl, rfl, ends rfl 'x' rfl⟩

end Grammar

end ParserCombinators
