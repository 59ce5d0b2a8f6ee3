import Mathlib.Data.List.Defs
import ParserCombinators.Parser.Numeral
import ParserCombinators.Proofs.Grammar.CursorInvariant
import ParserCombinators.Proofs.Repetition.Span

/-! # Lossless grammars

A parser is lossless if its value still holds every character that it read, in order. Such a value
can be written down again and gives back the text.

* **`Spelled`** — the types whose values spell a text: the characters that occur in a value, from
  left to right.
* **`InOrder`** — a function of two arguments whose value spells what the two spell, one after the
  other: pairs, longer tuples, lists that are prepended to, appended to or joined, and joined texts.
* **`Parser.Lossless`** — the parsers that are built so that nothing they read is dropped, repeated
  or moved.
* **`Grammar.parse_spelling`** — the value of a match spells exactly what lies between the start of
  the match and its end. -/

namespace ParserCombinators

open Outcome

variable {ν : Type} {τ : ν → Type} {α β γ δ : Type}

/-! ## What values spell -/

/-- Types whose values spell a text. -/
class Spelled (α : Type) where
  /-- The characters that occur in a value, from left to right. -/
  spelling : α → List Char

export Spelled (spelling)

instance : Spelled Char where
  spelling c := [c]

instance : Spelled String where
  spelling text := text.toList

instance : Spelled Unit where
  spelling _ := []

instance [Spelled α] : Spelled (Option α) where
  spelling
    | some value => spelling value
    | none => []

instance [Spelled α] [Spelled β] : Spelled (α × β) where
  spelling pair := spelling pair.1 ++ spelling pair.2

instance [Spelled α] : Spelled (List α) where
  spelling values := values.flatMap spelling

/-- A character spells itself. -/
@[simp] theorem spelling_char (c : Char) : spelling c = [c] := rfl

/-- A text spells its characters. -/
@[simp] theorem spelling_string (text : String) : spelling text = text.toList := rfl

/-- The unit spells nothing. -/
@[simp] theorem spelling_unit (value : Unit) : spelling value = [] := rfl

/-- What is absent spells nothing. -/
@[simp] theorem spelling_none [Spelled α] : spelling (none : Option α) = [] := rfl

/-- What is present spells what it holds. -/
@[simp] theorem spelling_some [Spelled α] (value : α) : spelling (some value) = spelling value := rfl

/-- A pair spells its components in order. -/
@[simp] theorem spelling_pair [Spelled α] [Spelled β] (first : α) (second : β) :
    spelling (first, second) = spelling first ++ spelling second := rfl

/-- The empty list spells nothing. -/
@[simp] theorem spelling_nil [Spelled α] : spelling ([] : List α) = [] := rfl

/-- A list spells its head and then its tail. -/
@[simp] theorem spelling_cons [Spelled α] (head : α) (tail : List α) :
    spelling (head :: tail) = spelling head ++ spelling tail := rfl

/-- A joined list spells the two lists in order. -/
@[simp] theorem spelling_append [Spelled α] (front back : List α) :
    spelling (front ++ back) = spelling front ++ spelling back :=
  List.flatMap_append

/-- A list of characters spells itself. -/
@[simp] theorem spelling_chars (chars : List Char) : spelling chars = chars := by
  induction chars with
  | nil => rfl
  | cons head tail ih => rw [spelling_cons, ih, spelling_char, List.singleton_append]

/-- The value spells what the two arguments spell, the first and then the second. -/
def InOrder [Spelled α] [Spelled β] [Spelled γ] (combine : α → β → γ) : Prop :=
  ∀ first second, spelling (combine first second) = spelling first ++ spelling second

namespace InOrder

variable [Spelled α] [Spelled β] [Spelled γ] [Spelled δ]

/-- Pairs keep the order. -/
theorem pair : InOrder (fun (first : α) (second : β) => (first, second)) :=
  spelling_pair

/-- A pair that is extended to a triple keeps the order. -/
theorem triple : InOrder fun ((first, second) : α × β) (third : γ) => (first, second, third) := by
  rintro ⟨first, second⟩ third
  simp only [spelling_pair, List.append_assoc]

/-- A triple that is extended to a tuple of four keeps the order. -/
theorem quadruple : InOrder
    fun ((first, second, third) : α × β × γ) (fourth : δ) => (first, second, third, fourth) := by
  rintro ⟨first, second, third⟩ fourth
  simp only [spelling_pair, List.append_assoc]

/-- Prepending to a list keeps the order. -/
theorem cons : InOrder (fun (head : α) (tail : List α) => head :: tail) :=
  spelling_cons

/-- Appending to a list keeps the order. -/
theorem snoc : InOrder (fun (front : List α) (last : α) => front ++ [last]) := by
  intro front last
  rw [spelling_append, spelling_cons, spelling_nil, List.append_nil]

/-- Joining lists keeps the order. -/
theorem append : InOrder (fun (front back : List α) => front ++ back) :=
  spelling_append

/-- Joining what two values spell to a text keeps the order. -/
theorem concat : InOrder
    (fun (first : α) (second : β) => String.ofList (spelling first ++ spelling second)) := by
  intro first second
  rw [spelling_string, String.toList_ofList]

end InOrder

/-! ## Matches that give back what they read -/

/-- A match at the cursor gives back what it read: its value spells the content up to where the match
ended. -/
def Outcome.GivesBack [Spelled α] (outcome : Outcome Char α) (c : Cursor Char) : Prop :=
  ∀ value rest, outcome = .matched value rest → c.remaining = spelling value ++ rest.remaining

namespace Outcome.GivesBack

variable [Spelled α] [Spelled β] [Spelled γ] {outcome : Outcome Char α} {c : Cursor Char}

/-- A match that reads nothing gives it back if its value spells nothing. -/
theorem of_spelling_eq_nil {value : α} (nothing : spelling value = []) (c : Cursor Char) :
    (Outcome.matched value c).GivesBack c := by
  intro value' rest same
  cases same
  rw [nothing, List.nil_append]

/-- A refusal gives back nothing, and has read nothing. -/
theorem noMatch (c : Cursor Char) : (Outcome.noMatch : Outcome Char α).GivesBack c := by
  intro value rest same
  cases same

/-- A reading without an end never comes to give back anything. -/
theorem unfinished (c : Cursor Char) : (Outcome.unfinished : Outcome Char α).GivesBack c := by
  intro value rest same
  cases same

/-- A change of the value that keeps what it spells keeps what is given back. -/
theorem map (givesBack : outcome.GivesBack c) {f : α → β}
    (keeps : ∀ value, spelling (f value) = spelling value) : (outcome.map f).GivesBack c := by
  intro changed rest found
  obtain ⟨value, matched, rfl⟩ := map_eq_matched_iff.1 found
  rw [keeps]
  exact givesBack value rest matched

/-- Two matches in a row give back what they read if their values are combined in order. -/
theorem sequence (givesBack : outcome.GivesBack c) {next : Cursor Char → Outcome Char β}
    (further : ∀ d, (next d).GivesBack d) {combine : α → β → γ} (inOrder : InOrder combine) :
    (outcome.bind fun first rest => (next rest).map (combine first)).GivesBack c := by
  intro value rest found
  obtain ⟨first, middle, foundFirst, found⟩ := bind_eq_matched_iff.1 found
  obtain ⟨second, foundSecond, rfl⟩ := map_eq_matched_iff.1 found
  calc c.remaining = spelling first ++ middle.remaining := givesBack first middle foundFirst
    _ = spelling first ++ (spelling second ++ rest.remaining) := by
      rw [further middle second rest foundSecond]
    _ = spelling (combine first second) ++ rest.remaining := by
      rw [inOrder, List.append_assoc]

/-- What is left over by a filter is given back. -/
theorem filter (givesBack : outcome.GivesBack c) (keep : α → Bool) :
    (outcome.bind fun value rest =>
      if keep value then .matched value rest else .noMatch).GivesBack c := by
  intro value rest found
  obtain ⟨value, rest, matched, kept⟩ := bind_eq_matched_iff.1 found
  split at kept
  · cases kept
    exact givesBack value rest matched
  · cases kept

/-- An alternative starts over, so that what was tried before it leaves no trace. -/
theorem orElse (givesBack : outcome.GivesBack c) {alternative : Unit → Outcome Char α}
    (fallback : (alternative ()).GivesBack c) : (outcome.orElse alternative).GivesBack c := by
  intro value rest found
  rcases orElse_eq_matched_iff.1 found with matched | ⟨-, matched⟩
  · exact givesBack value rest matched
  · exact fallback value rest matched

end Outcome.GivesBack

namespace Repetition

variable [Spelled α] {attempt : Cursor Char → Outcome Char α}

/-- Stopping gives back the nothing that it reads. -/
theorem stop_givesBack (least : Nat) (c : Cursor Char) :
    (stop least c : Outcome Char (List α)).GivesBack c := by
  unfold stop
  split
  · exact .of_spelling_eq_nil spelling_nil c
  · exact .noMatch c

/-- A round gives back what it read in front of what the further rounds do. -/
theorem round_givesBack {c rest : Cursor Char} {value : α} {tail : Outcome Char (List α)}
    (first : c.remaining = spelling value ++ rest.remaining) (givesBack : tail.GivesBack rest) :
    (tail.map (value :: ·)).GivesBack c := by
  intro values last found
  obtain ⟨others, matched, rfl⟩ := map_eq_matched_iff.1 found
  rw [first, givesBack others last matched, spelling_cons, List.append_assoc]

/-- Bounded repetition gives back what its rounds read. -/
theorem upTo_givesBack (givesBack : ∀ d, (attempt d).GivesBack d) (limit least : Nat)
    (c : Cursor Char) : (upTo attempt limit least c).GivesBack c := by
  induction limit generalizing least c with
  | zero => exact stop_givesBack least c
  | succ limit ih =>
      rw [upTo]
      cases round : attempt c with
      | matched value rest => exact round_givesBack (givesBack c value rest round) (ih _ rest)
      | noMatch => exact stop_givesBack least c
      | unfinished => exact .unfinished c

/-- Unbounded repetition gives back what its rounds read, the last one included even if it stands
still. -/
theorem unbounded_givesBack (givesBack : ∀ d, (attempt d).GivesBack d) (least : Nat)
    (c : Cursor Char) : (unbounded attempt least c).GivesBack c := by
  induction least, c using unbounded.induct attempt with
  | case1 least c value rest round last =>
      have first := givesBack c value rest round
      rw [unbounded, round]
      simp only [if_pos last]
      exact round_givesBack first (.of_spelling_eq_nil spelling_nil rest)
  | case2 least c value rest round further guard ih =>
      have first := givesBack c value rest round
      rw [unbounded, round]
      simp only [if_neg further, if_pos guard]
      exact round_givesBack first ih
  | case3 least c value rest round further back =>
      rw [unbounded, round]
      simp only [if_neg further, if_neg back]
      exact .unfinished c
  | case4 least c round =>
      rw [unbounded, round]
      exact stop_givesBack least c
  | case5 least c round =>
      rw [unbounded, round]
      exact .unfinished c

/-- Greedy repetition gives back what its rounds read. -/
theorem between_givesBack (givesBack : ∀ d, (attempt d).GivesBack d) (least : Nat)
    (most : Option Nat) (c : Cursor Char) : (between attempt least most c).GivesBack c := by
  cases most with
  | some limit => exact upTo_givesBack givesBack limit least c
  | none => exact unbounded_givesBack givesBack least c

end Repetition

/-! ## Lossless parsers -/

namespace Parser

/-- Reading an element gives it back. -/
theorem readElement_givesBack (accepts : Char → Bool) (c : Cursor Char) :
    (readElement accepts c).GivesBack c := by
  intro value rest found
  cases content : c.remaining with
  | nil =>
      rw [readElement_of_remaining_eq_nil accepts content] at found
      cases found
  | cons head tail =>
      rw [readElement_of_remaining_eq_cons accepts content] at found
      split at found
      · cases found
        rw [Cursor.remaining_advance, content, spelling_char, List.tail_cons, List.singleton_append]
      · cases found

/-- Reading a word gives it back. -/
theorem readWord_givesBack (expected : List Char) (c : Cursor Char) :
    (readWord expected c).GivesBack c := by
  rw [readWord_eq]
  split
  · next isNext =>
      intro value rest found
      cases found
      rw [spelling_chars, Cursor.remaining_advanceBy]
      exact (List.prefix_iff_eq_append.1 isNext).symm
  · exact .noMatch c

variable {call : (name : ν) → Cursor Char → Outcome Char (τ name)}

/-- Reading a given text gives it back. -/
theorem parseWith_literal_givesBack (text : String) (c : Cursor Char) :
    ((literal (τ := τ) text).parseWith call c).GivesBack c := by
  refine (readWord_givesBack text.toList c).map fun value => ?_
  rw [spelling_string, String.toList_ofList, spelling_chars]

/-- Reading digits as a text gives them back. -/
theorem parseWith_digitString_givesBack (c : Cursor Char) :
    ((digitString (τ := τ)).parseWith call c).GivesBack c := by
  refine (Repetition.unbounded_givesBack (readElement_givesBack _) 1 c).map fun value => ?_
  rw [spelling_string, String.toList_ofList, spelling_chars]

/-- Reading a decimal fraction as a text gives it back: digits, the point, and digits in a row. -/
theorem parseWith_decimalString_givesBack (c : Cursor Char) :
    ((decimalString (τ := τ)).parseWith call c).GivesBack c := by
  have wholeAndPoint : ((digitString.both (literal ".")).parseWith call c).GivesBack c :=
    (parseWith_digitString_givesBack c).sequence (parseWith_literal_givesBack ".") InOrder.pair
  refine (wholeAndPoint.sequence parseWith_digitString_givesBack InOrder.triple).map ?_
  rintro ⟨whole, point, fraction⟩
  rw [spelling_string, String.toList_append, String.toList_append, List.append_assoc]
  rfl

/-- The parsers that drop, repeat and move nothing of what they read: single elements, texts, digits
and decimal fractions as texts, the unit, sequences whose values are combined in order, choices,
repetitions, filters, and rules. -/
inductive Lossless [∀ name, Spelled (τ name)] : {α : Type} → [Spelled α] → Parser Char τ α → Prop
  | satisfy (accepts : Char → Bool) : Lossless (.satisfy accepts)
  | literal (text : String) : Lossless (.literal text)
  | digitString : Lossless .digitString
  | decimalString : Lossless .decimalString
  | unit : Lossless (.succeed ())
  | sequence {α β γ : Type} [Spelled α] [Spelled β] [Spelled γ] {p : Parser Char τ α}
      {q : Parser Char τ β} {combine : α → β → γ} :
      InOrder combine → Lossless p → Lossless q → Lossless (p.sequence q combine)
  | lift₂ {α β γ : Type} [Spelled α] [Spelled β] [Spelled γ] {p : Parser Char τ α}
      {q : Parser Char τ β} {combine : α → β → γ} :
      InOrder combine → Lossless p → Lossless q → Lossless (.lift₂ combine p q)
  | orElse {α : Type} [Spelled α] {p q : Parser Char τ α} :
      Lossless p → Lossless q → Lossless (p.orElse q)
  | optional {α : Type} [Spelled α] {p : Parser Char τ α} : Lossless p → Lossless p.optional
  | repeated {α : Type} [Spelled α] {p : Parser Char τ α} (least : Nat) (most : Option Nat) :
      Lossless p → Lossless (p.repeated least most)
  | filter {α : Type} [Spelled α] {p : Parser Char τ α} (keep : α → Bool) :
      Lossless p → Lossless (p.filter keep)
  | rule (name : ν) : Lossless (.rule name)

variable [∀ name, Spelled (τ name)] [Spelled α]

/-- A lossless parser gives back what it reads, if the rules do. -/
theorem Lossless.parseWith_givesBack (rules : ∀ name d, (call name d).GivesBack d)
    {p : Parser Char τ α} (lossless : Lossless p) (c : Cursor Char) :
    (p.parseWith call c).GivesBack c := by
  induction lossless generalizing c with
  | satisfy accepts => exact readElement_givesBack accepts c
  | literal text => exact parseWith_literal_givesBack text c
  | digitString => exact parseWith_digitString_givesBack c
  | decimalString => exact parseWith_decimalString_givesBack c
  | unit => exact .of_spelling_eq_nil (spelling_unit ()) c
  | sequence inOrder _ _ ihp ihq => exact (ihp c).sequence ihq inOrder
  | lift₂ inOrder _ _ ihp ihq =>
      rw [parseWith_lift₂]
      exact (ihp c).sequence ihq inOrder
  | orElse _ _ ihp ihq => exact (ihp c).orElse (ihq c)
  | optional _ ih => exact ((ih c).map spelling_some).orElse (.of_spelling_eq_nil spelling_none c)
  | repeated least most _ ih => exact Repetition.between_givesBack ih least most c
  | filter keep _ ih => exact (ih c).filter keep
  | rule name => exact rules name c

end Parser

namespace Grammar

variable [∀ name, Spelled (τ name)] [Spelled α]

/-- A grammar whose rules are lossless. -/
def Lossless (g : Grammar Char τ) : Prop :=
  ∀ name, (g.body name).Lossless

/-- Lossless rules give back what they read, to every depth. -/
theorem Lossless.callTo_givesBack {g : Grammar Char τ} (lossless : g.Lossless) (depth : Nat)
    (name : ν) (c : Cursor Char) : (g.callTo depth name c).GivesBack c := by
  induction depth generalizing name c with
  | zero => exact .unfinished c
  | succ depth ih => exact (lossless name).parseWith_givesBack ih c

/-- **Lossless grammars give back the text they read.** The value of a match spells the characters
between the start of the match and its end, so that it makes up, together with what is left, what
was left before. -/
theorem parse_spelling {g : Grammar Char τ} (rules : g.Lossless) {p : Parser Char τ α}
    (lossless : p.Lossless) (c : Cursor Char) {value : α} {rest : Cursor Char}
    (found : g.parse p c = .matched value rest) :
    spelling value = (c.buffer.extract c.position rest.position).toList ∧
      spelling value ++ rest.remaining = c.remaining := by
  have givesBack : c.remaining = spelling value ++ rest.remaining :=
    lossless.parseWith_givesBack (rules.callTo_givesBack _) c value rest found
  refine ⟨?_, givesBack.symm⟩
  -- the content falls apart at the end of the match in only one way
  have ends : rest.remaining = c.remaining.drop (rest.position - c.position) :=
    (g.parse_leadsOnFrom p c value rest found).follows.remaining_eq
  have whole : spelling value ++ rest.remaining =
      c.remaining.take (rest.position - c.position) ++ rest.remaining := by
    rw [← givesBack, ends, List.take_append_drop]
  calc spelling value = c.remaining.take (rest.position - c.position) :=
        List.append_cancel_right whole
    _ = (c.buffer.extract c.position rest.position).toList := by
        rw [Array.toList_extract, List.extract_eq_take_drop, Cursor.remaining]

/-- Digits in brackets, nested to any depth, as a text. -/
def bracketedText : Grammar Char (fun _ : Unit => String) :=
  single <|
    ((Parser.lift₂ (fun opening inner => String.ofList (spelling opening ++ spelling inner))
        (Parser.char '(') (Parser.rule ()).many).sequence (Parser.char ')')
          fun front closing => String.ofList (spelling front ++ spelling closing)).orElse
      .digitString

/-- Blanks, at least one. -/
def blanks : Parser Char (fun _ : Unit => String) (List Char) :=
  Parser.lift₂ List.cons (Parser.char ' ') (Parser.char ' ').many

/-- Dots, maybe none, an exclamation mark, and question marks. -/
def marks : Parser Char (fun _ : Unit => String) (List Char) :=
  ((Parser.char '.').many.sequence (Parser.char '!') fun front last => front ++ [last]).sequence
    (Parser.char '?').many fun front back => front ++ back

/-- A sign or none, a text in brackets, blanks, and marks. -/
def markedText : Parser Char (fun _ : Unit => String)
    (Option Char × String × List Char × List Char) :=
  ((Parser.sign.optional.both (.rule ())).extendPair blanks).extendTriple marks

/-- Texts in brackets are lossless. -/
theorem bracketedText_lossless : bracketedText.Lossless := fun _ =>
  .orElse
    (.sequence InOrder.concat
      (.lift₂ InOrder.concat (.satisfy _) (.repeated 0 none (.rule ()))) (.satisfy _))
    .digitString

/-- A marked text in brackets is lossless. -/
theorem markedText_lossless : markedText.Lossless :=
  .sequence InOrder.quadruple
    (.sequence InOrder.triple
      (.sequence InOrder.pair (.optional (.satisfy _)) (.rule ()))
      (.lift₂ InOrder.cons (.satisfy _) (.repeated 0 none (.satisfy _))))
    (.sequence InOrder.append
      (.sequence InOrder.snoc (.repeated 0 none (.satisfy _)) (.satisfy _))
      (.repeated 0 none (.satisfy _)))

/-- A marked text in brackets between two other characters. -/
def markedTextSample : Array Char :=
  #['x', '-', '(', '1', '(', '2', ')', ')', ' ', '.', '!', '?', 'y']

/-- Between the first character of the sample and its last one, the match gives back the sign, the
text in brackets, the blank and the marks. -/
theorem markedText_spelling :
    bracketedText.Lossless ∧ markedText.Lossless ∧
      bracketedText.parse markedText (.valid markedTextSample 1) =
        .matched (some '-', "(1(2))", [' '], ['.', '!', '?']) (.valid markedTextSample 12) ∧
      spelling (some '-', "(1(2))", [' '], ['.', '!', '?']) =
        (markedTextSample.extract 1 12).toList ∧
      spelling (some '-', "(1(2))", [' '], ['.', '!', '?']) ++ ['y'] =
        ['-', '(', '1', '(', '2', ')', ')', ' ', '.', '!', '?', 'y'] := by
  have found : bracketedText.parse markedText (.valid markedTextSample 1) =
      .matched (some '-', "(1(2))", [' '], ['.', '!', '?']) (.valid markedTextSample 12) := by cbv
  exact ⟨bracketedText_lossless, markedText_lossless, found,
    parse_spelling bracketedText_lossless markedText_lossless (.valid markedTextSample 1) found⟩

end Grammar

end ParserCombinators
