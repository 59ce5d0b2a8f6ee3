/-! # Sets of characters

* **`CharRange`** — the characters from a first one to a last one; none if they are reversed.
* **`CharSet`** — the characters of a list of ranges. The list is kept as it was given: two sets are
  equal when their ranges are the same in the same order, which is finer than having the same
  members.
* **`CharSet.contains`** — membership; **`CharSet.union`** — the members of both.
* **`CharSet.decimalDigits`**, **`CharSet.hexDigits`**, **`CharSet.signs`**, **`CharSet.quotes`**,
  **`CharSet.newlines`** — the sets that the character parsers use. -/

namespace ParserCombinators

/-- The characters from `first` to `last`, both included. -/
structure CharRange where
  /-- The least character. -/
  first : Char
  /-- The greatest character. -/
  last : Char
  deriving DecidableEq

/-- Whether a character lies in the range. -/
def CharRange.contains (range : CharRange) (c : Char) : Bool :=
  decide (range.first ≤ c) && decide (c ≤ range.last)

/-- The range of a single character. -/
def CharRange.single (c : Char) : CharRange :=
  ⟨c, c⟩

/-- The characters of a list of ranges. -/
structure CharSet where
  /-- The ranges, in the order in which they were given; they may overlap. -/
  ranges : List CharRange
  deriving DecidableEq

namespace CharSet

/-- The characters from one to another, both included. -/
def ofRange (first last : Char) : CharSet :=
  ⟨[⟨first, last⟩]⟩

/-- The characters of a list, a range for each. -/
def ofList (chars : List Char) : CharSet :=
  ⟨chars.map CharRange.single⟩

/-- The characters of a text, a range for each. -/
def ofString (text : String) : CharSet :=
  ofList text.toList

/-- The characters of both sets: the ranges of the second are put after those of the first. -/
def union (s t : CharSet) : CharSet :=
  ⟨s.ranges ++ t.ranges⟩

/-- Whether a character is a member. -/
def contains (s : CharSet) (c : Char) : Bool :=
  s.ranges.any fun range => range.contains c

/-- The digits `0` to `9`. -/
def decimalDigits : CharSet :=
  ofRange '0' '9'

/-- The digits `0` to `9` and the letters `a` to `f` in either case. -/
def hexDigits : CharSet :=
  ⟨[⟨'0', '9'⟩, ⟨'a', 'f'⟩, ⟨'A', 'F'⟩]⟩

/-- The signs `+` and `-`. -/
def signs : CharSet :=
  ⟨[⟨'+', '+'⟩, ⟨'-', '-'⟩]⟩

/-- The double quote. -/
def quotes : CharSet :=
  ⟨[⟨'"', '"'⟩]⟩

/-- The characters after which a line ends: line feed to carriage return, next line, and the line
and paragraph separators. -/
def newlines : CharSet :=
  ⟨[⟨'\n', '\r'⟩, ⟨'\u0085', '\u0085'⟩, ⟨'\u2028', '\u2029'⟩]⟩

/-- A character is in a union when it is in one of the two sets. -/
@[simp] theorem contains_union (s t : CharSet) (c : Char) :
    (s.union t).contains c = (s.contains c || t.contains c) := by
  simp [contains, union, List.any_append]

/-- A character is in a range when it lies between its bounds. -/
theorem contains_ofRange (first last c : Char) :
    (ofRange first last).contains c = (decide (first ≤ c) && decide (c ≤ last)) := by
  simp [contains, ofRange, CharRange.contains]

end CharSet

end ParserCombinators
