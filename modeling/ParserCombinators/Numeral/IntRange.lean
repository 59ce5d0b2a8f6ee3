import ParserCombinators.Numeral.Digits

/-! # Ranges of integers

* **`IntRange`** — the integers from a least one to a greatest one, zero among them.
* **`IntRange.signed`**, **`IntRange.unsigned`** — what a number of bits can hold.
* **`IntType`** — the integer types of fixed size, each with its range **`IntType.range`**.
* **`IntRange.check`** — the arithmetic of a range: exact results, and none outside the range.
* **`IntRange.ofDigits?`** — the integer that digits denote, if it is in the range. Only integers of
  the range occur on the way: a negative integer is built downwards, so that the least one is
  reached although its negation may lie outside.
* **`IsSize`** — the numbers that sizes and indices can have; **`size?`** — a number as a size.
* **`IsBufferSize`** — the numbers of bytes that a buffer or a text can take up. -/

namespace ParserCombinators

/-- The integers from `least` to `greatest`, both included. -/
structure IntRange where
  /-- The least integer. -/
  least : Int
  /-- The greatest integer. -/
  greatest : Int
  /-- Zero is not below the range. -/
  least_nonpos : least ≤ 0
  /-- Zero is not above the range. -/
  greatest_nonneg : 0 ≤ greatest

namespace IntRange

/-- The integers that a number of bits holds, one of them for the sign. -/
def signed (bits : Nat) : IntRange where
  least := -(Nat.pow 2 (bits - 1) : Nat)
  greatest := (Nat.pow 2 (bits - 1) - 1 : Nat)
  least_nonpos := Int.neg_nonpos_of_nonneg (Int.natCast_nonneg _)
  greatest_nonneg := Int.natCast_nonneg _

/-- The integers that a number of bits holds without a sign. -/
def unsigned (bits : Nat) : IntRange where
  least := 0
  greatest := (Nat.pow 2 bits - 1 : Nat)
  least_nonpos := Int.le_refl 0
  greatest_nonneg := Int.natCast_nonneg _

/-- An integer belongs to the range when it lies between its bounds. -/
instance : Membership Int IntRange where
  mem range n := range.least ≤ n ∧ n ≤ range.greatest

instance (n : Int) (range : IntRange) : Decidable (n ∈ range) :=
  inferInstanceAs (Decidable (range.least ≤ n ∧ n ≤ range.greatest))

/-- The integer, if it is in the range. This is how the integers of a type are reckoned with: a
multiplication, an addition or a subtraction that is checked yields the exact result if the type
has it, and nothing otherwise. -/
def check (range : IntRange) (n : Int) : Option Int :=
  if n ∈ range then some n else none

/-- Puts a digit after the digits of an integer: away from zero on the side that the sign tells, with
both results on the way checked. The factor ten and the value of the digit need no check: a number
below 128 is an integer of every type, and the digits of a numeral all have a value. -/
def appendDigit? (range : IntRange) (negative : Bool) (total : Int) (digit : Char) : Option Int := do
  let shifted ← range.check (total * 10)
  range.check (if negative then shifted - Digits.value digit else shifted + Digits.value digit)

/-- The integer that a sign and digits denote, if every step on the way to it is in the range. -/
def ofDigits? (range : IntRange) (negative : Bool) (digits : List Char) : Option Int :=
  digits.foldlM (range.appendDigit? negative) 0

/-- Zero is in every range. -/
theorem zero_mem (range : IntRange) : (0 : Int) ∈ range :=
  ⟨range.least_nonpos, range.greatest_nonneg⟩

end IntRange

/-- The integer types of fixed size. -/
inductive IntType where
  | u8 | u16 | u32 | u64 | u128 | usize
  | i8 | i16 | i32 | i64 | i128 | isize
  deriving DecidableEq

/-- The integers of a type. A size is held in 64 bits. -/
def IntType.range : IntType → IntRange
  | u8 => .unsigned 8
  | u16 => .unsigned 16
  | u32 => .unsigned 32
  | u64 => .unsigned 64
  | u128 => .unsigned 128
  | usize => .unsigned 64
  | i8 => .signed 8
  | i16 => .signed 16
  | i32 => .signed 32
  | i64 => .signed 64
  | i128 => .signed 128
  | isize => .signed 64

/-- A number that sizes and indices can have. -/
def IsSize (n : Nat) : Prop :=
  (n : Int) ∈ IntType.usize.range

instance : DecidablePred IsSize :=
  fun n => inferInstanceAs (Decidable ((n : Int) ∈ IntType.usize.range))

/-- The number as a size, if it can be one. Sums of sizes are checked so. -/
def size? (n : Nat) : Option Nat :=
  if IsSize n then some n else none

/-- A number of bytes that a buffer or a text can take up: at most as many as the greatest size with a
sign tells. -/
def IsBufferSize (n : Nat) : Prop :=
  (n : Int) ∈ IntType.isize.range

instance : DecidablePred IsBufferSize :=
  fun n => inferInstanceAs (Decidable ((n : Int) ∈ IntType.isize.range))

/-- The greatest size. -/
def greatestSize : Nat :=
  Nat.pow 2 64 - 1

/-- The greatest number of bytes that a buffer or a text can take up. -/
def greatestBufferSize : Nat :=
  Nat.pow 2 63 - 1

/-- The sizes are the numbers up to the greatest one. -/
theorem isSize_iff {n : Nat} : IsSize n ↔ n ≤ greatestSize :=
  ⟨fun isSize => Int.ofNat_le.1 isSize.2, fun atMost => ⟨Int.natCast_nonneg n, Int.ofNat_le.2 atMost⟩⟩

/-- Buffers and texts take up any number of bytes up to the greatest one. -/
theorem isBufferSize_iff {n : Nat} : IsBufferSize n ↔ n ≤ greatestBufferSize :=
  ⟨fun fits => Int.ofNat_le.1 fits.2, fun atMost =>
    ⟨Int.le_trans IntType.isize.range.least_nonpos (Int.natCast_nonneg n), Int.ofNat_le.2 atMost⟩⟩

/-- Below a size there are only sizes. -/
theorem IsSize.of_le {m n : Nat} (isSize : IsSize n) (le : m ≤ n) : IsSize m :=
  isSize_iff.2 (Nat.le_trans le (isSize_iff.1 isSize))

/-- Below the size of a buffer there are only such sizes. -/
theorem IsBufferSize.of_le {m n : Nat} (fits : IsBufferSize n) (le : m ≤ n) : IsBufferSize m :=
  isBufferSize_iff.2 (Nat.le_trans le (isBufferSize_iff.1 fits))

/-- The sizes of buffers are sizes. -/
theorem IsBufferSize.isSize {n : Nat} (fits : IsBufferSize n) : IsSize n :=
  isSize_iff.2 (Nat.le_trans (isBufferSize_iff.1 fits) (by decide))

end ParserCombinators
