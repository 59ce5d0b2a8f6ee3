import Mathlib.Algebra.Order.Field.Rat
import Mathlib.Algebra.Order.Field.Basic
import Mathlib.Data.Rat.Cast.Order
import Mathlib.Tactic.FieldSimp
import Mathlib.Tactic.Linarith
import Mathlib.Tactic.Positivity
import Mathlib.Tactic.Ring
import ParserCombinators.Numeral.BinaryFormat

/-! # Rounding to a binary format

The numbers of a format are counted by the bits below their sign, and each is a natural number of
units, a unit being the least positive number. The pattern of infinity and those after it are counted
on, as if the exponents had no end: a quotient that rounds to one of them is too great.

* **`BinaryFormat.abs_sub_roundHalfEven`** — a quotient lies within one half of the integer it is
  rounded to, and that one is even if it lies one half away.
* **`BinaryFormat.units`** — the number that the bits below the sign count;
  **`BinaryFormat.units_binade`** — a carry out of the significant bits counts on.
* **`BinaryFormat.magnitudeBits_nearer_or_tie`** — the bits that a quotient is rounded to count the
  nearest number, and are even if another is as near.
* **`BinaryFormat.overflowThreshold`** — the point halfway between the greatest finite number and the
  one that would be next; **`BinaryFormat.IsStandard.magnitudeBits_lt_infinityBits_iff`** — the
  nearest number is finite exactly below it. -/

namespace ParserCombinators.BinaryFormat

/-! ## Quotients rounded to integers -/

section Quotient

variable (n : Nat) {d : Nat}

/-- A quotient lies within one half of the integer that it is rounded to; that one is even if it lies
exactly one half away. -/
theorem abs_sub_roundHalfEven (pos : 0 < d) :
    |(n / d : ℚ) - roundHalfEven n d| < 1 / 2 ∨
      |(n / d : ℚ) - roundHalfEven n d| = 1 / 2 ∧ Even (roundHalfEven n d) := by
  have posQ : (0 : ℚ) < d := by exact_mod_cast pos
  have divided : (n / d : ℚ) = (n / d : Nat) + (n % d : Nat) / d := by
    have parts : (n : ℚ) = (n / d : Nat) * d + (n % d : Nat) := by
      exact_mod_cast (Nat.div_add_mod' n d).symm
    rw [parts, add_div, mul_div_cancel_right₀ _ posQ.ne']
  have nonneg : (0 : ℚ) ≤ (n % d : Nat) / d := by positivity
  have proper : ((n % d : Nat) / d : ℚ) < 1 := by
    rw [div_lt_one posQ]
    exact_mod_cast Nat.mod_lt n pos
  rw [divided, roundHalfEven]
  rcases Nat.lt_trichotomy (2 * (n % d)) d with below | tie | above
  · -- the remainder is cut off
    have less : ((n % d : Nat) / d : ℚ) < 1 / 2 := by
      rw [div_lt_div_iff₀ posQ two_pos, one_mul, mul_comm]
      exact_mod_cast below
    left
    simp only [if_pos below, add_sub_cancel_left]
    rwa [abs_of_nonneg nonneg]
  · have half : ((n % d : Nat) / d : ℚ) = 1 / 2 := by
      rw [div_eq_div_iff posQ.ne' two_ne_zero, one_mul, mul_comm]
      exact_mod_cast tie
    right
    simp only [tie, lt_irrefl, if_false, half, Nat.even_iff]
    rcases Nat.mod_two_eq_zero_or_one (n / d) with even | odd
    · rw [even]
      exact ⟨by norm_num, by omega⟩
    · rw [odd]
      exact ⟨by push_cast; rw [abs_sub_comm]; norm_num, by omega⟩
  · have more : 1 / 2 < ((n % d : Nat) / d : ℚ) := by
      rw [div_lt_div_iff₀ two_pos posQ, one_mul, mul_comm]
      exact_mod_cast above
    left
    simp only [if_neg (Nat.lt_asymm above), if_pos above]
    push_cast
    rw [abs_lt]
    constructor <;> linarith

/-- Another integer than the one that a quotient is rounded to is farther away, or it is as near and
rounding goes to an even one. -/
theorem roundHalfEven_nearer_or_tie (pos : 0 < d) {j : Nat} (other : j ≠ roundHalfEven n d) :
    |(n / d : ℚ) - roundHalfEven n d| < |(n / d : ℚ) - j| ∨
      |(n / d : ℚ) - roundHalfEven n d| = |(n / d : ℚ) - j| ∧ Even (roundHalfEven n d) := by
  -- the two integers are at least one apart
  have apart : (1 : ℚ) ≤ |(roundHalfEven n d : ℚ) - j| := by
    have different : (roundHalfEven n d : ℤ) - j ≠ 0 := sub_ne_zero.2 (by exact_mod_cast other.symm)
    exact_mod_cast Int.one_le_abs different
  have between := abs_sub_le (roundHalfEven n d : ℚ) (n / d) j
  rw [abs_sub_comm (roundHalfEven n d : ℚ) (n / d)] at between
  rcases abs_sub_roundHalfEven n pos with near | ⟨half, even⟩
  · exact Or.inl (by linarith)
  · have far : |(n / d : ℚ) - roundHalfEven n d| ≤ |(n / d : ℚ) - j| := by linarith
    exact far.lt_or_eq.imp_right fun tie => ⟨tie, even⟩

/-- No integer is nearer to a quotient than the one that it is rounded to. -/
theorem roundHalfEven_nearest (pos : 0 < d) (j : Nat) :
    |(n / d : ℚ) - roundHalfEven n d| ≤ |(n / d : ℚ) - j| := by
  by_cases same : j = roundHalfEven n d
  · rw [same]
  · rcases roundHalfEven_nearer_or_tie n pos same with nearer | ⟨tie, -⟩
    · exact nearer.le
    · exact tie.le

/-- A quotient is not rounded below an integer that is not above it. -/
theorem le_roundHalfEven (pos : 0 < d) {least : Nat} (le : least * d ≤ n) :
    least ≤ roundHalfEven n d := by
  have cut : least ≤ n / d := (Nat.le_div_iff_mul_le pos).2 le
  rw [roundHalfEven]
  split_ifs <;> omega

/-- A quotient is not rounded above an integer that is not below it. -/
theorem roundHalfEven_le (pos : 0 < d) {greatest : Nat} (le : n ≤ greatest * d) :
    roundHalfEven n d ≤ greatest := by
  have cut : n / d ≤ greatest := Nat.div_le_of_le_mul (by rwa [Nat.mul_comm])
  rcases cut.eq_or_lt with same | less
  · -- the quotient is the integer, and nothing remains
    have none : n % d = 0 := by
      have parts := Nat.div_add_mod' n d
      rw [same] at parts
      omega
    rw [roundHalfEven, none]
    simp [pos, cut]
  · rw [roundHalfEven]
    split_ifs <;> omega

end Quotient

/-! ## Bits that count the numbers of a format -/

section Units

variable (format : BinaryFormat)

/-- The leading one of the significant bits, in units of the last one. -/
def leading : Nat :=
  2 ^ (format.precision - 1)

theorem leading_pos : 0 < format.leading :=
  Nat.two_pow_pos _

theorem cast_leading : (format.leading : ℚ) = 2 ^ (format.precision - 1) := by
  rw [leading, Nat.cast_pow, Nat.cast_ofNat]

/-- If a significant bit follows the leading one, that one is even. -/
theorem even_leading (precise : 2 ≤ format.precision) : Even format.leading :=
  even_two.pow_of_ne_zero (by omega)

/-- The number that the bits below the sign count, in units of the least positive number. Without an
exponent the significant bits are the number; with one a leading bit stands before them, and every
further exponent doubles. -/
def units (bits : Nat) : Nat :=
  if bits / format.leading = 0 then bits
  else (format.leading + bits % format.leading) *
    2 ^ (bits / format.leading - 1)

variable {format}

/-- Significant bits that are shifted count on from the shift, also where they have just been carried
into one bit more. -/
theorem units_binade {shift significand : Nat}
    (small : significand ≤ 2 * format.leading)
    (normal : shift = 0 ∨ format.leading ≤ significand) :
    format.units (shift * format.leading + significand) = significand * 2 ^ shift := by
  have pos := format.leading_pos
  rw [units, Nat.mul_comm shift, Nat.mul_add_div pos, Nat.mul_add_mod]
  generalize format.leading = leading at *
  rcases Nat.lt_or_ge significand leading with less | more
  · -- no leading bit, so nothing is shifted
    obtain rfl : shift = 0 := normal.resolve_right (Nat.not_le.2 less)
    simp [Nat.div_eq_of_lt less]
  · rcases small.eq_or_lt with rfl | less
    · have twice : 2 * leading / leading = 2 := Nat.mul_div_cancel _ pos
      rw [twice, Nat.mul_mod_left, if_neg (by omega), Nat.add_zero, Nat.add_sub_assoc (by omega),
        Nat.pow_succ]
      ring
    · have once : significand / leading = 1 := by
        rw [Nat.div_eq_iff pos]
        omega
      have fraction : leading + significand % leading = significand := by
        have parts := Nat.div_add_mod significand leading
        rw [once] at parts
        omega
      rw [once, fraction, if_neg (by omega), Nat.add_sub_cancel]

/-- All bits are significant bits that are shifted. -/
theorem exists_binade (format : BinaryFormat) (bits : Nat) :
    ∃ shift significand, bits = shift * format.leading + significand ∧
      significand < 2 * format.leading ∧
      (shift = 0 ∨ format.leading ≤ significand) := by
  have pos := format.leading_pos
  generalize format.leading = leading at *
  have parts := Nat.div_add_mod' bits leading
  have less := Nat.mod_lt bits pos
  cases exponent : bits / leading with
  | zero =>
      rw [exponent] at parts
      exact ⟨0, bits, by omega, by omega, Or.inl rfl⟩
  | succ shift =>
      rw [exponent, Nat.succ_mul] at parts
      exact ⟨shift, leading + bits % leading, by omega, by omega, Or.inr (Nat.le_add_right _ _)⟩

/-- The numbers of a format ascend with the bits that count them. -/
theorem units_strictMono (format : BinaryFormat) : StrictMono format.units := by
  refine strictMono_nat_of_lt_succ fun bits => ?_
  obtain ⟨shift, significand, rfl, less, normal⟩ := format.exists_binade bits
  have next : format.units (shift * format.leading + (significand + 1)) =
      (significand + 1) * 2 ^ shift := units_binade less (normal.imp_right Nat.le_succ_of_le)
  rw [Nat.add_assoc, next, units_binade less.le normal]
  exact Nat.mul_lt_mul_of_pos_right (Nat.lt_succ_self _) (Nat.two_pow_pos _)

/-- The number that bits count is a multiple of a power of two, or is so small that the leading bit
would be shifted less. -/
theorem units_eq_mul_or_lt (format : BinaryFormat) (shift bits : Nat) :
    (∃ j, format.units bits = j * 2 ^ shift) ∨
      shift ≠ 0 ∧ format.units bits < format.leading * 2 ^ shift := by
  obtain ⟨shift', significand, rfl, less, normal⟩ := format.exists_binade bits
  rw [units_binade less.le normal]
  rcases Nat.lt_or_ge shift' shift with fewer | enough
  · refine Or.inr ⟨by omega, ?_⟩
    calc significand * 2 ^ shift'
        < 2 * format.leading * 2 ^ shift' :=
          Nat.mul_lt_mul_of_pos_right less (Nat.two_pow_pos _)
      _ = format.leading * 2 ^ (shift' + 1) := by ring
      _ ≤ format.leading * 2 ^ shift :=
          Nat.mul_le_mul_left _ (Nat.pow_le_pow_right two_pos fewer)
  · refine Or.inl ⟨significand * 2 ^ (shift' - shift), ?_⟩
    rw [Nat.mul_assoc, ← Nat.pow_add, Nat.sub_add_cancel enough]

end Units

/-! ## The nearest number -/

section Nearest

variable (format : BinaryFormat) (n : Nat) {d : Nat}

/-- The bits that a quotient is rounded to are significant bits, maybe just carried into one bit more,
that are shifted as far as the quotient needs. -/
theorem exists_magnitudeBits_binade (pos : 0 < d) :
    ∃ shift significand,
      format.magnitudeBits n d = shift * format.leading + significand ∧
      significand = roundHalfEven (n * 2 ^ format.scale) (d * 2 ^ shift) ∧
      significand ≤ 2 * format.leading ∧
      (shift = 0 ∨ format.leading ≤ significand ∧
        format.leading * (d * 2 ^ shift) ≤ n * 2 ^ format.scale) := by
  simp only [magnitudeBits, leading, Nat.pow_eq]
  generalize n * 2 ^ format.scale = units
  generalize format.precision - 1 = trailing
  have positive (shift : Nat) : 0 < d * 2 ^ shift := Nat.mul_pos pos (Nat.two_pow_pos _)
  refine ⟨_, _, rfl, rfl, ?_, ?_⟩
  · -- at most one bit more than the significant ones is left by the shift
    refine roundHalfEven_le _ (positive _) ?_
    have length : units / d < 2 ^ (trailing + 1 + (Nat.log2 (units / d) - trailing)) :=
      Nat.lt_log2_self.trans_le (Nat.pow_le_pow_right two_pos (by omega))
    calc units ≤ d * (units / d + 1) := (Nat.lt_mul_div_succ units pos).le
      _ ≤ d * 2 ^ (trailing + 1 + (Nat.log2 (units / d) - trailing)) := Nat.mul_le_mul_left d length
      _ = 2 * 2 ^ trailing * (d * 2 ^ (Nat.log2 (units / d) - trailing)) := by ring
  · rcases Nat.eq_zero_or_pos (Nat.log2 (units / d) - trailing) with none | some
    · exact Or.inl none
    · have enough : 2 ^ trailing * (d * 2 ^ (Nat.log2 (units / d) - trailing)) ≤ units := by
        have length : 2 ^ Nat.log2 (units / d) ≤ units / d := by
          refine Nat.log2_self_le fun zero => ?_
          rw [zero, Nat.log2_zero] at some
          omega
        calc 2 ^ trailing * (d * 2 ^ (Nat.log2 (units / d) - trailing))
            = d * 2 ^ (trailing + (Nat.log2 (units / d) - trailing)) := by ring
          _ = d * 2 ^ Nat.log2 (units / d) := by rw [Nat.add_sub_cancel' (by omega)]
          _ ≤ d * (units / d) := Nat.mul_le_mul_left d length
          _ ≤ units := Nat.mul_div_le units d
      exact Or.inr ⟨le_roundHalfEven _ (positive _) enough, enough⟩

/-- A quotient in units of the least positive number. -/
def ratioUnits (d : Nat) : ℚ :=
  (n * 2 ^ format.scale : Nat) / d

/-- Where significant bits are shifted, distances are as many times greater as the shift tells. -/
theorem abs_ratioUnits_sub (d shift j : Nat) :
    |format.ratioUnits n d - (j * 2 ^ shift : Nat)| =
      |((n * 2 ^ format.scale : Nat) / (d * 2 ^ shift : Nat) : ℚ) - j| * 2 ^ shift := by
  have shifted : (0 : ℚ) < 2 ^ shift := by positivity
  have split : format.ratioUnits n d - (j * 2 ^ shift : Nat) =
      ((n * 2 ^ format.scale : Nat) / (d * 2 ^ shift : Nat) - j) * 2 ^ shift := by
    rw [ratioUnits, sub_mul, Nat.cast_mul d, ← div_div, Nat.cast_pow, Nat.cast_ofNat,
      div_mul_cancel₀ _ shifted.ne', Nat.cast_mul j, Nat.cast_pow, Nat.cast_ofNat]
  rw [split, abs_mul, abs_of_pos shifted]

/-- Of the multiples of a shifted bit, another than the one rounded to is farther away, or it is as
near and rounding goes to an even multiple. -/
theorem shifted_nearer_or_tie (pos : 0 < d) {shift j : Nat}
    (other : j ≠ roundHalfEven (n * 2 ^ format.scale) (d * 2 ^ shift)) :
    |format.ratioUnits n d -
          (roundHalfEven (n * 2 ^ format.scale) (d * 2 ^ shift) * 2 ^ shift : Nat)| <
        |format.ratioUnits n d - (j * 2 ^ shift : Nat)| ∨
      |format.ratioUnits n d -
            (roundHalfEven (n * 2 ^ format.scale) (d * 2 ^ shift) * 2 ^ shift : Nat)| =
          |format.ratioUnits n d - (j * 2 ^ shift : Nat)| ∧
        Even (roundHalfEven (n * 2 ^ format.scale) (d * 2 ^ shift)) := by
  have shiftedPos : 0 < d * 2 ^ shift := Nat.mul_pos pos (Nat.two_pow_pos _)
  have scaled : (0 : ℚ) < 2 ^ shift := by positivity
  rw [abs_ratioUnits_sub, abs_ratioUnits_sub]
  rcases roundHalfEven_nearer_or_tie (n * 2 ^ format.scale) shiftedPos other with
    nearer | ⟨tie, even⟩
  · exact Or.inl (mul_lt_mul_of_pos_right nearer scaled)
  · exact Or.inr ⟨by rw [tie], even⟩

/-- A number below the leading bit of a quotient is farther away than the multiple rounded to: the
leading bit itself is nearer already. -/
theorem nearer_of_lt_leading (pos : 0 < d) {shift number : Nat}
    (enough : format.leading * (d * 2 ^ shift) ≤ n * 2 ^ format.scale)
    (below : number < format.leading * 2 ^ shift) :
    |format.ratioUnits n d -
        (roundHalfEven (n * 2 ^ format.scale) (d * 2 ^ shift) * 2 ^ shift : Nat)| <
      |format.ratioUnits n d - number| := by
  have shiftedPos : 0 < d * 2 ^ shift := Nat.mul_pos pos (Nat.two_pow_pos _)
  have leadingBit : ((format.leading * 2 ^ shift : Nat) : ℚ) ≤ format.ratioUnits n d := by
    rw [ratioUnits, le_div_iff₀ (by exact_mod_cast pos)]
    exact_mod_cast (by linarith : format.leading * 2 ^ shift * d ≤ n * 2 ^ format.scale)
  have belowQ : (number : ℚ) < (format.leading * 2 ^ shift : Nat) := by exact_mod_cast below
  calc |format.ratioUnits n d -
          (roundHalfEven (n * 2 ^ format.scale) (d * 2 ^ shift) * 2 ^ shift : Nat)|
      ≤ |format.ratioUnits n d - (format.leading * 2 ^ shift : Nat)| := by
        rw [abs_ratioUnits_sub, abs_ratioUnits_sub]
        exact mul_le_mul_of_nonneg_right (roundHalfEven_nearest _ shiftedPos _) (by positivity)
    _ = format.ratioUnits n d - (format.leading * 2 ^ shift : Nat) :=
        abs_of_nonneg (sub_nonneg.2 leadingBit)
    _ < format.ratioUnits n d - number := sub_lt_sub_left belowQ _
    _ ≤ |format.ratioUnits n d - number| := le_abs_self _

/-- **The bits that a quotient is rounded to count the nearest number.** All others count numbers that
are farther away, or one is as near and the bits rounded to are even. The others are those of all
numbers, as if there were exponents without end. -/
theorem magnitudeBits_nearer_or_tie (precise : 2 ≤ format.precision) (pos : 0 < d) {bits : Nat}
    (other : bits ≠ format.magnitudeBits n d) :
    |format.ratioUnits n d - format.units (format.magnitudeBits n d)| <
        |format.ratioUnits n d - format.units bits| ∨
      |format.ratioUnits n d - format.units (format.magnitudeBits n d)| =
          |format.ratioUnits n d - format.units bits| ∧ Even (format.magnitudeBits n d) := by
  obtain ⟨shift, significand, same, rounded, small, normal⟩ :=
    format.exists_magnitudeBits_binade n pos
  have counted : format.units (format.magnitudeBits n d) = significand * 2 ^ shift := by
    rw [same]
    exact units_binade small (normal.imp_right And.left)
  rw [counted]
  rcases format.units_eq_mul_or_lt shift bits with ⟨j, onGrid⟩ | ⟨shifted, below⟩
  · -- the other number is a multiple of the last significant bit as well
    have different : j ≠ roundHalfEven (n * 2 ^ format.scale) (d * 2 ^ shift) := by
      rintro rfl
      exact other (format.units_strictMono.injective (by rw [onGrid, counted, rounded]))
    rw [onGrid, same, rounded]
    refine (format.shifted_nearer_or_tie n pos different).imp_right fun tie => ⟨tie.1, ?_⟩
    exact ((format.even_leading precise).mul_left shift).add tie.2
  · -- the other number lies in a lower binade than the quotient
    obtain ⟨-, enough⟩ := normal.resolve_left shifted
    rw [rounded]
    exact Or.inl (format.nearer_of_lt_leading n pos enough below)

/-- No bits count a number that is nearer to a quotient than the one that it is rounded to. -/
theorem magnitudeBits_nearest (precise : 2 ≤ format.precision) (pos : 0 < d) (bits : Nat) :
    |format.ratioUnits n d - format.units (format.magnitudeBits n d)| ≤
      |format.ratioUnits n d - format.units bits| := by
  by_cases same : bits = format.magnitudeBits n d
  · rw [same]
  · rcases format.magnitudeBits_nearer_or_tie n precise pos same with nearer | ⟨tie, -⟩
    · exact nearer.le
    · exact tie.le

/-- A quotient is rounded beyond an odd number of bits exactly from the point on that lies halfway
between the number that they count and the next one. -/
theorem magnitudeBits_le_iff_of_odd (precise : 2 ≤ format.precision) (pos : 0 < d) {greatest : Nat}
    (odd : Odd greatest) :
    format.magnitudeBits n d ≤ greatest ↔
      2 * format.ratioUnits n d < format.units greatest + format.units (greatest + 1) := by
  have ascends : (format.units greatest : ℚ) < format.units (greatest + 1) := by
    exact_mod_cast format.units_strictMono (Nat.lt_succ_self greatest)
  constructor
  · intro within
    by_contra! above
    have atMost : (format.units (format.magnitudeBits n d) : ℚ) ≤ format.units greatest := by
      exact_mod_cast format.units_strictMono.monotone within
    -- the next number is as near as the greatest one or nearer
    have near : |format.ratioUnits n d - format.units (greatest + 1)| ≤
        format.ratioUnits n d - format.units greatest :=
      abs_le.2 ⟨by linarith, by linarith⟩
    have far := le_abs_self (format.ratioUnits n d - format.units (format.magnitudeBits n d))
    have other : greatest + 1 ≠ format.magnitudeBits n d := by omega
    rcases format.magnitudeBits_nearer_or_tie n precise pos other with nearer | ⟨tie, even⟩
    · linarith
    · have less : (format.units (format.magnitudeBits n d) : ℚ) < format.units greatest := by
        have different : format.magnitudeBits n d ≠ greatest := fun same =>
          Nat.not_even_iff_odd.2 odd (same ▸ even)
        exact_mod_cast format.units_strictMono (lt_of_le_of_ne within different)
      linarith
  · intro below
    by_contra! beyond
    have atLeast : (format.units (greatest + 1) : ℚ) ≤ format.units (format.magnitudeBits n d) := by
      exact_mod_cast format.units_strictMono.monotone beyond
    -- the greatest number is nearer than the next one
    have near : |format.ratioUnits n d - format.units greatest| <
        format.units (greatest + 1) - format.ratioUnits n d :=
      abs_lt.2 ⟨by linarith, by linarith⟩
    have far := neg_abs_le (format.ratioUnits n d - format.units (format.magnitudeBits n d))
    rcases format.magnitudeBits_nearer_or_tie n precise pos beyond.ne with nearer | ⟨tie, -⟩ <;>
      linarith

end Nearest

/-! ## Overflow -/

section Overflow

/-- What is added to the exponents so that they are not negative. -/
def bias (format : BinaryFormat) : Nat :=
  2 ^ (format.exponentBits - 1) - 1

/-- The point halfway between the greatest finite number of a format and the power of two that would
be next. -/
def overflowThreshold (format : BinaryFormat) : ℚ :=
  2 ^ (format.bias + 1) - 2 ^ (format.bias - format.precision)

/-- A format has more than one significant bit, and exponents beyond those of the integers that its
significant bits can hold. -/
structure IsStandard (format : BinaryFormat) : Prop where
  /-- A significant bit follows the leading one. -/
  precise : 2 ≤ format.precision
  /-- The integers of all significant bits are far from infinity. -/
  wide : format.precision ≤ format.bias

variable {format : BinaryFormat}

namespace IsStandard

/-- There are twice as many exponent fields as the bias, and two more. -/
theorem two_pow_exponentBits (standard : format.IsStandard) :
    2 ^ format.exponentBits = 2 * format.bias + 2 := by
  have precise := standard.precise
  have wide := standard.wide
  rw [bias] at *
  cases exponent : format.exponentBits with
  | zero =>
      rw [exponent] at wide
      simp only [Nat.zero_sub, Nat.pow_zero] at wide
      omega
  | succ others =>
      have pos : 0 < 2 ^ others := Nat.two_pow_pos _
      rw [Nat.add_sub_cancel, Nat.pow_succ]
      omega

/-- The least positive number is the last bit of the fraction under the least exponent. -/
theorem scale_eq (standard : format.IsStandard) :
    format.scale = format.bias + format.precision - 2 := by
  have precise := standard.precise
  have pos : 0 < 2 ^ (format.exponentBits - 1) := Nat.two_pow_pos _
  rw [scale, bias, Nat.pow_eq]
  omega

/-- The bits of infinity are significant bits that have just been carried into one bit more. -/
theorem infinityBits_eq (standard : format.IsStandard) :
    format.infinityBits = (2 * format.bias - 1) * format.leading + 2 * format.leading := by
  have precise := standard.precise
  have wide := standard.wide
  have exponents : 2 ^ format.exponentBits - 1 = 2 * format.bias - 1 + 2 := by
    have all := standard.two_pow_exponentBits
    omega
  rw [infinityBits, leading, Nat.pow_eq, Nat.pow_eq, exponents, Nat.add_mul]

/-- The bits of infinity count the power of two after the greatest number. -/
theorem units_infinityBits (standard : format.IsStandard) :
    format.units format.infinityBits = 2 * format.leading * 2 ^ (2 * format.bias - 1) := by
  rw [standard.infinityBits_eq]
  exact units_binade le_rfl (Or.inr (by omega))

/-- The bits before those of infinity are all the significant bits under the greatest exponent. -/
theorem units_pred_infinityBits (standard : format.IsStandard) :
    format.units (format.infinityBits - 1) =
      (2 * format.leading - 1) * 2 ^ (2 * format.bias - 1) := by
  have pos := format.leading_pos
  rw [standard.infinityBits_eq, Nat.add_sub_assoc (by omega)]
  exact units_binade (by omega) (Or.inr (by omega))

/-- Doubled and in units, the point of overflow is the sum of the greatest number and of the power of
two after it. -/
theorem two_mul_overflowThreshold (standard : format.IsStandard) :
    2 * (format.overflowThreshold * 2 ^ format.scale) =
      (format.units (format.infinityBits - 1) + format.units format.infinityBits : ℚ) := by
  have precise := standard.precise
  have wide := standard.wide
  have scaled := standard.scale_eq
  have whole : (2 ^ (format.bias + 1) * 2 ^ format.scale : ℚ) =
      2 * format.leading * 2 ^ (2 * format.bias - 1) := by
    have exponents : format.bias + 1 + format.scale =
        format.precision - 1 + (2 * format.bias - 1) + 1 := by omega
    rw [cast_leading, ← pow_add, exponents, pow_succ', pow_add, mul_assoc]
  have half : (2 * (2 ^ (format.bias - format.precision) * 2 ^ format.scale) : ℚ) =
      2 ^ (2 * format.bias - 1) := by
    have exponents : format.bias - format.precision + format.scale + 1 = 2 * format.bias - 1 := by
      omega
    rw [← pow_add, ← pow_succ', exponents]
  have last : 1 ≤ 2 * format.leading := by
    have pos := format.leading_pos
    omega
  rw [overflowThreshold, sub_mul, mul_sub, whole, half, standard.units_infinityBits,
    standard.units_pred_infinityBits, Nat.cast_mul, Nat.cast_sub last]
  push_cast
  ring

/-- **Numbers overflow from the threshold on.** The number nearest to a quotient is finite exactly if
the quotient is below the threshold. -/
theorem magnitudeBits_lt_infinityBits_iff (standard : format.IsStandard) (n : Nat) {d : Nat}
    (pos : 0 < d) :
    format.magnitudeBits n d < format.infinityBits ↔ (n / d : ℚ) < format.overflowThreshold := by
  have next : format.infinityBits - 1 + 1 = format.infinityBits := by
    have pos := format.leading_pos
    rw [standard.infinityBits_eq]
    omega
  -- infinity has no fraction, so a tie between it and the greatest number goes to it
  have odd : Odd (format.infinityBits - 1) := by
    have infinityEven : Even format.infinityBits := by
      rw [infinityBits]
      exact (format.even_leading standard.precise).mul_left _
    rw [← next, Nat.even_add_one, Nat.not_even_iff_odd] at infinityEven
    exact infinityEven
  have scaled : format.ratioUnits n d = n / d * 2 ^ format.scale := by
    rw [ratioUnits, Nat.cast_mul, Nat.cast_pow, Nat.cast_ofNat, mul_div_right_comm]
  calc format.magnitudeBits n d < format.infinityBits
      ↔ format.magnitudeBits n d ≤ format.infinityBits - 1 := by omega
    _ ↔ 2 * format.ratioUnits n d <
          format.units (format.infinityBits - 1) + format.units format.infinityBits := by
        rw [format.magnitudeBits_le_iff_of_odd n standard.precise pos odd, next]
    _ ↔ (n / d : ℚ) < format.overflowThreshold := by
        rw [← standard.two_mul_overflowThreshold, scaled, mul_lt_mul_iff_right₀ two_pos,
          mul_lt_mul_iff_left₀ (by positivity)]

end IsStandard

end Overflow

end ParserCombinators.BinaryFormat
