import Mathlib.Algebra.Order.Field.Power
import ParserCombinators.Proofs.Numeral.Rounding

/-! # Floating-point numbers and their bits

A floating-point number is written with a sign, an exponent and a fraction, in this order. What the
fields denote is spelt out here without regard to how a quotient is rounded, and the bits that are
found for a quotient are then shown to be the right ones.

* **`BinaryFormat.exponentField`**, **`BinaryFormat.fractionField`** — the fields of an encoding;
  **`BinaryFormat.IsFinite`** — it encodes a finite number.
* **`BinaryFormat.magnitude`** — the magnitude of the number that is encoded.
* **`BinaryFormat.RoundsTo`** — a quotient with a sign rounds to an encoding: the number is the
  nearest one, and even if there are two; **`BinaryFormat.RoundsTo.unique`** — there is only one.
* **`BinaryFormat.ofRatio?`** — the bits that are found for a quotient with a sign, unless they are
  infinity's; **`BinaryFormat.IsStandard.ofRatio?_eq`** — the sign and the bits below it.
* **`BinaryFormat.ofRatio?_eq_some_iff`**, **`BinaryFormat.ofRatio?_eq_none_iff`** — the bits of a
  quotient are those it rounds to, and there are none from the overflow threshold on. -/

namespace ParserCombinators.BinaryFormat

variable {format : BinaryFormat}

/-! ## Fields -/

/-- The exponent of an encoding, with the bias: the bits between the sign and the fraction. -/
def exponentField (bits : BitVec format.width) : Nat :=
  (bits.extractLsb' (format.precision - 1) format.exponentBits).toNat

/-- The fraction of an encoding: the significant bits after the leading one, which is not written. -/
def fractionField (bits : BitVec format.width) : Nat :=
  (bits.extractLsb' 0 (format.precision - 1)).toNat

/-- The encoding is that of a finite number: its exponent is not all ones. -/
def IsFinite (bits : BitVec format.width) : Prop :=
  exponentField bits < 2 ^ format.exponentBits - 1

/-- The magnitude of the number that is encoded. The leading bit is one, or zero if the exponent field
is zero; then the exponent is the least one. -/
def magnitude (bits : BitVec format.width) : ℚ :=
  if exponentField bits = 0 then
    fractionField bits / 2 ^ (format.precision - 1) * 2 ^ (1 - format.bias : ℤ)
  else
    (1 + fractionField bits / 2 ^ (format.precision - 1)) *
      2 ^ (exponentField bits - format.bias : ℤ)

/-- A quotient with a sign is rounded to an encoding: to the nearest finite number and, if there are
two, to the even one. -/
structure RoundsTo (negative : Bool) (quotient : ℚ) (bits : BitVec format.width) : Prop where
  /-- The sign bit tells the sign, also that of zero. -/
  sign : bits.msb = negative
  /-- The number is finite. -/
  finite : IsFinite bits
  /-- No finite number is nearer. -/
  nearest : ∀ other : BitVec format.width, IsFinite other →
    |quotient - magnitude bits| ≤ |quotient - magnitude other|
  /-- If another finite number is as near, the last significant bit is zero. -/
  even_of_tie : ∀ other : BitVec format.width, IsFinite other → magnitude other ≠ magnitude bits →
    |quotient - magnitude bits| = |quotient - magnitude other| → Even (fractionField bits)

/-! ## The bits below the sign -/

/-- The bits below the sign: the exponent and the fraction in a row. -/
def belowSign (bits : BitVec format.width) : Nat :=
  bits.toNat % 2 ^ (format.width - 1)

/-- The encoding that consists of a sign and of the bits below it. -/
def withSignBit (format : BinaryFormat) (negative : Bool) (below : Nat) : BitVec format.width :=
  BitVec.ofNat format.width
    (if negative then Nat.pow 2 (format.width - 1) + below else below)

/-- The bits that are found for a quotient: its nearest number, with the sign turned over if it is to
be negative, unless that is infinite. -/
def ofRatio? (format : BinaryFormat) (negative : Bool) (numerator denominator : Nat) :
    Option (BitVec format.width) :=
  let magnitude := format.ofRatio numerator denominator
  let value := if negative then format.negate magnitude else magnitude
  if format.isFinite value then some value else none

namespace IsStandard

variable (standard : format.IsStandard)
include standard

/-- The bits below the sign are those of the exponent and of the fraction. -/
theorem two_pow_pred_width :
    2 ^ (format.width - 1) = format.leading * 2 ^ format.exponentBits := by
  have precise := standard.precise
  rw [width, leading, ← Nat.pow_add]
  congr 1
  omega

/-- The exponent is what is left of the bits below the sign without the fraction. -/
theorem exponentField_eq (bits : BitVec format.width) :
    exponentField bits = belowSign bits / format.leading := by
  rw [exponentField, belowSign, standard.two_pow_pred_width, leading, BitVec.extractLsb'_toNat,
    Nat.shiftRight_eq_div_pow, Nat.mod_mul_right_div_self]

/-- The fraction is at the end of the bits below the sign. -/
theorem fractionField_eq (bits : BitVec format.width) :
    fractionField bits = belowSign bits % format.leading := by
  rw [fractionField, belowSign, standard.two_pow_pred_width, leading, BitVec.extractLsb'_toNat,
    Nat.shiftRight_zero, Nat.mod_mul_right_mod]

/-- The finite encodings are those below infinity. -/
theorem isFinite_iff (bits : BitVec format.width) :
    IsFinite bits ↔ belowSign bits < format.infinityBits := by
  rw [IsFinite, standard.exponentField_eq, Nat.div_lt_iff_lt_mul format.leading_pos, infinityBits]
  rfl

/-- A power of two under an exponent field, in units of the least positive number. -/
theorem two_zpow_sub_bias {exponent : Nat} (pos : 0 < exponent) :
    (2 ^ (exponent - format.bias : ℤ) : ℚ) =
      format.leading * 2 ^ (exponent - 1) / 2 ^ format.scale := by
  have precise := standard.precise
  have exponents : (exponent - format.bias : ℤ) + format.scale =
      (format.precision - 1 + (exponent - 1) : Nat) := by
    rw [standard.scale_eq]
    omega
  rw [eq_div_iff (by positivity), ← zpow_natCast 2 format.scale, ← zpow_add₀ two_ne_zero, exponents,
    zpow_natCast, pow_add, cast_leading]

/-- The magnitude that is encoded is what the bits below the sign count. -/
theorem magnitude_eq (bits : BitVec format.width) :
    magnitude bits = format.units (belowSign bits) / 2 ^ format.scale := by
  have pos : (0 : ℚ) < format.leading := by exact_mod_cast format.leading_pos
  rw [magnitude, units, standard.exponentField_eq, standard.fractionField_eq, ← cast_leading]
  by_cases subnormal : belowSign bits / format.leading = 0
  · -- the fraction is all there is, under the least exponent
    have least := standard.two_zpow_sub_bias one_pos
    have fraction : belowSign bits % format.leading = belowSign bits :=
      Nat.mod_eq_of_lt ((Nat.div_eq_zero_iff_lt format.leading_pos).1 subnormal)
    have same : (1 - format.bias : ℤ) = (1 : Nat) - format.bias := rfl
    rw [if_pos subnormal, if_pos subnormal, fraction, same, least]
    field_simp
    norm_num
  · rw [if_neg subnormal, if_neg subnormal, standard.two_zpow_sub_bias (Nat.pos_of_ne_zero subnormal)]
    push_cast
    field_simp

/-- The sign bit is as great as all the bits below it and one more. -/
theorem two_pow_width : 2 ^ format.width = 2 * 2 ^ (format.width - 1) := by
  have precise := standard.precise
  have signed : format.width = format.width - 1 + 1 := by
    rw [width]
    omega
  rw [signed, Nat.pow_succ', Nat.add_sub_cancel]

/-- An encoding is its sign and the bits below it. -/
theorem withSignBit_belowSign (bits : BitVec format.width) :
    format.withSignBit bits.msb (belowSign bits) = bits := by
  have bound := bits.isLt
  have twice := standard.two_pow_width
  apply BitVec.eq_of_toNat_eq
  rw [withSignBit, BitVec.toNat_ofNat, Nat.pow_eq, BitVec.msb_eq_decide, belowSign, twice]
  rw [twice] at bound
  generalize bits.toNat = all at *
  generalize 2 ^ (format.width - 1) = sign at *
  rcases Nat.lt_or_ge all sign with unsigned | signed
  · rw [decide_eq_false (Nat.not_le.2 unsigned), if_neg Bool.false_ne_true, Nat.mod_eq_of_lt unsigned,
      Nat.mod_eq_of_lt bound]
  · have rest : all % sign = all - sign := by
      rw [Nat.mod_eq_sub_mod signed, Nat.mod_eq_of_lt (by omega)]
    rw [decide_eq_true signed, if_pos rfl, rest, Nat.add_sub_cancel' signed, Nat.mod_eq_of_lt bound]

/-- Infinity leaves room for a sign. -/
theorem infinityBits_lt : format.infinityBits < 2 ^ (format.width - 1) := by
  have some : 0 < 2 ^ format.exponentBits := Nat.two_pow_pos _
  rw [infinityBits, standard.two_pow_pred_width, Nat.mul_comm, Nat.pow_eq, Nat.pow_eq]
  exact Nat.mul_lt_mul_of_pos_left (Nat.sub_lt some one_pos) format.leading_pos

section SignBit

variable {below : Nat} (inside : below < 2 ^ (format.width - 1))
include inside

/-- Read as a number, an encoding is the sign bit, if it is set, and the bits below it. -/
theorem toNat_withSignBit (negative : Bool) :
    (format.withSignBit negative below).toNat =
      if negative then 2 ^ (format.width - 1) + below else below := by
  rw [withSignBit, BitVec.toNat_ofNat, Nat.pow_eq, standard.two_pow_width]
  apply Nat.mod_eq_of_lt
  split <;> omega

/-- Below the sign of an encoding are the bits that were put there. -/
theorem belowSign_withSignBit (negative : Bool) :
    belowSign (format.withSignBit negative below) = below := by
  rw [belowSign, standard.toNat_withSignBit inside]
  cases negative with
  | false => exact Nat.mod_eq_of_lt inside
  | true => rw [if_pos rfl, Nat.add_mod_left, Nat.mod_eq_of_lt inside]

/-- The sign bit of an encoding is the sign that was put there. -/
theorem msb_withSignBit (negative : Bool) :
    (format.withSignBit negative below).msb = negative := by
  rw [BitVec.msb_eq_decide, standard.toNat_withSignBit inside]
  cases negative with
  | false => exact decide_eq_false (Nat.not_le.2 inside)
  | true => exact decide_eq_true (Nat.le_add_right _ _)

/-- To turn over the sign of a number without one is to set the sign bit. -/
theorem negate_withSignBit :
    format.negate (format.withSignBit false below) = format.withSignBit true below := by
  rw [negate, standard.toNat_withSignBit inside, withSignBit, if_neg Bool.false_ne_true, if_pos rfl,
    Nat.add_comm]

end SignBit

/-- An encoding is finite exactly if the bits below its sign are less than infinity's. -/
theorem isFinite_withSignBit_iff (negative : Bool) {below : Nat}
    (inside : below < 2 ^ (format.width - 1)) :
    format.isFinite (format.withSignBit negative below) = true ↔ below < format.infinityBits := by
  have found := standard.belowSign_withSignBit inside negative
  rw [belowSign] at found
  rw [isFinite, Nat.pow_eq, found, decide_eq_true_iff]

/-- **The bits that are found for a quotient** are its sign and the bits of its magnitude, unless these
count infinity. -/
theorem ofRatio?_eq (negative : Bool) (n d : Nat) :
    format.ofRatio? negative n d =
      if format.magnitudeBits n d < format.infinityBits then
        some (format.withSignBit negative (format.magnitudeBits n d))
      else none := by
  have inside : min (format.magnitudeBits n d) format.infinityBits < 2 ^ (format.width - 1) :=
    (Nat.min_le_right _ _).trans_lt standard.infinityBits_lt
  have signed : (if negative then format.negate (format.ofRatio n d) else format.ofRatio n d) =
      format.withSignBit negative (min (format.magnitudeBits n d) format.infinityBits) := by
    cases negative with
    | false => rfl
    | true => exact standard.negate_withSignBit inside
  have finite := standard.isFinite_withSignBit_iff negative inside
  simp only [ofRatio?, signed]
  by_cases below : format.magnitudeBits n d < format.infinityBits
  · rw [Nat.min_eq_left below.le] at finite ⊢
    rw [if_pos (finite.2 below), if_pos below]
  · rw [Nat.min_eq_right (Nat.not_lt.1 below)] at finite ⊢
    rw [if_neg fun is => Nat.lt_irrefl _ (finite.1 is), if_neg below]

/-- The last bit of the fraction is the last of the bits below the sign. -/
theorem even_fractionField_iff (bits : BitVec format.width) :
    Even (fractionField bits) ↔ Even (belowSign bits) := by
  have leadingEven := (format.even_leading standard.precise).two_dvd
  rw [standard.fractionField_eq, Nat.even_iff, Nat.even_iff, Nat.mod_mod_of_dvd _ leadingEven]

/-- Magnitudes are ordered like the bits that encode them. -/
theorem magnitude_lt_iff {bits bits' : BitVec format.width} :
    magnitude bits < magnitude bits' ↔ belowSign bits < belowSign bits' := by
  have scaled : (0 : ℚ) < 2 ^ format.scale := by positivity
  rw [standard.magnitude_eq, standard.magnitude_eq, div_lt_div_iff_of_pos_right scaled, Nat.cast_lt,
    format.units_strictMono.lt_iff_lt]

/-- A quotient lies as far from an encoded number as it does in units, where everything is greater by
the same factor. -/
theorem abs_sub_magnitude (n d : Nat) (bits : BitVec format.width) :
    |(n / d : ℚ) - magnitude bits| =
      |format.ratioUnits n d - format.units (belowSign bits)| / 2 ^ format.scale := by
  have scaled : (0 : ℚ) < 2 ^ format.scale := by positivity
  have split : (n / d : ℚ) - magnitude bits =
      (format.ratioUnits n d - format.units (belowSign bits)) / 2 ^ format.scale := by
    rw [standard.magnitude_eq, sub_div, ratioUnits, Nat.cast_mul, Nat.cast_pow, Nat.cast_ofNat]
    field_simp
  rw [split, abs_div, abs_of_pos scaled]

end IsStandard

/-! ## Rounding -/

/-- Between two numbers that are as near, any other is nearer. -/
theorem abs_sub_lt_of_between {quotient first middle last : ℚ} (above : first < middle)
    (below : middle < last) (tie : |quotient - first| = |quotient - last|) :
    |quotient - middle| < |quotient - first| := by
  rcases abs_eq_abs.1 tie with same | halfway
  · linarith
  · rw [abs_of_pos (show 0 < quotient - first by linarith), abs_lt]
    constructor <;> linarith

section Rounding

variable (standard : format.IsStandard)
include standard

/-- Below the overflow threshold, the bits that are found for a quotient are those it rounds to. -/
theorem roundsTo_withSignBit (negative : Bool) (n : Nat) {d : Nat} (pos : 0 < d)
    (below : format.magnitudeBits n d < format.infinityBits) :
    RoundsTo negative (n / d) (format.withSignBit negative (format.magnitudeBits n d)) where
  sign := standard.msb_withSignBit (below.trans standard.infinityBits_lt) negative
  finite := by
    rwa [standard.isFinite_iff,
      standard.belowSign_withSignBit (below.trans standard.infinityBits_lt) negative]
  nearest := by
    intro other _
    have scaled : (0 : ℚ) < 2 ^ format.scale := by positivity
    rw [standard.abs_sub_magnitude, standard.abs_sub_magnitude,
      standard.belowSign_withSignBit (below.trans standard.infinityBits_lt) negative,
      div_le_div_iff_of_pos_right scaled]
    exact format.magnitudeBits_nearest n standard.precise pos (belowSign other)
  even_of_tie := by
    intro other _ different tie
    have scaled : (2 ^ format.scale : ℚ) ≠ 0 := by positivity
    have found := standard.belowSign_withSignBit (below.trans standard.infinityBits_lt) negative
    rw [standard.magnitude_eq, standard.magnitude_eq, found] at different
    rw [standard.abs_sub_magnitude, standard.abs_sub_magnitude, found, div_left_inj' scaled] at tie
    rw [standard.even_fractionField_iff, found]
    have otherBits : belowSign other ≠ format.magnitudeBits n d := fun same =>
      different (by rw [same])
    rcases format.magnitudeBits_nearer_or_tie n standard.precise pos otherBits with
      nearer | ⟨-, even⟩
    · exact absurd tie nearer.ne
    · exact even

/-- A quotient does not round to two magnitudes: between two that are as near and even there is one
that is nearer. -/
theorem RoundsTo.not_belowSign_lt {negative negative' : Bool} {quotient : ℚ}
    {bits bits' : BitVec format.width} (rounds : RoundsTo negative quotient bits)
    (rounds' : RoundsTo negative' quotient bits') : ¬ belowSign bits < belowSign bits' := by
  intro less
  have ascends : magnitude bits < magnitude bits' := standard.magnitude_lt_iff.2 less
  have tie : |quotient - magnitude bits| = |quotient - magnitude bits'| :=
    (rounds.nearest bits' rounds'.finite).antisymm (rounds'.nearest bits rounds.finite)
  have even := (standard.even_fractionField_iff bits).1
    (rounds.even_of_tie bits' rounds'.finite ascends.ne' tie)
  have even' := (standard.even_fractionField_iff bits').1
    (rounds'.even_of_tie bits rounds.finite ascends.ne tie.symm)
  -- the bits after the first ones are odd
  have apart : belowSign bits + 1 < belowSign bits' := by
    rw [Nat.even_iff] at even even'
    omega
  have inside : belowSign bits + 1 < format.infinityBits :=
    apart.trans ((standard.isFinite_iff bits').1 rounds'.finite)
  have found := standard.belowSign_withSignBit (inside.trans standard.infinityBits_lt) false
  have above : magnitude bits < magnitude (format.withSignBit false (belowSign bits + 1)) := by
    rw [standard.magnitude_lt_iff, found]
    exact Nat.lt_succ_self _
  have below : magnitude (format.withSignBit false (belowSign bits + 1)) < magnitude bits' := by
    rwa [standard.magnitude_lt_iff, found]
  have finite : IsFinite (format.withSignBit false (belowSign bits + 1)) := by
    rwa [standard.isFinite_iff, found]
  exact absurd (rounds.nearest _ finite) (not_le.2 (abs_sub_lt_of_between above below tie))

/-- **A quotient with a sign rounds to one encoding only.** -/
theorem RoundsTo.unique {negative : Bool} {quotient : ℚ} {bits bits' : BitVec format.width}
    (rounds : RoundsTo negative quotient bits) (rounds' : RoundsTo negative quotient bits') :
    bits = bits' := by
  have same : belowSign bits = belowSign bits' :=
    le_antisymm (Nat.not_lt.1 (rounds'.not_belowSign_lt standard rounds))
      (Nat.not_lt.1 (rounds.not_belowSign_lt standard rounds'))
  rw [← standard.withSignBit_belowSign bits, ← standard.withSignBit_belowSign bits', same,
    rounds.sign, rounds'.sign]

/-- **The bits of a quotient are those that it rounds to**, if it is below the overflow threshold. -/
theorem ofRatio?_eq_some_iff (negative : Bool) (n : Nat) {d : Nat} (pos : 0 < d)
    (bits : BitVec format.width) :
    format.ofRatio? negative n d = some bits ↔
      (n / d : ℚ) < format.overflowThreshold ∧ RoundsTo negative (n / d) bits := by
  rw [standard.ofRatio?_eq, ← standard.magnitudeBits_lt_infinityBits_iff n pos]
  constructor
  · intro found
    by_cases below : format.magnitudeBits n d < format.infinityBits
    · rw [if_pos below] at found
      cases found
      exact ⟨below, roundsTo_withSignBit standard negative n pos below⟩
    · rw [if_neg below] at found
      cases found
  · rintro ⟨below, rounds⟩
    rw [if_pos below,
      (roundsTo_withSignBit standard negative n pos below).unique standard rounds]

/-- Far below the least positive number, a negative quotient rounds to zero and keeps its sign. -/
example : (binary32.ofRatio? true 1 (10 ^ 50)).map BitVec.toNat = some 0x80000000 := by decide

/-- **From the overflow threshold on a quotient has no bits.** -/
theorem ofRatio?_eq_none_iff (negative : Bool) (n : Nat) {d : Nat} (pos : 0 < d) :
    format.ofRatio? negative n d = none ↔ format.overflowThreshold ≤ n / d := by
  rw [standard.ofRatio?_eq, ← not_lt, ← standard.magnitudeBits_lt_infinityBits_iff n pos]
  simp

end Rounding

end ParserCombinators.BinaryFormat
