import BondMarket.Field
import BondMarket.Proofs.Rounding
import Mathlib.Data.Rat.Floor
import Mathlib.Tactic.FieldSimp

/-!
Decimals as rational numbers. What a rounding does is stated here against the exact number: a
rounded quotient is within half of the exact one, the greatest integer not above a decimal is the
floor of its number, and a percentage that is rounded up is the ceiling of the exact one.

As rounding depends on the exact quotient alone, it does not matter whether an integer stands in a
product or a quotient as it is, or as a decimal.
-/

namespace BondMarket

section Quotient

variable {den : Int}

theorem abs_roundHalfEven_sub_le (hd : 0 < den) (num : Int) :
    |(roundHalfEven num den : ℚ) - num / den| ≤ 1 / 2 := by
  obtain ⟨hlow, hhigh⟩ := roundHalfEven_bounds hd num
  have hpos : (0 : ℚ) < den := by exact_mod_cast hd
  have hlow : (2 * num : ℚ) ≤ 2 * (roundHalfEven num den * den) + den := by exact_mod_cast hlow
  have hhigh : (2 * (roundHalfEven num den * den) : ℚ) ≤ 2 * num + den := by exact_mod_cast hhigh
  have hexact : (num / den : ℚ) * den = num := div_mul_cancel₀ _ hpos.ne'
  rw [abs_le]
  constructor
  · refine le_of_mul_le_mul_right ?_ hpos
    linarith
  · refine le_of_mul_le_mul_right ?_ hpos
    linarith

theorem ediv_eq_floor (hd : 0 < den) (num : Int) : num / den = ⌊(num / den : ℚ)⌋ := by
  obtain ⟨den, rfl⟩ := Int.eq_ofNat_of_zero_le hd.le
  exact (Rat.floor_intCast_div_natCast num den).symm

theorem ceilDiv_eq_ceil (hd : 0 < den) (num : Int) : ceilDiv num den = ⌈(num / den : ℚ)⌉ := by
  rw [ceilDiv, ediv_eq_floor hd, Int.cast_neg, neg_div, Int.floor_neg, neg_neg]

end Quotient

namespace Dec

/-- The number that a decimal stands for. -/
def toRat (d : Dec) : ℚ := d.raw / scale

theorem scale_cast_pos : (0 : ℚ) < scale := by exact_mod_cast scale_pos

theorem scale_cast : (scale : ℚ) = 10 ^ 18 := by norm_num [scale]

theorem toRat_nonneg {d : Dec} (h : 0 ≤ d.raw) : 0 ≤ d.toRat :=
  div_nonneg (by exact_mod_cast h) scale_cast_pos.le

theorem toRat_le_iff {a b : Dec} : a.toRat ≤ b.toRat ↔ a ≤ b := by
  rw [toRat, toRat, div_le_div_iff_of_pos_right scale_cast_pos, Int.cast_le, le_iff]

@[simp] theorem toRat_one : one.toRat = 1 := div_self scale_cast_pos.ne'

@[simp] theorem toRat_add (a b : Dec) : (a + b).toRat = a.toRat + b.toRat := by
  rw [toRat, raw_add, Int.cast_add, add_div, toRat, toRat]

@[simp] theorem toRat_sub (a b : Dec) : (a - b).toRat = a.toRat - b.toRat := by
  rw [toRat, raw_sub, Int.cast_sub, sub_div, toRat, toRat]

theorem toRat_clamped (d : Dec) : d.clamped.toRat = max 0 d.toRat := by
  rw [toRat, raw_clamped, Int.cast_max, ← max_div_div_right scale_cast_pos.le, Int.cast_zero,
    zero_div, max_comm, toRat]

theorem toRat_ofInt (n : Int) : (ofInt n).toRat = n := by
  rw [toRat, raw_ofInt, Int.cast_mul, mul_div_cancel_right₀ _ scale_cast_pos.ne']

theorem floorInt_eq_floor (d : Dec) : d.floorInt = ⌊d.toRat⌋ := ediv_eq_floor scale_pos d.raw

theorem ceilInt_eq_ceil (d : Dec) : d.ceilInt = ⌈d.toRat⌉ := ceilDiv_eq_ceil scale_pos d.raw

/-- A percentage of a value is not rounded before the whole of it is rounded up. -/
theorem ceilDiv_percentage (value percentage : Dec) :
    ceilDiv (value.raw * percentage.raw) (100 * scale * scale) =
      ⌈value.toRat * percentage.toRat / 100⌉ := by
  have hscale := scale_cast_pos
  rw [ceilDiv_eq_ceil (by decide)]
  congr 1
  simp only [toRat]
  push_cast
  field_simp

/-! ### What one rounding loses -/

def halfUnit : ℚ := 1 / 2 / scale

theorem abs_toRat_sub_le {num den : Int} (hd : 0 < den) {exact : ℚ}
    (h : exact * scale = num / den) :
    |(⟨roundHalfEven num den⟩ : Dec).toRat - exact| ≤ halfUnit := by
  have hscale := scale_cast_pos
  have herror : (⟨roundHalfEven num den⟩ : Dec).toRat - exact =
      (roundHalfEven num den - num / den) / scale := by
    rw [toRat, ← h]
    field_simp
  rw [herror, abs_div, abs_of_pos hscale]
  exact div_le_div_of_nonneg_right (abs_roundHalfEven_sub_le hd num) hscale.le

theorem abs_toRat_mul_sub_le (a b : Dec) : |(a * b).toRat - a.toRat * b.toRat| ≤ halfUnit := by
  have hscale := scale_cast_pos
  refine abs_toRat_sub_le scale_pos ?_
  rw [toRat, toRat, Int.cast_mul]
  field_simp

/-! ### Plain integers as operands -/

theorem times_eq_mul_ofInt (d : Dec) (n : ℤ) : d.times n = d * ofInt n :=
  ext (raw_mul_ofInt d n).symm

theorem divInt_eq_div_ofInt (d : Dec) (n : ℤ) : d.divInt n = d.div (ofInt n) := by
  rcases eq_or_ne n 0 with rfl | hn
  · rfl
  · have hscaled : n * scale ≠ 0 := mul_ne_zero hn scale_pos.ne'
    have hquotient : (d.raw / n : ℚ) = ((d.raw * scale : ℤ) : ℚ) / ((n * scale : ℤ) : ℚ) := by
      push_cast
      rw [mul_div_mul_right _ _ scale_cast_pos.ne']
    rw [divInt_of_ne_zero hn, div_of_ne_zero (b := ofInt n) hscaled, raw_ofInt,
      roundHalfEven_eq_of_div_eq hn hscaled hquotient]

end Dec

/-- The laws of rounding. A rounded quotient is within half of the divisor, and even at exactly
half; it changes its sign with either operand, keeps the order of the exact quotients and is not
changed by a common factor. A product with an integer and a quotient by one, which are computed on
the raw value, are therefore those with the integer as a decimal. -/
theorem roundHalfEven_laws (num num' den den' k : ℤ) (hd : den ≠ 0) (hd' : den' ≠ 0) (hk : k ≠ 0)
    (d : Dec) (n : ℤ) :
    (2 * |num - roundHalfEven num den * den| ≤ |den| ∧
      (2 * |num - roundHalfEven num den * den| = |den| → Even (roundHalfEven num den))) ∧
    (roundHalfEven (-num) den = -roundHalfEven num den ∧
      roundHalfEven num (-den) = -roundHalfEven num den) ∧
    ((num / den : ℚ) ≤ num' / den' → roundHalfEven num den ≤ roundHalfEven num' den') ∧
    roundHalfEven (k * num) (k * den) = roundHalfEven num den ∧
    (Field.dec d).mul (.int n) = .ok (d * .ofInt n) ∧
    (n ≠ 0 → ∃ q, (Field.dec d).div (.int n) = .ok q ∧ d.div (.ofInt n) = .ok q) := by
  have hnegNum : ((-num : ℤ) / den : ℚ) = -(num / den) := by rw [Int.cast_neg, neg_div]
  have hnegDen : (num / (-den : ℤ) : ℚ) = -(num / den) := by rw [Int.cast_neg, div_neg]
  have hfactor : ((k * num : ℤ) / (k * den : ℤ) : ℚ) = num / den := by
    rw [Int.cast_mul, Int.cast_mul, mul_div_mul_left _ _ (by exact_mod_cast hk)]
  refine ⟨(nearestEven_div_iff hd).1 (nearestEven_roundHalfEven num hd), ⟨?_, ?_⟩,
    roundHalfEven_le_of_div_le hd hd', ?_, ?_, fun hn => ?_⟩
  · exact roundHalfEven_eq_neg_of_div_eq hd hd hnegNum
  · exact roundHalfEven_eq_neg_of_div_eq hd (neg_ne_zero.2 hd) hnegDen
  · exact roundHalfEven_eq_of_div_eq (mul_ne_zero hk hd) hd hfactor
  · exact congrArg Except.ok (d.times_eq_mul_ofInt n)
  · refine ⟨⟨roundHalfEven d.raw n⟩, Dec.divInt_of_ne_zero hn, ?_⟩
    rw [← Dec.divInt_eq_div_ofInt, Dec.divInt_of_ne_zero hn]

/-- Seven halves and five halves below zero are ties, and both go to the even neighbour. So does the
quotient of three units of the last place by minus two, on the raw value and as decimals. -/
theorem roundHalfEven_laws_halves :
    (2 * |(-7 : ℤ) - roundHalfEven (-7) 2 * 2| = |2| ∧ Even (roundHalfEven (-7) 2)) ∧
    (roundHalfEven (-(-7)) 2 = -roundHalfEven (-7) 2 ∧
      roundHalfEven (-7) (-2) = -roundHalfEven (-7) 2) ∧
    ((-7 : ℤ) / (2 : ℤ) : ℚ) ≤ (5 : ℤ) / (-2 : ℤ) ∧ roundHalfEven (-7) 2 ≤ roundHalfEven 5 (-2) ∧
    roundHalfEven (-3 * -7) (-3 * 2) = roundHalfEven (-7) 2 ∧
    (Field.dec ⟨3⟩).mul (.int (-2)) = .ok (⟨3⟩ * .ofInt (-2)) ∧
    ∃ q, (Field.dec ⟨3⟩).div (.int (-2)) = .ok q ∧ Dec.div ⟨3⟩ (.ofInt (-2)) = .ok q := by
  obtain ⟨⟨-, heven⟩, hsigns, horder, hfactor, hproduct, hquotient⟩ :=
    roundHalfEven_laws (-7) 5 2 (-2) (-3) (by decide) (by decide) (by decide) ⟨3⟩ (-2)
  have htie : 2 * |(-7 : ℤ) - roundHalfEven (-7) 2 * 2| = |2| := by decide
  have hle : ((-7 : ℤ) / (2 : ℤ) : ℚ) ≤ (5 : ℤ) / (-2 : ℤ) := by norm_num
  exact ⟨⟨htie, heven htie⟩, hsigns, hle, horder hle, hfactor, hproduct, hquotient (by decide)⟩

end BondMarket
