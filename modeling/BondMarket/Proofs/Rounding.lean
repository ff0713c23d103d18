import BondMarket.Proofs.NearestEven

/-!
Laws of rounding. The rounded quotient `q` of `num` by a positive `den` is within half a unit,
which is all that its users need to know of it: it is monotone, exact on multiples, and `q * den`
is off from `num` by at most `den / 2`. Quotients rounded up are within one unit.
-/

namespace BondMarket

section HalfEven

variable {num num' den den' : Int}

/-- The rounded quotient is within half a unit of the exact one. -/
theorem roundHalfEven_bounds (hd : 0 < den) (num : Int) :
    2 * num ≤ 2 * (roundHalfEven num den * den) + den ∧
      2 * (roundHalfEven num den * den) ≤ 2 * num + den := by
  have hnear := ((nearestEven_div_iff hd.ne').1 (nearestEven_roundHalfEven num hd.ne')).1
  rw [abs_of_pos hd] at hnear
  have hover := le_abs_self (num - roundHalfEven num den * den)
  have hunder := neg_abs_le (num - roundHalfEven num den * den)
  constructor <;> linarith

theorem roundHalfEven_mul_le (hd : 0 < den) (num k : Int) :
    2 * (roundHalfEven num den * k) * den ≤ 2 * (num * k) + den * |k| := by
  obtain ⟨hlow, hhigh⟩ := roundHalfEven_bounds hd num
  rcases le_total 0 k with hk | hk
  · have := mul_le_mul_of_nonneg_right hhigh hk
    rw [abs_of_nonneg hk]
    linarith
  · have := mul_le_mul_of_nonpos_right hlow hk
    rw [abs_of_nonpos hk]
    linarith

theorem roundHalfEven_le_of_cross (hd : 0 < den) (hd' : 0 < den') (h : num * den' ≤ num' * den) :
    roundHalfEven num den ≤ roundHalfEven num' den' := by
  refine roundHalfEven_le_of_div_le hd.ne' hd'.ne' ?_
  rw [div_le_div_iff₀ (by exact_mod_cast hd) (by exact_mod_cast hd')]
  exact_mod_cast h

theorem roundHalfEven_mono (hd : 0 < den) (h : num ≤ num') :
    roundHalfEven num den ≤ roundHalfEven num' den :=
  roundHalfEven_le_of_cross hd hd (mul_le_mul_of_nonneg_right h hd.le)

/-- The quotient of the sums is between the two quotients. -/
theorem roundHalfEven_mediant (hd : 0 < den) (hd' : 0 < den') (h : num * den' ≤ num' * den) :
    roundHalfEven num den ≤ roundHalfEven (num + num') (den + den') ∧
      roundHalfEven (num + num') (den + den') ≤ roundHalfEven num' den' :=
  ⟨roundHalfEven_le_of_cross hd (add_pos hd hd') (by linarith),
    roundHalfEven_le_of_cross (add_pos hd hd') hd' (by linarith)⟩

theorem roundHalfEven_mul_self (hd : 0 < den) (k : Int) : roundHalfEven (k * den) den = k := by
  have hnearest := nearestEven_roundHalfEven (k * den) hd.ne'
  rw [Int.cast_mul, mul_div_cancel_right₀ _ (by exact_mod_cast hd.ne')] at hnearest
  exact hnearest.unique (.intCast k)

/-- A whole number that bounds the quotient bounds the rounded one. -/
theorem roundHalfEven_le_of_le_mul (hd : 0 < den) {k : Int} (h : num ≤ k * den) :
    roundHalfEven num den ≤ k :=
  (roundHalfEven_mono hd h).trans_eq (roundHalfEven_mul_self hd k)

theorem le_roundHalfEven_of_mul_le (hd : 0 < den) {k : Int} (h : k * den ≤ num) :
    k ≤ roundHalfEven num den :=
  (roundHalfEven_mul_self hd k).symm.trans_le (roundHalfEven_mono hd h)

theorem roundHalfEven_zero (hd : 0 < den) : roundHalfEven 0 den = 0 := by
  simpa using roundHalfEven_mul_self hd 0

theorem roundHalfEven_nonneg (hd : 0 < den) (h : 0 ≤ num) : 0 ≤ roundHalfEven num den := by
  simpa [roundHalfEven_zero hd] using roundHalfEven_mono hd h

theorem roundHalfEven_of_nonneg (hd : 0 < den) (h : 0 ≤ num) :
    roundHalfEven num den =
      if den < 2 * (num % den) ∨ (2 * (num % den) = den ∧ num / den % 2 = 1)
      then num / den + 1 else num / den := by
  obtain ⟨n, rfl⟩ := Int.eq_ofNat_of_zero_le h
  obtain ⟨d, rfl⟩ := Int.eq_ofNat_of_zero_le hd.le
  have hneg (k : Nat) : ¬ ((k : Int) < 0) := by omega
  simp only [roundHalfEven, Int.natAbs_natCast, hneg, decide_false, if_true]
  norm_cast

/-- A step by an even multiple of the divisor changes neither the rest nor the parity that a half
is decided by. -/
theorem roundHalfEven_add_even (hd : 0 < den) (h : 0 ≤ num) {k : Int} (hk : k % 2 = 0)
    (h' : 0 ≤ num + k * den) : roundHalfEven (num + k * den) den = roundHalfEven num den + k := by
  rw [roundHalfEven_of_nonneg hd h, roundHalfEven_of_nonneg hd h', Int.add_mul_emod_self_right,
    Int.add_mul_ediv_right _ _ hd.ne']
  have hparity : (num / den + k) % 2 = num / den % 2 := by omega
  rw [hparity]
  split <;> omega

/-- Below an even number the rounded quotient stays exactly where the quotient stays below the half
before it: the half itself goes up, to the even neighbour. -/
theorem roundHalfEven_lt_iff (hd : 0 < den) (h : 0 ≤ num) {k : Int} (hk : k % 2 = 0) :
    roundHalfEven num den < k ↔ 2 * num < (2 * k - 1) * den := by
  rw [roundHalfEven_of_nonneg hd h]
  have hdiv : num / den * den + num % den = num := Int.ediv_mul_add_emod num den
  have hrest := Int.emod_nonneg num hd.ne'
  have hless := Int.emod_lt_of_pos num hd
  generalize num / den = q at *
  generalize num % den = r at *
  rcases lt_trichotomy q (k - 1) with hlow | rfl | hhigh
  · have hle : (q + 1) * den ≤ (k - 1) * den := mul_le_mul_of_nonneg_right (by omega) hd.le
    have hround : (if den < 2 * r ∨ 2 * r = den ∧ q % 2 = 1 then q + 1 else q) < k := by
      split <;> omega
    exact iff_of_true hround (by linarith)
  · have hodd : (k - 1) % 2 = 1 := by omega
    have hsum : 2 * num = 2 * ((k - 1) * den) + 2 * r := by omega
    have hbound : (2 * k - 1) * den = 2 * ((k - 1) * den) + den := by ring
    rw [hsum, hbound]
    split <;> omega
  · have hge : k * den ≤ q * den := mul_le_mul_of_nonneg_right (by omega) hd.le
    have hround : ¬ (if den < 2 * r ∨ 2 * r = den ∧ q % 2 = 1 then q + 1 else q) < k := by
      split <;> omega
    exact iff_of_false hround (by linarith)

/-- Above an even number the rounded quotient gets exactly where the quotient exceeds the half after
it: the half itself goes down, to the even neighbour. -/
theorem lt_roundHalfEven_iff (hd : 0 < den) (h : 0 ≤ num) {k : Int} (hk : k % 2 = 0) :
    k < roundHalfEven num den ↔ (2 * k + 1) * den < 2 * num := by
  rw [roundHalfEven_of_nonneg hd h]
  have hdiv : num / den * den + num % den = num := Int.ediv_mul_add_emod num den
  have hrest := Int.emod_nonneg num hd.ne'
  have hless := Int.emod_lt_of_pos num hd
  generalize num / den = q at *
  generalize num % den = r at *
  rcases lt_trichotomy q k with hlow | rfl | hhigh
  · have hle : (q + 1) * den ≤ k * den := mul_le_mul_of_nonneg_right (by omega) hd.le
    have hround : ¬ k < (if den < 2 * r ∨ 2 * r = den ∧ q % 2 = 1 then q + 1 else q) := by
      split <;> omega
    exact iff_of_false hround (by linarith)
  · have heven : ¬ q % 2 = 1 := by omega
    have hsum : 2 * num = 2 * (q * den) + 2 * r := by omega
    have hbound : (2 * q + 1) * den = 2 * (q * den) + den := by ring
    rw [hsum, hbound]
    split <;> omega
  · have hge : (k + 1) * den ≤ q * den := mul_le_mul_of_nonneg_right (by omega) hd.le
    have hround : k < (if den < 2 * r ∨ 2 * r = den ∧ q % 2 = 1 then q + 1 else q) := by
      split <;> omega
    exact iff_of_true hround (by linarith)

end HalfEven

section Ceiling

variable {num num' den : Int}

theorem le_ceilDiv_mul (hd : 0 < den) (num : Int) : num ≤ ceilDiv num den * den := by
  have h := Int.ediv_mul_le (-num) hd.ne'
  unfold ceilDiv
  linarith

theorem ceilDiv_mul_lt (hd : 0 < den) (num : Int) : ceilDiv num den * den < num + den := by
  have h := Int.lt_ediv_add_one_mul_self (-num) hd
  unfold ceilDiv
  linarith

theorem ceilDiv_mono (hd : 0 < den) (h : num ≤ num') : ceilDiv num den ≤ ceilDiv num' den := by
  have := Int.ediv_le_ediv hd (neg_le_neg h)
  unfold ceilDiv
  omega

theorem ceilDiv_add_mul (hd : 0 < den) (num k : Int) :
    ceilDiv (num + k * den) den = ceilDiv num den + k := by
  have hneg : -(num + k * den) = -num + -k * den := by ring
  rw [ceilDiv, ceilDiv, hneg, Int.add_mul_ediv_right _ _ hd.ne']
  omega

theorem ceilDiv_nonneg (hd : 0 < den) (h : 0 ≤ num) : 0 ≤ ceilDiv num den := by
  have := ceilDiv_mono hd h
  simpa [ceilDiv] using this

end Ceiling

namespace Dec

/-! ### The rounded values of a decimal

`ceilInt` and `floorInt` are within one unit of the decimal, counted in units of the last place. -/

theorem raw_le_ceilInt (d : Dec) : d.raw ≤ d.ceilInt * scale := le_ceilDiv_mul scale_pos d.raw

theorem ceilInt_lt (d : Dec) : d.ceilInt * scale < d.raw + scale := ceilDiv_mul_lt scale_pos d.raw

theorem floorInt_le_raw (d : Dec) : d.floorInt * scale ≤ d.raw :=
  Int.ediv_mul_le d.raw scale_pos.ne'

theorem lt_floorInt (d : Dec) : d.raw < (d.floorInt + 1) * scale :=
  Int.lt_ediv_add_one_mul_self d.raw scale_pos

theorem floorInt_le_iff {d : Dec} {n : Int} : d.floorInt ≤ n ↔ d.raw < (n + 1) * scale := by
  constructor
  · intro h
    exact (lt_floorInt d).trans_le (mul_le_mul_of_nonneg_right (by omega) scale_pos.le)
  · intro h
    have := lt_of_mul_lt_mul_right ((floorInt_le_raw d).trans_lt h) scale_pos.le
    omega

theorem ceilInt_nonneg {d : Dec} (h : 0 ≤ d.raw) : 0 ≤ d.ceilInt := ceilDiv_nonneg scale_pos h

theorem floorInt_nonneg {d : Dec} (h : 0 ≤ d.raw) : 0 ≤ d.floorInt :=
  Int.ediv_nonneg h scale_pos.le

theorem raw_mul_nonneg {a b : Dec} (ha : 0 ≤ a.raw) (hb : 0 ≤ b.raw) : 0 ≤ (a * b).raw :=
  roundHalfEven_nonneg scale_pos (mul_nonneg ha hb)

theorem raw_mul_ofInt (a : Dec) (n : Int) : (a * ofInt n).raw = a.raw * n := by
  rw [raw_mul, raw_ofInt, ← mul_assoc, roundHalfEven_mul_self scale_pos]

theorem raw_clamped (d : Dec) : d.clamped.raw = max d.raw 0 := by
  unfold clamped
  split
  · rename_i h
    have : 0 < d.raw := h
    omega
  · rename_i h
    have : ¬ 0 < d.raw := h
    rw [raw_zero]
    omega

end Dec
end BondMarket
