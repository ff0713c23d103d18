import BondMarket.Decimal.Basic
import Mathlib.Algebra.Order.Field.Rat
import Mathlib.Algebra.Ring.Int.Parity
import Mathlib.Tactic.Linarith
import Mathlib.Tactic.Positivity
import Mathlib.Tactic.Ring

/-!
Rounding to the nearest integer, half to even, as a property of the exact number. It fixes the
integer, and of a greater number it fixes no smaller one. A rounded quotient has the property for
the quotient as a rational number, so it depends on that number alone and not on how it is written
as a fraction; the laws of signs, of order and of common factors are laws of rational numbers.
-/

namespace BondMarket

/-- The integer `q` is nearest to `x`, and even where another one is as near. -/
structure NearestEven (x : ℚ) (q : ℤ) : Prop where
  near : |x - q| ≤ 1 / 2
  even : |x - q| = 1 / 2 → Even q

namespace NearestEven

variable {x y : ℚ} {p q : ℤ}

theorem le_of_le (hp : NearestEven x p) (hq : NearestEven y q) (h : x ≤ y) : p ≤ q := by
  by_contra hlt
  have hstep : (q : ℚ) + 1 ≤ p := by exact_mod_cast not_le.1 hlt
  have hbelow := (abs_le.1 hp.near).1
  have habove := (abs_le.1 hq.near).2
  -- Both numbers would be the half between the two integers, which are then both even.
  have hx : x - p = -(1 / 2) := by linarith
  have hy : y - q = 1 / 2 := by linarith
  have hnext : p = q + 1 := by
    have : (p : ℚ) = q + 1 := by linarith
    exact_mod_cast this
  have heven : Even p := hp.even (by rw [hx, abs_neg, abs_of_pos one_half_pos])
  rw [hnext, Int.even_add_one] at heven
  exact heven (hq.even (by rw [hy, abs_of_pos one_half_pos]))

theorem unique (hp : NearestEven x p) (hq : NearestEven x q) : p = q :=
  le_antisymm (hp.le_of_le hq le_rfl) (hq.le_of_le hp le_rfl)

theorem intCast (k : ℤ) : NearestEven k k := by
  have hdist : |(k : ℚ) - k| = 0 := by rw [sub_self, abs_zero]
  exact ⟨by rw [hdist]; norm_num, fun h => by rw [hdist] at h; norm_num at h⟩

theorem neg (h : NearestEven x q) : NearestEven (-x) (-q) := by
  have hdist : |-x - ((-q : ℤ) : ℚ)| = |x - q| := by
    rw [Int.cast_neg, neg_sub_neg, abs_sub_comm]
  exact ⟨by rw [hdist]; exact h.near, fun heq => (h.even (hdist ▸ heq)).neg⟩

end NearestEven

section Quotient

variable {num den num' den' : ℤ}

theorem nearestEven_div_iff (hd : den ≠ 0) {q : ℤ} :
    NearestEven (num / den) q ↔
      2 * |num - q * den| ≤ |den| ∧ (2 * |num - q * den| = |den| → Even q) := by
  have hpos : (0 : ℚ) < |(den : ℚ)| := abs_pos.2 (by exact_mod_cast hd)
  have hdist : |(num / den : ℚ) - q| = |(num : ℚ) - q * den| / |(den : ℚ)| := by
    rw [← abs_div, sub_div, mul_div_cancel_right₀ _ (by exact_mod_cast hd)]
  have hle : |(num / den : ℚ) - q| ≤ 1 / 2 ↔ 2 * |num - q * den| ≤ |den| := by
    rw [hdist, div_le_div_iff₀ hpos two_pos, mul_comm, one_mul]
    exact_mod_cast Iff.rfl
  have heq : |(num / den : ℚ) - q| = 1 / 2 ↔ 2 * |num - q * den| = |den| := by
    rw [hdist, div_eq_div_iff hpos.ne' two_ne_zero, mul_comm, one_mul]
    exact_mod_cast Iff.rfl
  exact ⟨fun h => ⟨hle.1 h.near, fun h' => h.even (heq.2 h')⟩,
    fun h => ⟨hle.2 h.1, fun h' => h.2 (heq.1 h')⟩⟩

theorem nearestEven_magnitude (n : Nat) {d : Nat} (hd : 0 < d) :
    NearestEven ((n : ℤ) / (d : ℤ))
      (if d < 2 * (n % d) ∨ (2 * (n % d) = d ∧ n / d % 2 = 1) then n / d + 1 else n / d : Nat) := by
  rw [nearestEven_div_iff (by exact_mod_cast hd.ne')]
  have hn : d * (n / d) + n % d = n := Nat.div_add_mod n d
  have hrest : n % d < d := Nat.mod_lt n hd
  have hexact : (n : ℤ) = d * (n / d : Nat) + (n % d : Nat) := by exact_mod_cast hn.symm
  rw [abs_of_nonneg (by positivity : (0 : ℤ) ≤ d), Int.even_iff]
  generalize n / d = quo at *
  generalize n % d = rest at *
  split
  · have hover : (n : ℤ) - ((quo + 1 : Nat) : ℤ) * d = rest - d := by
      rw [hexact]
      push_cast
      ring
    rw [hover, abs_of_neg (by omega)]
    omega
  · have hunder : (n : ℤ) - (quo : ℤ) * d = rest := by
      rw [hexact]
      ring
    rw [hunder, abs_of_nonneg (by positivity)]
    omega

theorem div_eq_magnitudes (num den : ℤ) :
    (num / den : ℚ) =
      if decide (num < 0) = decide (den < 0)
      then ((num.natAbs : ℤ) / (den.natAbs : ℤ) : ℚ)
      else -((num.natAbs : ℤ) / (den.natAbs : ℤ) : ℚ) := by
  rw [Int.natCast_natAbs, Int.natCast_natAbs]
  rcases lt_or_ge num 0 with hnum | hnum <;> rcases lt_or_ge den 0 with hden | hden
  · simp [hnum, hden, abs_of_neg, neg_div_neg_eq]
  · simp [hnum, not_lt.2 hden, abs_of_neg, abs_of_nonneg hden, neg_div]
  · simp [not_lt.2 hnum, hden, abs_of_neg, abs_of_nonneg hnum, div_neg]
  · simp [not_lt.2 hnum, not_lt.2 hden, abs_of_nonneg hnum, abs_of_nonneg hden]

/-- The rounded quotient is the nearest integer, half to even, whatever the signs. -/
theorem nearestEven_roundHalfEven (num : ℤ) (hd : den ≠ 0) :
    NearestEven (num / den) (roundHalfEven num den) := by
  have hmagnitude := nearestEven_magnitude num.natAbs (Int.natAbs_pos.2 hd)
  rw [div_eq_magnitudes]
  simp only [roundHalfEven]
  split
  · exact hmagnitude
  · exact hmagnitude.neg

theorem roundHalfEven_le_of_div_le (hd : den ≠ 0) (hd' : den' ≠ 0)
    (h : (num / den : ℚ) ≤ num' / den') : roundHalfEven num den ≤ roundHalfEven num' den' :=
  (nearestEven_roundHalfEven num hd).le_of_le (nearestEven_roundHalfEven num' hd') h

/-- The rounded quotient depends on the exact one alone. -/
theorem roundHalfEven_eq_of_div_eq (hd : den ≠ 0) (hd' : den' ≠ 0)
    (h : (num / den : ℚ) = num' / den') : roundHalfEven num den = roundHalfEven num' den' :=
  le_antisymm (roundHalfEven_le_of_div_le hd hd' h.le) (roundHalfEven_le_of_div_le hd' hd h.ge)

theorem roundHalfEven_eq_neg_of_div_eq (hd : den ≠ 0) (hd' : den' ≠ 0)
    (h : (num' / den' : ℚ) = -(num / den)) : roundHalfEven num' den' = -roundHalfEven num den := by
  have hneg := (nearestEven_roundHalfEven num hd).neg
  rw [← h] at hneg
  exact (nearestEven_roundHalfEven num' hd').unique hneg

end Quotient

end BondMarket
