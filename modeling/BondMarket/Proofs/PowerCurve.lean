import BondMarket.Proofs.Monotone
import BondMarket.Proofs.Rational
import Mathlib.Algebra.Order.Ring.Pow

/-!
The power curve as a price and its integral. Powers of a whole supply are whole, so the price is
exact, and the reserve is rounded once, where the power is divided by its degree. A power lies
above its tangents, and the slope of the integral is the price. So between two supplies the
reserve changes by no less than the lower of the two prices asks for and by no more than the
upper one, up to the half units that are lost at both ends.
-/

namespace BondMarket.Curve

variable {m c p p' r r' : Dec} {n : Nat} {s s' a : Int}

theorem pow_tangent_le (hs : 0 ≤ s) (hs' : 0 ≤ s') (n : Nat) :
    (n + 1) * s ^ n * (s' - s) ≤ s' ^ (n + 1) - s ^ (n + 1) := by
  have h := pow_add_mul_le_add_pow hs (show 0 ≤ 2 * s + (s' - s) by omega) (n + 1)
  rw [add_sub_cancel, Nat.add_sub_cancel, Nat.cast_add_one] at h
  omega

/-- The rounded reserve of a power curve lies above its tangents too, up to one unit of the last
place. -/
theorem power_tangent_le (hm : 0 ≤ m.raw) (hs : 0 ≤ s) (hs' : 0 ≤ s')
    (hp : (power m n c).priceAt s = .ok p) (hr : (power m n c).reserveAt s = .ok r)
    (hr' : (power m n c).reserveAt s' = .ok r') : p.raw * (s' - s) ≤ r'.raw - r.raw + 1 := by
  rw [priceAt_power] at hp
  rw [reserveAt_power] at hr hr'
  cases hp
  cases hr
  cases hr'
  have hden : (0 : Int) < n + 1 := by omega
  have hlow := (roundHalfEven_bounds hden (m.raw * s' ^ (n + 1))).1
  have hhigh := (roundHalfEven_bounds hden (m.raw * s ^ (n + 1))).2
  have htangent := mul_le_mul_of_nonneg_left (pow_tangent_le hs hs' n) hm
  -- Each end is off by at most half a unit, so that the difference is by at most one.
  set after := roundHalfEven (m.raw * s' ^ (n + 1)) (n + 1)
  set before := roundHalfEven (m.raw * s ^ (n + 1)) (n + 1)
  have hround : m.raw * s ^ n * (s' - s) * (n + 1) ≤ (after - before + 1) * (n + 1) := by linarith
  have := le_of_mul_le_mul_right hround hden
  dsimp only
  linarith

theorem mintCost_power_bounds (hm : 0 ≤ m.raw) (hs : 0 ≤ s) (ha : 0 ≤ a)
    (hp : (power m n c).priceAt s = .ok p) (hp' : (power m n c).priceAt (s + a) = .ok p')
    {d : Dec} (hd : (power m n c).mintCost a s = .ok d) :
    a * p.toRat - 1 / Dec.scale ≤ d.toRat ∧ d.toRat ≤ a * p'.toRat + 1 / Dec.scale := by
  have hsum : 0 ≤ s + a := add_nonneg hs ha
  have hscale := Dec.scale_cast_pos.le
  obtain ⟨r, hr⟩ : ∃ r, (power m n c).reserveAt s = .ok r := ⟨_, reserveAt_power m n c s⟩
  obtain ⟨r', hr'⟩ : ∃ r', (power m n c).reserveAt (s + a) = .ok r' := ⟨_, reserveAt_power m n c _⟩
  -- The tangent before the mint bounds the gain from below, and the one after it from above.
  have hgain : d = r' - r := Except.ok.inj (hd.symm.trans (mintCost_eq ha hs hr hr'))
  have hlow : a * p.raw - 1 ≤ d.raw := by
    have := power_tangent_le hm hs hsum hp hr hr'
    rw [hgain, Dec.raw_sub]
    linarith
  have hhigh : d.raw ≤ a * p'.raw + 1 := by
    have := power_tangent_le hm hsum hs hp' hr' hr
    rw [hgain, Dec.raw_sub]
    linarith
  constructor
  · calc a * p.toRat - 1 / Dec.scale = (a * p.raw - 1) / Dec.scale := by rw [Dec.toRat]; ring
      _ ≤ d.toRat := div_le_div_of_nonneg_right (by exact_mod_cast hlow) hscale
  · calc d.toRat ≤ (a * p'.raw + 1) / Dec.scale :=
          div_le_div_of_nonneg_right (by exact_mod_cast hhigh) hscale
      _ = a * p'.toRat + 1 / Dec.scale := by rw [Dec.toRat]; ring

theorem toRat_priceAt_power (hp : (power m n c).priceAt s = .ok p) :
    p.toRat = m.toRat * s ^ n + c.toRat := by
  rw [priceAt_power] at hp
  cases hp
  simp only [Dec.toRat]
  push_cast
  ring

theorem abs_reserveAt_power_sub_le (hr : (power m n c).reserveAt s = .ok r) :
    |r.toRat - (m.toRat * s ^ (n + 1) / (n + 1) + c.toRat * s)| ≤ 1 / 2 / Dec.scale := by
  rw [reserveAt_power] at hr
  cases hr
  have hden : (0 : Int) < n + 1 := by omega
  have hround := abs_roundHalfEven_sub_le hden (m.raw * s ^ (n + 1))
  set quotient := roundHalfEven (m.raw * s ^ (n + 1)) (n + 1)
  have herror : (⟨quotient + c.raw * s⟩ : Dec).toRat -
        (m.toRat * s ^ (n + 1) / (n + 1) + c.toRat * s) =
      (quotient - ((m.raw * s ^ (n + 1) : Int) : ℚ) / ((n + 1 : Int) : ℚ)) / Dec.scale := by
    simp only [Dec.toRat]
    push_cast
    ring
  rw [herror, abs_div, abs_of_pos Dec.scale_cast_pos]
  exact div_le_div_of_nonneg_right hround Dec.scale_cast_pos.le

/-- A power curve is the exact price with its integral. At every supply the price is `m * s ^ n + c`
itself, where the zeroth power of zero is one; the reserve is within half a unit of the last place
of `m * s ^ (n + 1) / (n + 1) + c * s`; minting costs for every token at least the price before and
at most the price after, up to a unit; and burning what was minted returns what it cost. -/
theorem power_exact (hm : 0 ≤ m.raw) (n : Nat) (c : Dec) (hs : 0 ≤ s) (ha : 0 ≤ a) :
    ∃ p p' r d, (power m n c).priceAt s = .ok p ∧ (power m n c).priceAt (s + a) = .ok p' ∧
      (power m n c).reserveAt s = .ok r ∧ (power m n c).mintCost a s = .ok d ∧
      p.toRat = m.toRat * s ^ n + c.toRat ∧
      |r.toRat - (m.toRat * s ^ (n + 1) / (n + 1) + c.toRat * s)| ≤ 1 / 2 / 10 ^ 18 ∧
      a * p.toRat - 1 / 10 ^ 18 ≤ d.toRat ∧ d.toRat ≤ a * p'.toRat + 1 / 10 ^ 18 ∧
      (power m n c).burnReturn a (s + a) = .ok d := by
  have hp := priceAt_power m n c s
  have hp' := priceAt_power m n c (s + a)
  have hr := reserveAt_power m n c s
  have hd := mintCost_eq ha hs hr (reserveAt_power m n c (s + a))
  obtain ⟨hlow, hhigh⟩ := mintCost_power_bounds hm hs ha hp hp' hd
  have herror := abs_reserveAt_power_sub_le hr
  rw [Dec.scale_cast] at hlow hhigh herror
  exact ⟨_, _, _, _, hp, hp', hr, hd, toRat_priceAt_power hp, herror, hlow, hhigh,
    (burnReturn_add _ ha hs).trans hd⟩

/-- A price of square units. At one token a third of a unit backs the supply, which is rounded to
nothing; two more tokens cost the nine units that three tokens are backed by. -/
theorem power_exact_squares :
    ∃ p p' r d, (power ⟨1⟩ 2 Dec.zero).priceAt 1 = .ok p ∧
      (power ⟨1⟩ 2 Dec.zero).priceAt 3 = .ok p' ∧ (power ⟨1⟩ 2 Dec.zero).reserveAt 1 = .ok r ∧
      (power ⟨1⟩ 2 Dec.zero).mintCost 2 1 = .ok d ∧ r = ⟨0⟩ ∧ d = ⟨9⟩ ∧
      p.toRat = 1 / 10 ^ 18 ∧ |r.toRat - 1 / 3 / 10 ^ 18| ≤ 1 / 2 / 10 ^ 18 ∧
      2 * p.toRat - 1 / 10 ^ 18 ≤ d.toRat ∧ d.toRat ≤ 2 * p'.toRat + 1 / 10 ^ 18 ∧
      (power ⟨1⟩ 2 Dec.zero).burnReturn 2 3 = .ok d := by
  obtain ⟨p, p', r, d, hp, hp', hr, hd, hprice, herror, hlow, hhigh, hburn⟩ :=
    power_exact (m := ⟨1⟩) (s := 1) (a := 2) (by decide) 2 Dec.zero (by decide) (by decide)
  have hreserve : (power ⟨1⟩ 2 Dec.zero).reserveAt 1 = .ok ⟨0⟩ := by decide +kernel
  have hcost : (power ⟨1⟩ 2 Dec.zero).mintCost 2 1 = .ok ⟨9⟩ := by decide +kernel
  obtain rfl := Except.ok.inj (hr.symm.trans hreserve)
  obtain rfl := Except.ok.inj (hd.symm.trans hcost)
  have hunit : (⟨1⟩ : Dec).toRat = 1 / 10 ^ 18 := by rw [Dec.toRat, Dec.scale_cast, Int.cast_one]
  have hzero : Dec.zero.toRat = 0 := by norm_num [Dec.toRat]
  rw [hunit, hzero] at hprice herror
  refine ⟨p, p', _, _, hp, hp', hr, hd, rfl, rfl, ?_, ?_, by exact_mod_cast hlow,
    by exact_mod_cast hhigh, hburn⟩
  · rw [hprice]
    norm_num
  · convert herror using 3
    norm_num

end BondMarket.Curve
