import BondMarket.Proofs.Curve

/-!
The range of a sigmoid curve. The constant below the root keeps the rounded root above the
distance of the supply to the middle of the curve, however small it is. So nothing is divided by
zero, the price is between nothing and twice the parameter `a`, and since the root does not grow
faster than the supply, a token is backed by no more than the highest price.
-/

namespace BondMarket.Curve

variable {a b c p r : Dec} {s : Int}

theorem priceAt_sigmoid_le (ha : 0 ≤ a.raw) (hc : 0 < c.raw)
    (hp : (sigmoid a b c).priceAt s = .ok p) : p ≤ a.times 2 := by
  obtain ⟨root, hroot, -⟩ := sigmoidRoot_spec (b := b) hc s
  have hslope := (sigmoidSlope_bounds hc hroot).2
  rw [priceAt_sigmoid hc hroot] at hp
  cases hp
  show (a * _).raw ≤ (a.times 2).raw
  rw [Dec.raw_mul, Dec.raw_add, Dec.raw_one, Dec.raw_times]
  apply roundHalfEven_le_of_le_mul Dec.scale_pos
  rw [mul_assoc]
  exact mul_le_mul_of_nonneg_left (by dsimp only; omega) ha

theorem reserveAt_sigmoid_le (ha : 0 ≤ a.raw) (hc : 0 < c.raw) (hs : 0 ≤ s)
    (hr : (sigmoid a b c).reserveAt s = .ok r) : r ≤ a.times (2 * s) := by
  obtain ⟨root, root₀, hroot, hroot₀, hok⟩ := reserveAt_sigmoid (a := a) (b := b) hc s
  have hrises := (sigmoidRoot_le_and_le hc hs hroot₀ hroot).2
  cases hr.symm.trans hok
  show (a * _).raw ≤ (a.times (2 * s)).raw
  rw [Dec.raw_mul, Dec.raw_add, Dec.raw_sub, Dec.raw_ofInt, Dec.raw_times]
  apply roundHalfEven_le_of_le_mul Dec.scale_pos
  rw [mul_assoc]
  exact mul_le_mul_of_nonneg_left (by linarith) ha

/-- A sigmoid curve is total and bounded. For parameters that are not negative and a positive
constant, however small, there is a curve, with a price and a reserve at every supply. The price is
not negative and not above twice the parameter `a`; nothing backs a supply of nothing; and the
reserve is not negative and not above twice the parameter for every token. -/
theorem sigmoid_bounded (ha : 0 ≤ a.raw) (hb : 0 ≤ b.raw) (hc : 0 < c.raw) (hs : 0 ≤ s) :
    ∃ curve p r, ofSigmoid a b c = .ok curve ∧ curve.priceAt s = .ok p ∧
      curve.reserveAt s = .ok r ∧ Dec.zero ≤ p ∧ p ≤ a.times 2 ∧
      curve.reserveAt 0 = .ok Dec.zero ∧ Dec.zero ≤ r ∧ r ≤ a.times (2 * s) := by
  have hproper : (sigmoid a b c).Proper := ⟨ha, hb, hc⟩
  have hcurve : ofSigmoid a b c = .ok (sigmoid a b c) := by
    have hne : c.isZero = false := by simpa [Dec.isZero] using hc.ne'
    rw [ofSigmoid, hne]
    rfl
  obtain ⟨root, hroot, -⟩ := sigmoidRoot_spec (b := b) hc s
  have hp := priceAt_sigmoid (a := a) hc hroot
  obtain ⟨r, hr⟩ := exists_reserveAt_of_integral hproper trivial s
  exact ⟨_, _, r, hcurve, hp, hr, priceAt_nonneg hproper hs hp, priceAt_sigmoid_le ha hc hp,
    reserveAt_zero hproper trivial, reserveAt_nonneg hproper hs hr,
    reserveAt_sigmoid_le ha hc hs hr⟩

theorem sigmoid_bounded_attained :
    ∃ curve p r, ofSigmoid (.ofInt 3) (.ofInt 5) ⟨1⟩ = .ok curve ∧ curve.priceAt 6 = .ok p ∧
      curve.reserveAt 6 = .ok r ∧ p = .ofInt 6 ∧ r = .ofInt 6 ∧ p ≤ (Dec.ofInt 3).times 2 ∧
      curve.reserveAt 0 = .ok Dec.zero ∧ Dec.zero ≤ r ∧ r ≤ (Dec.ofInt 3).times (2 * 6) := by
  obtain ⟨curve, p, r, hcurve, hp, hr, -, hhigh, hzero, hnonneg, hbacked⟩ :=
    sigmoid_bounded (a := .ofInt 3) (b := .ofInt 5) (c := ⟨1⟩) (s := 6) (by decide) (by decide)
      (by decide) (by decide)
  have hprice : (sigmoid (.ofInt 3) (.ofInt 5) ⟨1⟩).priceAt 6 = .ok (.ofInt 6) := by decide +kernel
  have hreserve : (sigmoid (.ofInt 3) (.ofInt 5) ⟨1⟩).reserveAt 6 = .ok (.ofInt 6) := by
    decide +kernel
  cases hcurve
  cases hprice.symm.trans hp
  cases hreserve.symm.trans hr
  exact ⟨_, _, _, rfl, hp, hr, rfl, rfl, hhigh, hzero, hnonneg, hbacked⟩

end BondMarket.Curve
