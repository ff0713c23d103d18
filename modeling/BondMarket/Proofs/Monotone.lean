import BondMarket.Proofs.Curve

/-!
Rounded prices and reserves do not fall as the supply grows.

A price of a power or an augmented curve is rounded once, from a quotient with a fixed divisor. A
price of a sigmoid curve is a quotient of two numbers that both depend on the supply, and the
divisor is itself a rounded root of a rounded square. What carries the argument is that this root
changes by at most as much as the supply does: so the two quotients are ordered before they are
rounded, and rounding keeps the order although the divisors differ.
-/

namespace BondMarket
namespace Curve

/-- The parameters are in the range in which a curve has a price and a reserve at every supply. -/
def Regular : Curve → Prop
  | power m n c => 0 ≤ m.raw ∧ 0 ≤ n ∧ 0 ≤ c.raw
  | sigmoid a b c => 0 ≤ a.raw ∧ 0 ≤ b.raw ∧ 0 < c.raw
  | augmented kappa v0 => 1 ≤ kappa ∧ 0 < v0.raw

variable {curve : Curve} {s s' : Int}

theorem Regular.proper (h : curve.Regular) : curve.Proper := by
  cases curve with
  | power m n c => exact h
  | sigmoid a b c => exact h
  | augmented kappa v0 => exact ⟨by have := h.1; omega, h.2.le⟩

theorem Proper.regular (h : curve.Proper) (hi : curve.IsIntegral) : curve.Regular := by
  cases curve with
  | power m n c => exact h
  | sigmoid a b c => exact h
  | augmented kappa v0 => exact hi.elim

/-- The slope of a base to its root, as a comparison of products. A base that grows by more than
the distance between the roots has the greater slope, on either side of zero. -/
theorem slope_le {x x' r r' : Int} (hr : 0 < r) (hr' : 0 < r') (hx : -r ≤ x ∧ x ≤ r)
    (hx' : -r' ≤ x' ∧ x' ≤ r') (hle : x ≤ x') (hfalls : r + x ≤ r' + x')
    (hrises : r' - x' ≤ r - x) : x * r' ≤ x' * r := by
  rcases le_or_gt 0 x with hpos | hneg
  · calc x * r' ≤ x * (r + (x' - x)) := mul_le_mul_of_nonneg_left (by omega) hpos
      _ = x * r + x * (x' - x) := by ring
      _ ≤ x * r + r * (x' - x) :=
        add_le_add_right (mul_le_mul_of_nonneg_right hx.2 (by omega)) (x * r)
      _ = x' * r := by ring
  · rcases le_or_gt x' 0 with hneg' | hpos'
    · calc x * r' = x' * r' - (x' - x) * r' := by ring
        _ ≤ x' * r' + (x' - x) * x' := by
          have := mul_le_mul_of_nonneg_left hx'.1 (show 0 ≤ x' - x by omega)
          linarith
        _ = x' * (r' + (x' - x)) := by ring
        _ ≤ x' * r := mul_le_mul_of_nonpos_left (by omega) hneg'
    · exact (mul_neg_of_neg_of_pos hneg hr').le.trans (mul_pos hpos' hr).le

theorem exists_priceAt (hc : curve.Regular) (s : Int) : ∃ p, curve.priceAt s = .ok p := by
  cases curve with
  | power m n c =>
      obtain ⟨n, rfl⟩ := Int.eq_ofNat_of_zero_le hc.2.1
      exact ⟨_, priceAt_power m n c s⟩
  | sigmoid a b c =>
      obtain ⟨r, hr, -⟩ := sigmoidRoot_spec (b := b) hc.2.2 s
      exact ⟨_, priceAt_sigmoid hc.2.2 hr⟩
  | augmented kappa v0 =>
      obtain ⟨k, rfl⟩ : ∃ k : Nat, kappa = k + 1 := ⟨(kappa - 1).toNat, by have := hc.1; omega⟩
      exact ⟨_, priceAt_augmented k hc.2.ne' s⟩

theorem priceAt_mono (hc : curve.Regular) (hs : 0 ≤ s) (hle : s ≤ s') {p p' : Dec}
    (h : curve.priceAt s = .ok p) (h' : curve.priceAt s' = .ok p') : p.raw ≤ p'.raw := by
  cases curve with
  | power m n c =>
      obtain ⟨hm, hn, -⟩ := hc
      obtain ⟨n, rfl⟩ := Int.eq_ofNat_of_zero_le hn
      rw [priceAt_power] at h h'
      cases h
      cases h'
      have hpow := mul_le_mul_of_nonneg_left (pow_le_pow_left₀ hs hle n) hm
      exact add_le_add_left hpow c.raw
  | sigmoid a b c =>
      obtain ⟨ha, -, hc⟩ := hc
      obtain ⟨r, hr, hnear, hpos⟩ := sigmoidRoot_spec (b := b) hc s
      obtain ⟨r', hr', hnear', hpos'⟩ := sigmoidRoot_spec (b := b) hc s'
      rw [priceAt_sigmoid hc hr] at h
      rw [priceAt_sigmoid hc hr'] at h'
      cases h
      cases h'
      have hbase := mul_le_mul_of_nonneg_right hle Dec.scale_pos.le
      obtain ⟨hfalls, hrises⟩ := sigmoidRoot_le_and_le hc hle hr hr'
      -- The quotients are compared as products, before they are rounded.
      have hslope := slope_le hpos hpos' (hnear.abs_le (square_lt_sigmoidRadicand hc s))
        (hnear'.abs_le (square_lt_sigmoidRadicand hc s')) (by omega) (by omega) (by omega)
      have hquotient : roundHalfEven ((s * Dec.scale - b.raw) * Dec.scale) r.raw ≤
          roundHalfEven ((s' * Dec.scale - b.raw) * Dec.scale) r'.raw := by
        refine roundHalfEven_le_of_cross hpos hpos' ?_
        have := mul_le_mul_of_nonneg_right hslope Dec.scale_pos.le
        linarith
      rw [Dec.raw_mul, Dec.raw_mul]
      refine roundHalfEven_mono Dec.scale_pos (mul_le_mul_of_nonneg_left ?_ ha)
      rw [Dec.raw_add, Dec.raw_add]
      exact add_le_add_left hquotient Dec.one.raw
  | augmented kappa v0 =>
      obtain ⟨hk, hv⟩ := hc
      obtain ⟨k, rfl⟩ : ∃ k : Nat, kappa = k + 1 := ⟨(kappa - 1).toNat, by omega⟩
      rw [priceAt_augmented k hv.ne'] at h h'
      cases h
      cases h'
      have hscale := Dec.scale_pos.le
      refine roundHalfEven_mono hv ?_
      gcongr

theorem exists_reserveAt_of_regular (hc : curve.Regular) (s : Int) :
    ∃ r, curve.reserveAt s = .ok r := by
  obtain ⟨p, hp⟩ := exists_priceAt hc 0
  exact exists_reserveAt hc.proper hp s

theorem reserveAt_mono_of_regular (hc : curve.Regular) (hs : 0 ≤ s) (hle : s ≤ s') {r r' : Dec}
    (h : curve.reserveAt s = .ok r) (h' : curve.reserveAt s' = .ok r') : r.raw ≤ r'.raw := by
  cases curve with
  | power m n c => exact reserveAt_mono hc.proper trivial hs hle h h'
  | sigmoid a b c => exact reserveAt_mono hc.proper trivial hs hle h h'
  | augmented kappa v0 =>
      obtain ⟨hk, hv⟩ := hc
      obtain ⟨k, rfl⟩ := Int.eq_ofNat_of_zero_le (show 0 ≤ kappa by omega)
      rw [reserveAt_augmented k hv.ne'] at h h'
      cases h
      cases h'
      have hscale := Dec.scale_pos.le
      refine roundHalfEven_mono hv ?_
      gcongr

theorem exists_reserve_sub (hc : curve.Regular) (hs : 0 ≤ s) (hle : s ≤ s') :
    ∃ r r', curve.reserveAt s = .ok r ∧ curve.reserveAt s' = .ok r' ∧ 0 ≤ (r' - r).raw := by
  obtain ⟨r, hr⟩ := exists_reserveAt_of_regular hc s
  obtain ⟨r', hr'⟩ := exists_reserveAt_of_regular hc s'
  refine ⟨r, r', hr, hr', ?_⟩
  rw [Dec.raw_sub, sub_nonneg]
  exact reserveAt_mono_of_regular hc hs hle hr hr'

/-- What minting costs is what the reserve gains, also where nothing is minted. -/
theorem mintCost_eq {amount supply : Int} (ha : 0 ≤ amount) (hs : 0 ≤ supply) {r r' : Dec}
    (hr : curve.reserveAt supply = .ok r) (hr' : curve.reserveAt (supply + amount) = .ok r') :
    curve.mintCost amount supply = .ok (r' - r) := by
  have hguard : ¬ (amount < 0 ∨ supply < 0) := by omega
  by_cases hzero : amount = 0
  · subst hzero
    rw [add_zero] at hr'
    cases hr.symm.trans hr'
    rw [mintCost, if_neg hguard, if_pos rfl]
    exact congrArg Except.ok (Dec.ext (by simp))
  · simp only [mintCost, hguard, hzero, if_false, hr, hr', Result.ok_bind, Result.pure_eq_ok]

/-- Burning what was minted returns what minting it costs. -/
theorem burnReturn_add (curve : Curve) {amount supply : Int} (ha : 0 ≤ amount) (hs : 0 ≤ supply) :
    curve.burnReturn amount (supply + amount) = curve.mintCost amount supply := by
  have hguard : ¬ (amount < 0 ∨ supply < 0) := by omega
  have hcovered : ¬ (supply + amount < amount) := by omega
  rw [burnReturn, if_neg (not_lt.2 ha), if_neg hcovered, mintCost, if_neg hguard,
    add_sub_cancel_right]

theorem mintCost_nonneg (hc : curve.Regular) {amount supply : Int} (ha : 0 ≤ amount)
    (hs : 0 ≤ supply) : ∃ d, curve.mintCost amount supply = .ok d ∧ 0 ≤ d.raw := by
  obtain ⟨r, r', hr, hr', hle⟩ :=
    exists_reserve_sub hc hs (show supply ≤ supply + amount by omega)
  exact ⟨r' - r, mintCost_eq ha hs hr hr', hle⟩

theorem burnReturn_nonneg (hc : curve.Regular) {amount supply : Int} (ha : 0 ≤ amount)
    (hs : amount ≤ supply) : ∃ d, curve.burnReturn amount supply = .ok d ∧ 0 ≤ d.raw := by
  have hback := burnReturn_add curve ha (sub_nonneg.2 hs)
  rw [sub_add_cancel] at hback
  rw [hback]
  exact mintCost_nonneg hc ha (sub_nonneg.2 hs)

/-- A curve with parameters in their range has a price and a reserve at every supply, and neither
of the rounded values falls as the supply grows. So what minting costs and what burning returns,
wherever they are defined, are not negative. -/
theorem rounded_values_mono (hc : curve.Regular) :
    (∀ s s', 0 ≤ s → s ≤ s' → ∃ p p' r r', curve.priceAt s = .ok p ∧ curve.priceAt s' = .ok p' ∧
      p.raw ≤ p'.raw ∧ curve.reserveAt s = .ok r ∧ curve.reserveAt s' = .ok r' ∧
        r.raw ≤ r'.raw) ∧
    (∀ amount supply, 0 ≤ amount → 0 ≤ supply →
      ∃ d, curve.mintCost amount supply = .ok d ∧ 0 ≤ d.raw) ∧
    ∀ amount supply, 0 ≤ amount → amount ≤ supply →
      ∃ d, curve.burnReturn amount supply = .ok d ∧ 0 ≤ d.raw := by
  refine ⟨fun s s' hs hle => ?_, fun _ _ ha hs => mintCost_nonneg hc ha hs,
    fun _ _ ha hs => burnReturn_nonneg hc ha hs⟩
  obtain ⟨p, hp⟩ := exists_priceAt hc s
  obtain ⟨p', hp'⟩ := exists_priceAt hc s'
  obtain ⟨r, hr⟩ := exists_reserveAt_of_regular hc s
  obtain ⟨r', hr'⟩ := exists_reserveAt_of_regular hc s'
  exact ⟨p, p', r, r', hp, hp', priceAt_mono hc hs hle hp hp', hr, hr',
    reserveAt_mono_of_regular hc hs hle hr hr'⟩

theorem sigmoid_values_mono :
    ∃ curve : Curve, curve = .sigmoid (.ofInt 3) (.ofInt 5) ⟨7⟩ ∧ curve.Regular ∧
      (∃ p p' r r', curve.priceAt 4 = .ok p ∧ curve.priceAt 6 = .ok p' ∧ p.raw ≤ p'.raw ∧
        curve.reserveAt 4 = .ok r ∧ curve.reserveAt 6 = .ok r' ∧ r.raw ≤ r'.raw) ∧
      (∃ d, curve.mintCost 2 4 = .ok d ∧ 0 ≤ d.raw) ∧
        ∃ d, curve.burnReturn 2 6 = .ok d ∧ 0 ≤ d.raw := by
  have hc : (sigmoid (.ofInt 3) (.ofInt 5) ⟨7⟩).Regular :=
    ⟨by decide, by decide, by decide⟩
  obtain ⟨hvalues, hmint, hburn⟩ := rounded_values_mono hc
  exact ⟨_, rfl, hc, hvalues 4 6 (by decide) (by decide), hmint 2 4 (by decide) (by decide),
    hburn 2 6 (by decide) (by decide)⟩

end Curve
end BondMarket
