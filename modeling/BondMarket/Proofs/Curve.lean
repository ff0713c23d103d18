import BondMarket.Curve.Basic
import BondMarket.Proofs.Action
import BondMarket.Proofs.SquareRoot

/-!
Curves in rounded arithmetic. A curve with parameters in their range has prices that are not
negative, and wherever it has a price it has a reserve. The reserve of a power or a sigmoid curve
starts at zero and does not fall as the supply grows, on the rounded values themselves.
-/

namespace BondMarket

namespace Dec

theorem ofInt_mul (a b : Int) : ofInt a * ofInt b = ofInt (a * b) := by
  refine ext ?_
  rw [raw_mul_ofInt, raw_ofInt, raw_ofInt]
  ring

theorem power_ofInt (s : Int) (n : Nat) : (ofInt s).power n = ofInt (s ^ n) := by
  -- The loop holds the invariant that the accumulator times the remaining power is the result.
  have loop : ∀ fuel n, n ≤ fuel → ∀ acc base : Int,
      powerLoop fuel (ofInt acc) (ofInt base) n = ofInt (acc * base ^ n) := by
    intro fuel
    induction fuel with
    | zero =>
        intro n hn acc base
        obtain rfl : n = 0 := by omega
        simp [powerLoop]
    | succ fuel ih =>
        intro n hn acc base
        by_cases h0 : n = 0
        · simp [powerLoop, h0]
        · have hsplit : base ^ n = (base * base) ^ (n / 2) * base ^ (n % 2) := by
            rw [← pow_two, ← pow_mul, ← pow_add, Nat.div_add_mod]
          obtain hodd | heven : n % 2 = 1 ∨ n % 2 = 0 := by omega
          · have hif : (if n % 2 = 1 then ofInt acc * ofInt base else ofInt acc) =
                ofInt (acc * base) := by rw [if_pos hodd, ofInt_mul]
            rw [powerLoop, if_neg h0, hif, ofInt_mul, ih _ (by omega), hsplit, hodd]
            congr 1
            ring
          · have hif : (if n % 2 = 1 then ofInt acc * ofInt base else ofInt acc) =
                ofInt acc := by rw [if_neg (by omega)]
            rw [powerLoop, if_neg h0, hif, ofInt_mul, ih _ (by omega), hsplit, heven, pow_zero,
              mul_one]
  have hone : one = ofInt 1 := ext (by simp)
  rw [power, hone, loop n n le_rfl, one_mul]

theorem raw_ofInt_nonneg {n : Int} (h : 0 ≤ n) : 0 ≤ (ofInt n).raw :=
  Int.mul_nonneg h scale_pos.le

end Dec

namespace Curve

def Proper : Curve → Prop
  | power m n c => 0 ≤ m.raw ∧ 0 ≤ n ∧ 0 ≤ c.raw
  | sigmoid a b c => 0 ≤ a.raw ∧ 0 ≤ b.raw ∧ 0 < c.raw
  | augmented kappa v0 => 0 < kappa ∧ 0 ≤ v0.raw

/-- Curves whose reserve is an integral from nothing, evaluated without a division that can
fail. -/
def IsIntegral : Curve → Prop
  | power _ _ _ | sigmoid _ _ _ => True
  | augmented _ _ => False

section Sigmoid

variable {b c : Dec} {s : Int}

/-- The number below the root of a sigmoid curve. -/
def sigmoidRadicand (b c : Dec) (s : Int) : Dec := (Dec.ofInt s - b) * (Dec.ofInt s - b) + c

theorem raw_sigmoidRadicand (b c : Dec) (s : Int) : (sigmoidRadicand b c s).raw =
    roundHalfEven ((s * Dec.scale - b.raw) * (s * Dec.scale - b.raw)) Dec.scale + c.raw := rfl

/-- The constant of the curve outweighs what rounding takes from the square. -/
theorem square_lt_sigmoidRadicand (hc : 0 < c.raw) (s : Int) :
    (s * Dec.scale - b.raw) * (s * Dec.scale - b.raw) <
      (sigmoidRadicand b c s).raw * Dec.scale := by
  have hround := (roundHalfEven_bounds Dec.scale_pos
    ((s * Dec.scale - b.raw) * (s * Dec.scale - b.raw))).1
  have hconst : Dec.scale ≤ c.raw * Dec.scale :=
    le_mul_of_one_le_left Dec.scale_pos.le (by omega)
  have hscale := Dec.scale_pos
  rw [raw_sigmoidRadicand, add_mul]
  omega

theorem sigmoidRadicand_nonneg (hc : 0 < c.raw) (s : Int) :
    0 ≤ (sigmoidRadicand b c s).raw := by
  have := roundHalfEven_nonneg Dec.scale_pos (mul_self_nonneg (s * Dec.scale - b.raw))
  rw [raw_sigmoidRadicand]
  omega

theorem sigmoidRoot_spec (hc : 0 < c.raw) (s : Int) :
    ∃ r, (sigmoidRadicand b c s).approxSqrt = .ok r ∧
      NearestRoot r.raw ((sigmoidRadicand b c s).raw * Dec.scale) ∧ 0 < r.raw := by
  obtain ⟨r, hr, hnear⟩ := Dec.approxSqrt_spec (sigmoidRadicand_nonneg (b := b) hc s)
  have hlt := square_lt_sigmoidRadicand (b := b) hc s
  refine ⟨r, hr, hnear, ?_⟩
  by_contra hpos
  obtain ⟨hnonneg, hle, -⟩ := hnear
  have hzero : r.raw = 0 := by omega
  rw [hzero] at hle
  have := mul_self_nonneg (s * Dec.scale - b.raw)
  omega

/-- The rounded quotient of the distance by its root is between minus one and one. -/
theorem sigmoidSlope_bounds (hc : 0 < c.raw) {r : Dec}
    (hr : (sigmoidRadicand b c s).approxSqrt = .ok r) :
    -Dec.scale ≤ roundHalfEven ((s * Dec.scale - b.raw) * Dec.scale) r.raw ∧
      roundHalfEven ((s * Dec.scale - b.raw) * Dec.scale) r.raw ≤ Dec.scale := by
  obtain ⟨q, hq, hnear, hpos⟩ := sigmoidRoot_spec (b := b) hc s
  cases hr.symm.trans hq
  obtain ⟨hlow, hhigh⟩ := hnear.abs_le (square_lt_sigmoidRadicand hc s)
  constructor
  · apply le_roundHalfEven_of_mul_le hpos
    have := mul_le_mul_of_nonneg_right hlow Dec.scale_pos.le
    linarith
  · apply roundHalfEven_le_of_le_mul hpos
    have := mul_le_mul_of_nonneg_right hhigh Dec.scale_pos.le
    linarith

/-- The radicand one step of the supply further on: rounding the square commutes with it. -/
theorem raw_sigmoidRadicand_add (b c : Dec) (s : Int) (k : Nat) :
    (sigmoidRadicand b c (s + k)).raw = (sigmoidRadicand b c s).raw +
      k * (2 * (s * Dec.scale - b.raw) + k * Dec.scale) := by
  set x := s * Dec.scale - b.raw with hx
  have hsquare : ((s + k) * Dec.scale - b.raw) * ((s + k) * Dec.scale - b.raw) =
      x * x + (k * (2 * x + k * Dec.scale)) * Dec.scale := by
    rw [hx]
    ring
  -- Half-even rounding commutes only with adding an even number, which the scale makes of it.
  have heven : (k * (2 * x + k * Dec.scale)) % 2 = 0 := by
    have hscale : Dec.scale = 2 * 500000000000000000 := by decide
    have : k * (2 * x + k * Dec.scale) = 2 * (k * (x + k * 500000000000000000)) := by
      rw [hscale]
      ring
    omega
  rw [raw_sigmoidRadicand, raw_sigmoidRadicand, hsquare,
    roundHalfEven_add_even Dec.scale_pos (mul_self_nonneg x) heven
      (hsquare ▸ mul_self_nonneg ((s + k) * Dec.scale - b.raw))]
  ring

/-- Between two supplies the root changes by at most as much as the supply does, in either
direction. -/
theorem sigmoidRoot_le_and_le (hc : 0 < c.raw) {s' : Int} (h : s ≤ s') {r r' : Dec}
    (hr : (sigmoidRadicand b c s).approxSqrt = .ok r)
    (hr' : (sigmoidRadicand b c s').approxSqrt = .ok r') :
    r.raw + s * Dec.scale ≤ r'.raw + s' * Dec.scale ∧
      r'.raw - s' * Dec.scale ≤ r.raw - s * Dec.scale := by
  obtain ⟨k, rfl⟩ : ∃ k : Nat, s' = s + k := ⟨(s' - s).toNat, by omega⟩
  obtain ⟨q, hq, hnear, -⟩ := sigmoidRoot_spec (b := b) hc s
  obtain ⟨q', hq', hnear', -⟩ := sigmoidRoot_spec (b := b) hc (s + k)
  cases hr.symm.trans hq
  cases hr'.symm.trans hq'
  -- At the same supply the two roots are one; the step between two supplies has to be positive.
  rcases Nat.eq_zero_or_pos k with rfl | hk
  · rw [Nat.cast_zero, add_zero] at hq' ⊢
    cases hq.symm.trans hq'
    exact ⟨le_rfl, le_rfl⟩
  · have hpos : 0 < k * Dec.scale := mul_pos (Int.natCast_pos.2 hk) Dec.scale_pos
    have hradicand : (sigmoidRadicand b c (s + k)).raw * Dec.scale =
        (sigmoidRadicand b c s).raw * Dec.scale +
          2 * (s * Dec.scale - b.raw) * (k * Dec.scale) + k * Dec.scale * (k * Dec.scale) := by
      rw [raw_sigmoidRadicand_add]
      ring
    have hbase : s * Dec.scale - b.raw + k * Dec.scale = (s + k) * Dec.scale - b.raw := by ring
    have hfalls := hnear.le_add hnear' hpos (square_lt_sigmoidRadicand hc s) hradicand
    have hrises := hnear.add_le hnear' hpos (hbase ▸ square_lt_sigmoidRadicand hc (s + k))
      hradicand
    rw [add_mul]
    omega

end Sigmoid

variable {curve : Curve} {s s' : Int}

theorem priceAt_power (m : Dec) (n : Nat) (c : Dec) (s : Int) :
    (power m n c).priceAt s = .ok ⟨m.raw * s ^ n + c.raw⟩ := by
  simp only [priceAt, Dec.powerInt_natCast, Dec.power_ofInt, Result.ok_bind, Result.pure_eq_ok]
  refine congrArg Except.ok (Dec.ext ?_)
  rw [Dec.raw_add, Dec.raw_mul_ofInt]

theorem priceAt_sigmoid {a b c : Dec} (hc : 0 < c.raw) {s : Int} {r : Dec}
    (hr : (sigmoidRadicand b c s).approxSqrt = .ok r) :
    (sigmoid a b c).priceAt s =
      .ok (a * (⟨roundHalfEven ((s * Dec.scale - b.raw) * Dec.scale) r.raw⟩ + Dec.one)) := by
  obtain ⟨q, hq, -, hpos⟩ := sigmoidRoot_spec (b := b) hc s
  cases hr.symm.trans hq
  unfold sigmoidRadicand at hr
  simp only [priceAt, hr, Result.ok_bind, Dec.div_of_ne_zero hpos.ne', Result.pure_eq_ok,
    Dec.raw_sub, Dec.raw_ofInt]

theorem priceAt_augmented (k : Nat) {v0 : Dec} (hv0 : v0.raw ≠ 0) (s : Int) :
    (augmented (k + 1) v0).priceAt s =
      .ok ⟨roundHalfEven (s ^ k * Dec.scale * (k + 1) * Dec.scale) v0.raw⟩ := by
  simp only [priceAt, add_sub_cancel_right, Dec.powerInt_natCast, Dec.power_ofInt,
    Result.ok_bind]
  exact Dec.div_of_ne_zero hv0

theorem priceAt_nonneg (hc : curve.Proper) (hs : 0 ≤ s) {p : Dec}
    (h : curve.priceAt s = .ok p) : 0 ≤ p.raw := by
  cases curve with
  | power m n c =>
      obtain ⟨hm, hn, hc⟩ := hc
      obtain ⟨n, rfl⟩ := Int.eq_ofNat_of_zero_le hn
      rw [priceAt_power] at h
      cases h
      exact add_nonneg (mul_nonneg hm (pow_nonneg hs n)) hc
  | sigmoid a b c =>
      obtain ⟨ha, hb, hc⟩ := hc
      obtain ⟨r, hr, -⟩ := sigmoidRoot_spec (b := b) hc s
      have hslope := (sigmoidSlope_bounds hc hr).1
      rw [priceAt_sigmoid hc hr] at h
      cases h
      refine Dec.raw_mul_nonneg ha ?_
      rw [Dec.raw_add, Dec.raw_one]
      dsimp only
      omega
  | augmented kappa v0 =>
      obtain ⟨hk, hv⟩ := hc
      obtain ⟨k, rfl⟩ : ∃ k : Nat, kappa = k + 1 := ⟨(kappa - 1).toNat, by omega⟩
      by_cases hne : v0.raw = 0
      · simp [priceAt, Dec.powerInt_natCast, Dec.div, hne, Fault.fail] at h
      · rw [priceAt_augmented k hne] at h
        cases h
        have hpow := mul_nonneg (pow_nonneg hs k) Dec.scale_pos.le
        exact roundHalfEven_nonneg (by omega)
          (mul_nonneg (mul_nonneg hpow hk.le) Dec.scale_pos.le)

theorem reserveAt_power (m : Dec) (n : Nat) (c : Dec) (s : Int) :
    (power m n c).reserveAt s =
      .ok ⟨roundHalfEven (m.raw * s ^ (n + 1)) (n + 1) + c.raw * s⟩ := by
  have hcast : (n : Int) + 1 = ((n + 1 : Nat) : Int) := by push_cast; rfl
  simp only [reserveAt, hcast, Dec.powerInt_natCast, Dec.power_ofInt, Result.ok_bind]
  rw [Dec.divInt_of_ne_zero (by omega)]
  refine congrArg Except.ok (Dec.ext ?_)
  rw [Dec.raw_add, Dec.raw_mul_ofInt, Dec.raw_mul_ofInt]

theorem reserveAt_sigmoid {a b c : Dec} (hc : 0 < c.raw) (s : Int) :
    ∃ r r₀ : Dec, (sigmoidRadicand b c s).approxSqrt = .ok r ∧
      (sigmoidRadicand b c 0).approxSqrt = .ok r₀ ∧
      (sigmoid a b c).reserveAt s = .ok (a * (r - r₀ + Dec.ofInt s)) := by
  obtain ⟨r, hr, -⟩ := sigmoidRoot_spec (b := b) hc s
  obtain ⟨r₀, hr₀, -⟩ := sigmoidRoot_spec (b := b) hc 0
  have hzero : b * b + c = sigmoidRadicand b c 0 := by
    refine Dec.ext ?_
    rw [raw_sigmoidRadicand, Dec.raw_add, Dec.raw_mul]
    congr 2
    ring
  have hr₀' : (b * b + c).approxSqrt = .ok r₀ := hzero ▸ hr₀
  refine ⟨r, r₀, hr, hr₀, ?_⟩
  unfold sigmoidRadicand at hr
  simp only [reserveAt, hr, hr₀', Result.ok_bind, Result.pure_eq_ok]

/-- Dividing the power of the supply is the only rounding of an augmented curve. -/
theorem reserveAt_augmented (kappa : Nat) {v0 : Dec} (hv0 : v0.raw ≠ 0) (s : Int) :
    (augmented kappa v0).reserveAt s =
      .ok ⟨roundHalfEven (s ^ kappa * Dec.scale * Dec.scale) v0.raw⟩ := by
  simp only [reserveAt, Dec.powerInt_natCast, Dec.power_ofInt, Result.ok_bind]
  rw [Dec.div_of_ne_zero hv0, Dec.raw_ofInt]

theorem exists_reserveAt_of_integral (hc : curve.Proper) (hi : curve.IsIntegral) (s : Int) :
    ∃ r, curve.reserveAt s = .ok r := by
  cases curve with
  | power m n c =>
      obtain ⟨n, rfl⟩ := Int.eq_ofNat_of_zero_le hc.2.1
      exact ⟨_, reserveAt_power m n c s⟩
  | sigmoid a b c =>
      obtain ⟨r, r₀, -, -, hok⟩ := reserveAt_sigmoid (a := a) (b := b) hc.2.2 s
      exact ⟨_, hok⟩
  | augmented kappa v0 => exact hi.elim

theorem exists_reserveAt (hc : curve.Proper) {p : Dec} (h : curve.priceAt s = .ok p) (s' : Int) :
    ∃ r, curve.reserveAt s' = .ok r := by
  cases curve with
  | power m n c => exact exists_reserveAt_of_integral hc trivial s'
  | sigmoid a b c => exact exists_reserveAt_of_integral hc trivial s'
  | augmented kappa v0 =>
      have hne : v0.raw ≠ 0 := by
        intro hzero
        simp only [priceAt, Dec.div, hzero, if_true] at h
        cases hp : (Dec.ofInt s).powerInt (kappa - 1) <;> simp [hp, Fault.fail] at h
      obtain ⟨k, rfl⟩ := Int.eq_ofNat_of_zero_le hc.1.le
      simp only [reserveAt, Dec.powerInt_natCast, Result.ok_bind]
      exact ⟨_, Dec.div_of_ne_zero hne⟩

theorem reserveAt_mono (hc : curve.Proper) (hi : curve.IsIntegral) (hs : 0 ≤ s) (hle : s ≤ s')
    {r r' : Dec} (h : curve.reserveAt s = .ok r) (h' : curve.reserveAt s' = .ok r') :
    r.raw ≤ r'.raw := by
  cases curve with
  | power m n c =>
      obtain ⟨hm, hn, hc⟩ := hc
      obtain ⟨n, rfl⟩ := Int.eq_ofNat_of_zero_le hn
      rw [reserveAt_power] at h h'
      cases h
      cases h'
      have hpow : m.raw * s ^ (n + 1) ≤ m.raw * s' ^ (n + 1) :=
        mul_le_mul_of_nonneg_left (pow_le_pow_left₀ hs hle _) hm
      have hden : (0 : Int) < n + 1 := by omega
      have hfirst := roundHalfEven_mono hden hpow
      have hsecond := mul_le_mul_of_nonneg_left hle hc
      show _ + _ ≤ _ + _
      omega
  | sigmoid a b c =>
      obtain ⟨q, q₀, hq, hq₀, hok⟩ := reserveAt_sigmoid (a := a) (b := b) hc.2.2 s
      obtain ⟨q', q₀', hq', hq₀', hok'⟩ := reserveAt_sigmoid (a := a) (b := b) hc.2.2 s'
      cases h.symm.trans hok
      cases h'.symm.trans hok'
      cases hq₀.symm.trans hq₀'
      have hroot := (sigmoidRoot_le_and_le hc.2.2 hle hq hq').1
      rw [Dec.raw_mul, Dec.raw_mul]
      refine roundHalfEven_mono Dec.scale_pos (mul_le_mul_of_nonneg_left ?_ hc.1)
      simp only [Dec.raw_add, Dec.raw_sub, Dec.raw_ofInt]
      omega
  | augmented kappa v0 => exact hi.elim

theorem reserveAt_zero (hc : curve.Proper) (hi : curve.IsIntegral) :
    curve.reserveAt 0 = .ok Dec.zero := by
  cases curve with
  | power m n c =>
      obtain ⟨n, rfl⟩ := Int.eq_ofNat_of_zero_le hc.2.1
      rw [reserveAt_power]
      have hden : (0 : Int) < n + 1 := by omega
      refine congrArg Except.ok (Dec.ext ?_)
      simp [roundHalfEven_zero hden]
  | sigmoid a b c =>
      obtain ⟨r, r₀, hr, hr₀, hok⟩ := reserveAt_sigmoid (a := a) (b := b) hc.2.2 0
      cases hr.symm.trans hr₀
      rw [hok]
      refine congrArg Except.ok (Dec.ext ?_)
      simp [Dec.raw_mul, roundHalfEven_zero Dec.scale_pos]
  | augmented kappa v0 => exact hi.elim

theorem reserveAt_nonneg (hc : curve.Proper) (hs : 0 ≤ s) {r : Dec}
    (h : curve.reserveAt s = .ok r) : 0 ≤ r.raw := by
  cases curve with
  | power m n c =>
      exact Dec.raw_zero ▸ reserveAt_mono hc trivial le_rfl hs (reserveAt_zero hc trivial) h
  | sigmoid a b c =>
      exact Dec.raw_zero ▸ reserveAt_mono hc trivial le_rfl hs (reserveAt_zero hc trivial) h
  | augmented kappa v0 =>
      obtain ⟨k, rfl⟩ := Int.eq_ofNat_of_zero_le hc.1.le
      simp only [reserveAt, Dec.powerInt_natCast, Dec.power_ofInt, Result.ok_bind, Dec.div] at h
      split at h
      · cases h
      · cases h
        have hv : 0 < v0.raw := lt_of_le_of_ne hc.2 (Ne.symm ‹_›)
        exact roundHalfEven_nonneg hv
          (mul_nonneg (Dec.raw_ofInt_nonneg (pow_nonneg hs k)) Dec.scale_pos.le)

end Curve
end BondMarket
