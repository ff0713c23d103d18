import BondMarket.Pool
import BondMarket.Proofs.Action
import BondMarket.Proofs.Rational
import Mathlib.Algebra.Order.Group.MinMax

/-!
The sanity band of a pool, as it is computed and as it is meant. The ratio of the reserves, the
margin as a part of one and the two ends of the band are each rounded once, so that the ends are
off by half a unit of the last place and by the rate times half a unit more, and the ratio is off by
half a unit. Pairs of reserves that are further from both ends are decided as the exact numbers
decide them. A wider margin only moves the ends apart.
-/

namespace BondMarket.Pool

variable {first second : Int} {rate margin wider : Dec}

/-! ### The band as it is computed -/

def ratio (first second : Int) : Dec := ⟨roundHalfEven (first * Dec.scale) second⟩

def bandWidth (margin : Dec) : Dec := ⟨roundHalfEven (margin.raw * Dec.scale) Dec.hundred.raw⟩

def bandLow (rate margin : Dec) : Dec := (rate * (Dec.one - bandWidth margin)).clamped

def bandHigh (rate margin : Dec) : Dec := rate * (Dec.one + bandWidth margin)

theorem exists_violatesRate (hrate : rate.raw ≠ 0) (hsecond : 0 < second) (first : Int)
    (margin : Dec) : ∃ violates, violatesRate first second rate margin = .ok violates ∧
      (violates = false ↔
        bandLow rate margin ≤ ratio first second ∧ ratio first second ≤ bandHigh rate margin) := by
  have hzero : rate.isZero = false := by simpa [Dec.isZero] using hrate
  have hhundred : Dec.hundred.raw ≠ 0 := by decide
  refine ⟨decide (ratio first second < bandLow rate margin) ||
    decide (bandHigh rate margin < ratio first second), ?_, ?_⟩
  · simp only [violatesRate, hzero, hsecond.ne', Bool.false_eq_true, if_false, Dec.ofRatio,
      Dec.div_of_ne_zero hhundred, Result.ok_bind, Result.pure_eq_ok]
    rfl
  · simp only [Bool.or_eq_false_iff, decide_eq_false_iff_not, Dec.lt_iff, Dec.le_iff, not_lt]

/-! ### Wider margins -/

theorem bandWidth_mono (h : margin ≤ wider) : bandWidth margin ≤ bandWidth wider :=
  roundHalfEven_mono (by decide) (mul_le_mul_of_nonneg_right h Dec.scale_pos.le)

theorem bandHigh_mono (hrate : 0 ≤ rate.raw) (h : margin ≤ wider) :
    bandHigh rate margin ≤ bandHigh rate wider :=
  roundHalfEven_mono Dec.scale_pos
    (mul_le_mul_of_nonneg_left (Int.add_le_add_left (bandWidth_mono h) _) hrate)

theorem bandLow_anti (hrate : 0 ≤ rate.raw) (h : margin ≤ wider) :
    bandLow rate wider ≤ bandLow rate margin := by
  rw [Dec.le_iff, bandLow, bandLow, Dec.raw_clamped, Dec.raw_clamped]
  refine max_le_max_right 0 (roundHalfEven_mono Dec.scale_pos ?_)
  exact mul_le_mul_of_nonneg_left (Int.sub_le_sub_left (bandWidth_mono h) _) hrate

/-! ### The exact band -/

def exactLow (rate margin : Dec) : ℚ := max 0 (rate.toRat * (1 - margin.toRat / 100))

def exactHigh (rate margin : Dec) : ℚ := rate.toRat * (1 + margin.toRat / 100)

/-- How far from an end a ratio may be decided differently: a unit of the last place, and half the
rate of it. -/
def bandTolerance (rate : Dec) : ℚ := (rate.toRat / 2 + 1) / 10 ^ 18

theorem bandTolerance_eq (rate : Dec) :
    bandTolerance rate = Dec.halfUnit + (Dec.halfUnit + rate.toRat * Dec.halfUnit) := by
  rw [bandTolerance, Dec.halfUnit, Dec.scale_cast]
  ring

theorem abs_ratio_sub_le (hsecond : 0 < second) (first : Int) :
    |(ratio first second).toRat - first / second| ≤ Dec.halfUnit := by
  refine Dec.abs_toRat_sub_le hsecond ?_
  rw [Int.cast_mul]
  ring

theorem abs_bandWidth_sub_le (margin : Dec) :
    |(bandWidth margin).toRat - margin.toRat / 100| ≤ Dec.halfUnit := by
  have hscale := Dec.scale_cast_pos
  refine Dec.abs_toRat_sub_le (by decide) ?_
  rw [Dec.hundred, Dec.raw_ofInt, Dec.toRat]
  push_cast
  field_simp

/-- A factor that is off by half a unit makes the product be off by as much of the rate, before it
is rounded itself. -/
theorem abs_mul_sub_le (hrate : 0 ≤ rate.raw) {factor : Dec} {exact : ℚ}
    (h : |factor.toRat - exact| ≤ Dec.halfUnit) :
    |(rate * factor).toRat - rate.toRat * exact| ≤ Dec.halfUnit + rate.toRat * Dec.halfUnit := by
  have hnonneg := Dec.toRat_nonneg hrate
  have hfactor : |rate.toRat * factor.toRat - rate.toRat * exact| ≤ rate.toRat * Dec.halfUnit := by
    rw [← mul_sub, abs_mul, abs_of_nonneg hnonneg]
    exact mul_le_mul_of_nonneg_left h hnonneg
  exact (abs_sub_le _ (rate.toRat * factor.toRat) _).trans
    (add_le_add (Dec.abs_toRat_mul_sub_le rate factor) hfactor)

theorem abs_bandHigh_sub_le (hrate : 0 ≤ rate.raw) (margin : Dec) :
    |(bandHigh rate margin).toRat - exactHigh rate margin| ≤
      Dec.halfUnit + rate.toRat * Dec.halfUnit := by
  refine abs_mul_sub_le hrate ?_
  rw [Dec.toRat_add, Dec.toRat_one, add_sub_add_left_eq_sub]
  exact abs_bandWidth_sub_le margin

/-- Cutting at zero does not add to the error. -/
theorem abs_bandLow_sub_le (hrate : 0 ≤ rate.raw) (margin : Dec) :
    |(bandLow rate margin).toRat - exactLow rate margin| ≤
      Dec.halfUnit + rate.toRat * Dec.halfUnit := by
  rw [bandLow, Dec.toRat_clamped, exactLow, max_comm 0, max_comm 0]
  refine (abs_max_sub_max_le_abs _ _ _).trans (abs_mul_sub_le hrate ?_)
  rw [Dec.toRat_sub, Dec.toRat_one, sub_sub_sub_cancel_left, abs_sub_comm]
  exact abs_bandWidth_sub_le margin

/-- The check on the reserves of a pool decides the exact band up to the tolerance. At a positive
rate and with something of the second reserve it has an answer. Reserves that pass are in the band
or not further outside than the tolerance; reserves that are inside by more than the tolerance pass;
and reserves that pass keep passing when the margin is raised. -/
theorem reservesViolateRate_band (reserve : Coins) (d d' : Denom) (denoms : List Denom)
    (margin : Dec) (hrate : 0 < rate.raw) (hsecond : 0 < reserve.amountOf d') :
    ∃ violates, reservesViolateRate reserve (d :: d' :: denoms) rate margin = .ok violates ∧
      ∀ exact : ℚ, exact = reserve.amountOf d / reserve.amountOf d' →
        (violates = false → exactLow rate margin - bandTolerance rate ≤ exact ∧
          exact ≤ exactHigh rate margin + bandTolerance rate) ∧
        (exactLow rate margin + bandTolerance rate < exact →
          exact < exactHigh rate margin - bandTolerance rate → violates = false) ∧
        ∀ wider, margin ≤ wider → violates = false →
          reservesViolateRate reserve (d :: d' :: denoms) rate wider = .ok false := by
  obtain ⟨violates, hok, hpass⟩ := exists_violatesRate hrate.ne' hsecond (reserve.amountOf d) margin
  refine ⟨violates, hok, fun exact hexact => ?_⟩
  have htolerance := bandTolerance_eq rate
  obtain ⟨hratio, hratio'⟩ := abs_le.1 (abs_ratio_sub_le hsecond (reserve.amountOf d))
  obtain ⟨hlow, hlow'⟩ := abs_le.1 (abs_bandLow_sub_le hrate.le margin)
  obtain ⟨hhigh, hhigh'⟩ := abs_le.1 (abs_bandHigh_sub_le hrate.le margin)
  rw [← hexact] at hratio hratio'
  rw [hpass, ← Dec.toRat_le_iff, ← Dec.toRat_le_iff]
  refine ⟨fun h => ?_, fun hover hunder => ?_, fun wider hwider h => ?_⟩
  · constructor <;> linarith
  · constructor <;> linarith
  · obtain ⟨violates', hok', hpass'⟩ :=
      exists_violatesRate hrate.ne' hsecond (reserve.amountOf d) wider
    have hlower := Dec.toRat_le_iff.2 (bandLow_anti hrate.le hwider)
    have hupper := Dec.toRat_le_iff.2 (bandHigh_mono hrate.le hwider)
    rw [← Dec.toRat_le_iff, ← Dec.toRat_le_iff] at hpass'
    obtain rfl := hpass'.2 ⟨hlower.trans h.1, h.2.trans hupper⟩
    exact hok'

/-- One for three, where the rate is a third cut at the last place. Without a margin the exact band
is the rate alone, and the ratio, which is above it by a third of a unit, passes; with a margin of a
percent it is inside. -/
theorem reservesViolateRate_band_third :
    let reserve : Coins := [("res", 1), ("rez", 3)]
    let rate : Dec := ⟨333333333333333333⟩
    exactHigh rate Dec.zero < 1 / 3 ∧
      reservesViolateRate reserve ["res", "rez"] rate Dec.zero = .ok false ∧
      1 / 3 ≤ exactHigh rate Dec.zero + bandTolerance rate ∧
      exactLow rate Dec.one + bandTolerance rate < 1 / 3 ∧
      1 / 3 < exactHigh rate Dec.one - bandTolerance rate ∧
      reservesViolateRate reserve ["res", "rez"] rate Dec.one = .ok false ∧
      reservesViolateRate reserve ["res", "rez"] rate Dec.hundred = .ok false := by
  intro reserve rate
  have hrate : rate.toRat = 333333333333333333 / 10 ^ 18 := by
    rw [Dec.toRat, Dec.scale_cast]
    rfl
  have hzero : Dec.zero.toRat = 0 := by norm_num [Dec.toRat]
  have hexact : (1 / 3 : ℚ) = reserve.amountOf "res" / reserve.amountOf "rez" := by
    have hfirst : reserve.amountOf "res" = 1 := by decide
    have hsecond : reserve.amountOf "rez" = 3 := by decide
    rw [hfirst, hsecond]
    norm_num
  have hover : exactHigh rate Dec.zero < 1 / 3 := by norm_num [exactHigh, hrate, hzero]
  have hlow : exactLow rate Dec.one + bandTolerance rate < 1 / 3 := by
    norm_num [exactLow, bandTolerance, hrate]
  have hhigh : 1 / 3 < exactHigh rate Dec.one - bandTolerance rate := by
    norm_num [exactHigh, bandTolerance, hrate]
  have hpasses : reservesViolateRate reserve ["res", "rez"] rate Dec.zero = .ok false := by
    decide +kernel
  have hpos : 0 < rate.raw := by decide
  obtain ⟨violates, hok, hband⟩ :=
    reservesViolateRate_band reserve "res" "rez" [] Dec.zero hpos (by decide)
  obtain ⟨violates', hok', hband'⟩ :=
    reservesViolateRate_band reserve "res" "rez" [] Dec.one hpos (by decide)
  obtain rfl := Except.ok.inj (hpasses.symm.trans hok)
  obtain ⟨hbounds, -, -⟩ := hband _ hexact
  obtain ⟨-, hinside, hwider⟩ := hband' _ hexact
  have hfalse := hinside hlow hhigh
  exact ⟨hover, hpasses, (hbounds rfl).2, hlow, hhigh, hfalse ▸ hok',
    hwider Dec.hundred (by decide) hfalse⟩

end BondMarket.Pool
