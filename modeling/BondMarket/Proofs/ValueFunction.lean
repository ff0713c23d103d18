import BondMarket.Curve.ValueFunction
import BondMarket.Proofs.Creation
import BondMarket.Proofs.Descent

/-!
The value function of an augmented curve, in rounded arithmetic. Powers, nearest roots and
quotients by a positive number keep the order of what they are taken of, and so do their
roundings. So the reserve does not fall as the supply grows, nor the supply and the price as the
reserve grows, wherever the roots converge, and a deposit never mints less than nothing.
-/

namespace BondMarket

def Result.Converges {α : Type} (x : Result α) : Prop :=
  ∀ report, x ≠ .error (.noConvergence report)

theorem Result.converges_ok {α : Type} (a : α) : Converges (.ok a) := by
  intro report h
  cases h

theorem Result.Converges.of_bind {α β : Type} {x : Result α} {f : α → Result β}
    (h : Converges (x >>= f)) : Converges x := by
  rintro report rfl
  exact h report rfl

theorem Dec.exists_root_of_converges {d : Dec} (hd : 0 ≤ d.raw) {k : Int} (hk : 0 ≤ k) {steps : Int}
    (h : Result.Converges (d.approxRoot k steps)) : ∃ r, d.approxRoot k steps = .ok r := by
  obtain ⟨r, hr, -⟩ | ⟨report, hreport⟩ := approxRoot_outcomes hd hk steps
  · exact ⟨r, hr⟩
  · exact absurd hreport (h report)

theorem Dec.div_mono {a a' b : Dec} (hb : 0 < b.raw) (hle : a ≤ a') :
    ∃ q q', a.div b = .ok q ∧ a'.div b = .ok q' ∧ q ≤ q' :=
  ⟨_, _, div_of_ne_zero hb.ne', div_of_ne_zero hb.ne',
    roundHalfEven_mono hb (mul_le_mul_of_nonneg_right hle scale_pos.le)⟩

namespace ValueFunction

variable {kappa steps steps' : Int} {v0 x y : Dec}

theorem reserve_mono (hk : 0 ≤ kappa) (hv : 0 < v0.raw) (hx : 0 ≤ x.raw) (hle : x ≤ y) :
    ∃ r r', reserve x kappa v0 = .ok r ∧ reserve y kappa v0 = .ok r' ∧ r ≤ r' := by
  obtain ⟨k, rfl⟩ := Int.eq_ofNat_of_zero_le hk
  simp only [reserve, Dec.powerInt_natCast, Result.ok_bind]
  exact Dec.div_mono hv (Dec.power_mono hx hle k)

theorem supply_mono (hk : 1 ≤ kappa) (hv : 0 ≤ v0.raw) (hx : 0 ≤ x.raw) (hle : x ≤ y)
    (hc : Result.Converges (supply x kappa v0 steps))
    (hc' : Result.Converges (supply y kappa v0 steps')) :
    ∃ s s', supply x kappa v0 steps = .ok s ∧ supply y kappa v0 steps' = .ok s' ∧ s ≤ s' := by
  have hvalue : v0 * x ≤ v0 * y := Dec.mul_le_mul_of_nonneg hv hx (le_refl v0.raw) hle
  have hnonneg : 0 ≤ (v0 * x).raw := Dec.raw_mul_nonneg hv hx
  obtain ⟨s, hs⟩ := Dec.exists_root_of_converges hnonneg (by omega) hc
  obtain ⟨s', hs'⟩ := Dec.exists_root_of_converges (hnonneg.trans hvalue) (by omega) hc'
  exact ⟨s, s', hs, hs', Dec.approxRoot_mono hnonneg hvalue hk hs hs'⟩

/-- Where the price converges, both of its roots do, and the one that is divided by is positive. -/
theorem spotPrice_of_converges (hk : 1 ≤ kappa) (hv : 0 < v0.raw) (hx : 0 ≤ x.raw)
    (hc : Result.Converges (spotPrice x kappa v0 steps)) :
    ∃ n q : Dec, (x.power (kappa - 1).toNat).approxRoot kappa steps = .ok n ∧
      v0.approxRoot kappa steps = .ok q ∧ 0 < q.raw ∧
      spotPrice x kappa v0 steps = (n.times kappa).div q := by
  obtain ⟨k, hkk⟩ := Int.eq_ofNat_of_zero_le (show 0 ≤ kappa - 1 by omega)
  simp only [spotPrice, hkk, Dec.powerInt_natCast, Result.ok_bind, Int.toNat_natCast] at hc ⊢
  obtain ⟨n, hn⟩ :=
    Dec.exists_root_of_converges (Dec.power_nonneg hx k) (by omega) hc.of_bind
  simp only [hn, Result.ok_bind] at hc ⊢
  obtain ⟨q, hq⟩ := Dec.exists_root_of_converges hv.le (by omega) hc.of_bind
  simp only [hq, Result.ok_bind]
  exact ⟨n, q, rfl, rfl, Dec.approxRoot_pos hv hk hq, rfl⟩

theorem spotPrice_mono (hk : 1 ≤ kappa) (hv : 0 < v0.raw) (hx : 0 ≤ x.raw) (hle : x ≤ y)
    (hc : Result.Converges (spotPrice x kappa v0 steps))
    (hc' : Result.Converges (spotPrice y kappa v0 steps')) :
    ∃ p p', spotPrice x kappa v0 steps = .ok p ∧ spotPrice y kappa v0 steps' = .ok p' ∧ p ≤ p' := by
  have hpower := Dec.power_mono hx hle (kappa - 1).toNat
  obtain ⟨n, q, hn, hq, hpos, hprice⟩ := spotPrice_of_converges hk hv hx hc
  obtain ⟨n', q', hn', hq', -, hprice'⟩ := spotPrice_of_converges hk hv (hx.trans hle) hc'
  -- Both prices are divided by the same root, although it may have been found under other caps.
  obtain rfl : q = q' := Dec.ext (le_antisymm
    (Dec.approxRoot_mono hv.le (le_refl v0.raw) hk hq hq')
    (Dec.approxRoot_mono hv.le (le_refl v0.raw) hk hq' hq))
  have hroot := Dec.approxRoot_mono (Dec.power_nonneg hx _) hpower hk hn hn'
  have hdividend : n.times kappa ≤ n'.times kappa := by
    show n.raw * kappa ≤ n'.raw * kappa
    exact mul_le_mul_of_nonneg_right hroot (by omega)
  rw [hprice, hprice']
  exact Dec.div_mono hpos hdividend

/-- On top of the reserve that backs the supply, a deposit mints a positive amount, or else nothing,
which has no price. -/
theorem mint_outcomes (hk : 1 ≤ kappa) (hv : 0 ≤ v0.raw) {deposit before : Dec} (hx : 0 ≤ x.raw)
    (hd : 0 ≤ deposit.raw) (hbefore : supply x kappa v0 steps = .ok before)
    (hc : Result.Converges (mint deposit x before kappa v0 steps')) :
    mint deposit x before kappa v0 steps' = Fault.divisionByZero.fail ∨
      ∃ minted price, mint deposit x before kappa v0 steps' = .ok (minted, price) ∧
        0 < minted.raw := by
  have hgrown : x ≤ x + deposit := by
    show x.raw ≤ (x + deposit).raw
    rw [Dec.raw_add]
    omega
  have hconverges : Result.Converges (supply x kappa v0 steps) := by
    rw [hbefore]
    exact Result.converges_ok before
  obtain ⟨s, after, hs, hafter, hle⟩ := supply_mono hk hv hx hgrown hconverges hc.of_bind
  obtain rfl : before = s := Except.ok.inj (hbefore.symm.trans hs)
  have hminted : 0 ≤ (after - before).raw := sub_nonneg.2 hle
  simp only [mint, hafter, Result.ok_bind]
  obtain hnone | hsome := hminted.eq_or_lt
  · left
    rw [Dec.div, if_pos hnone.symm]
    rfl
  · right
    rw [Dec.div_of_ne_zero hsome.ne']
    exact ⟨_, _, rfl, hsome⟩

/-- The values of an augmented curve do not fall. A power does not fall as its base grows. For every
degree from the first on and every positive value that the curve keeps, the reserve does not fall as
the supply grows; and as the reserve grows, neither the supply nor the price falls, wherever both
evaluations converge, under whatever caps. So a deposit on top of the reserve that backs the supply
never mints a negative amount: what is minted is positive, as for nothing there is no price. -/
theorem values_nondecreasing (hk : 1 ≤ kappa) (hv : 0 < v0.raw) :
    (∀ (a b : Dec) (n : Nat), 0 ≤ a.raw → a ≤ b → a.power n ≤ b.power n) ∧
    (∀ s s' : Dec, 0 ≤ s.raw → s ≤ s' →
      ∃ r r', reserve s kappa v0 = .ok r ∧ reserve s' kappa v0 = .ok r' ∧ r ≤ r') ∧
    (∀ (r r' : Dec) (steps steps' : Int), 0 ≤ r.raw → r ≤ r' →
      (Result.Converges (supply r kappa v0 steps) → Result.Converges (supply r' kappa v0 steps') →
        ∃ s s', supply r kappa v0 steps = .ok s ∧ supply r' kappa v0 steps' = .ok s' ∧ s ≤ s') ∧
      (Result.Converges (spotPrice r kappa v0 steps) →
        Result.Converges (spotPrice r' kappa v0 steps') →
        ∃ p p', spotPrice r kappa v0 steps = .ok p ∧ spotPrice r' kappa v0 steps' = .ok p' ∧
          p ≤ p')) ∧
    ∀ (deposit r before : Dec) (steps steps' : Int), 0 ≤ deposit.raw → 0 ≤ r.raw →
      supply r kappa v0 steps = .ok before →
      Result.Converges (mint deposit r before kappa v0 steps') →
      mint deposit r before kappa v0 steps' = Fault.divisionByZero.fail ∨
        ∃ minted price, mint deposit r before kappa v0 steps' = .ok (minted, price) ∧
          0 < minted.raw := by
  refine ⟨fun a b n ha hle => Dec.power_mono ha hle n,
    fun s s' hs hle => reserve_mono (by omega) hv hs hle,
    fun r r' steps steps' hr hle => ⟨supply_mono hk hv.le hr hle, spotPrice_mono hk hv hr hle⟩,
    fun deposit r before steps steps' hd hr hbefore hc =>
      mint_outcomes hk hv.le hr hd hbefore hc⟩

theorem values_nondecreasing_cubic :
    ∃ s s' p p' r r' minted price, supply (.ofInt 4) 3 (.ofInt 2) Dec.rootSteps = .ok s ∧
      supply (.ofInt 5) 3 (.ofInt 2) Dec.rootSteps = .ok s' ∧ s ≤ s' ∧
      spotPrice (.ofInt 4) 3 (.ofInt 2) Dec.rootSteps = .ok p ∧
      spotPrice (.ofInt 5) 3 (.ofInt 2) Dec.rootSteps = .ok p' ∧ p ≤ p' ∧
      reserve s 3 (.ofInt 2) = .ok r ∧ reserve s' 3 (.ofInt 2) = .ok r' ∧ r ≤ r' ∧
      mint (.ofInt 1) (.ofInt 4) s 3 (.ofInt 2) Dec.rootSteps = .ok (minted, price) ∧
      0 < minted.raw ∧ s.power 2 ≤ s'.power 2 := by
  have hk : (1 : Int) ≤ 3 := by decide
  have hv : 0 < (Dec.ofInt 2).raw := by decide
  obtain ⟨hpower, hreserve, hvalues, hmint⟩ := values_nondecreasing hk hv
  have hs : supply (.ofInt 4) 3 (.ofInt 2) Dec.rootSteps = .ok ⟨2000000000000000000⟩ := by
    decide +kernel
  have hs' : supply (.ofInt 5) 3 (.ofInt 2) Dec.rootSteps = .ok ⟨2154434690031883722⟩ := by
    decide +kernel
  have hp : spotPrice (.ofInt 4) 3 (.ofInt 2) Dec.rootSteps = .ok ⟨6000000000000000000⟩ := by
    decide +kernel
  have hp' : spotPrice (.ofInt 5) 3 (.ofInt 2) Dec.rootSteps = .ok ⟨6962383250419168339⟩ := by
    decide +kernel
  have hm : mint (.ofInt 1) (.ofInt 4) ⟨2000000000000000000⟩ 3 (.ofInt 2) Dec.rootSteps =
      .ok (⟨154434690031883722⟩, ⟨6475229106838273158⟩) := by decide +kernel
  obtain ⟨hsupply, hprice⟩ :=
    hvalues (.ofInt 4) (.ofInt 5) Dec.rootSteps Dec.rootSteps (by decide) (by decide)
  obtain ⟨s, s', hsok, hsok', hsle⟩ :=
    hsupply (hs ▸ Result.converges_ok _) (hs' ▸ Result.converges_ok _)
  obtain ⟨p, p', hpok, hpok', hple⟩ :=
    hprice (hp ▸ Result.converges_ok _) (hp' ▸ Result.converges_ok _)
  cases hs.symm.trans hsok
  obtain ⟨r, r', hr, hr', hrle⟩ := hreserve ⟨2000000000000000000⟩ s' (by decide) hsle
  obtain hnone | ⟨minted, price, hmok, hpositive⟩ :=
    hmint (.ofInt 1) (.ofInt 4) _ Dec.rootSteps Dec.rootSteps (by decide) (by decide) hs
      (hm ▸ Result.converges_ok _)
  · cases hm.symm.trans hnone
  · exact ⟨_, s', p, p', r, r', minted, price, hs, hsok', hsle, hpok, hpok', hple, hr, hr', hrle,
      hmok, hpositive, hpower _ _ 2 (by decide) hsle⟩

end ValueFunction
end BondMarket
