import BondMarket.Proofs.Creation
import BondMarket.Proofs.Monotone

/-!
Bonds with parameters that pass the checks of their family, whatever the rest of their state is. The
constant that an augmented bond divides by is computed from its parameters and may come out as zero,
in which case the bond has no curve to price by; here it is positive.
-/

namespace BondMarket

/-- The parameters that a bond was created with pass the checks of its family, and the constant of
an augmented bond is positive. -/
structure Bond.Accepted (b : Bond) : Prop where
  parameters : b.functionType.validate b.creationParameters = .ok ()
  value : b.isAugmented = true → ∃ kappa v0, b.curve = .ok (.augmented kappa v0) ∧ 0 < v0.raw

theorem Curve.exponent_of_ofAugmented {ps : Params} {k v0 : Dec} {kappa : Int}
    (hk : ps.value "kappa" = .ok k) (h : ofAugmented ps = .ok (.augmented kappa v0)) :
    k.truncInt = kappa := by
  unfold ofAugmented at h
  split at h
  · simp only [hk, Result.ok_bind, Result.pure_eq_ok, Except.ok.injEq, augmented.injEq] at h
    exact h.1
  · simp only [hk, Result.bind_eq_ok, Result.ok_bind, Result.pure_eq_ok, Except.ok.injEq,
      augmented.injEq] at h
    obtain ⟨_, -, h, -⟩ := h
    exact h

namespace Bond

variable {b : Bond}

theorem value_creationParameters (b : Bond) (name : String)
    (hname : name ∉ HatchConstants.names) :
    b.creationParameters.value name = b.parameters.value name := by
  have hget : Table.get? b.creationParameters name = Table.get? b.parameters name :=
    Table.get?_filter_keys b.parameters (fun k => !HatchConstants.names.contains k)
      (by simpa using hname)
  rw [Params.value, Params.value, hget]

/-- The curve of a family other than the augmented one is made of the parameters of its creation
alone. -/
theorem curve_creationParameters (haugmented : b.isAugmented = false) :
    Curve.ofParams b.functionType b.creationParameters = b.curve := by
  have hvalue := b.value_creationParameters
  rw [curve]
  cases ht : b.functionType with
  | power =>
      simp only [Curve.ofParams, hvalue "m" (by decide),
        hvalue "n" (by decide), hvalue "c" (by decide)]
  | sigmoid =>
      simp only [Curve.ofParams, hvalue "a" (by decide),
        hvalue "b" (by decide), hvalue "c" (by decide)]
  | augmented => simp [isAugmented, ht] at haugmented
  | swapper => rfl

theorem Accepted.exists_regular (h : b.Accepted) (hswap : b.isSwapper = false) :
    ∃ c, b.curve = .ok c ∧ c.Regular := by
  have hvalid := h.parameters
  cases haugmented : b.isAugmented with
  | true =>
      obtain ⟨kappa, v0, hc, hv0⟩ := h.value haugmented
      have htype := isAugmented_iff.1 haugmented
      rw [htype] at hvalid
      obtain ⟨_, _, _, n, hparams⟩ := FunctionType.exists_hatchParams hvalid
      have hexponent := hparams.exponent
      rw [b.value_creationParameters "kappa" (by decide)] at hexponent
      have hmade : Curve.ofAugmented b.parameters = .ok (.augmented kappa v0) := by
        rwa [curve, htype] at hc
      have hkappa := Curve.exponent_of_ofAugmented hexponent hmade
      rw [Dec.truncInt_ofInt] at hkappa
      have hpos := hparams.exponent_pos
      exact ⟨_, hc, by omega, hv0⟩
  | false =>
      have hcurve := curve_creationParameters haugmented
      cases htype : b.functionType with
      | power =>
          obtain ⟨c, hc, hproper⟩ := Curve.exists_power (htype ▸ hvalid)
          rw [htype, hc] at hcurve
          exact ⟨c, hcurve.symm, hproper.regular (isIntegral_of_curve (.inl htype) hcurve.symm)⟩
      | sigmoid =>
          obtain ⟨c, hc, hproper⟩ := Curve.exists_sigmoid (htype ▸ hvalid)
          rw [htype, hc] at hcurve
          exact ⟨c, hcurve.symm, hproper.regular (isIntegral_of_curve (.inr htype) hcurve.symm)⟩
      | augmented => simp [isAugmented, htype] at haugmented
      | swapper => simp [isSwapper, htype] at hswap

theorem Accepted.priceable (h : b.Accepted) : b.Priceable where
  curve hswap := (h.exists_regular hswap).imp fun _ hc => ⟨hc.1, hc.2.proper⟩
  price haugmented := by
    have htype := isAugmented_iff.1 haugmented
    obtain ⟨p0, -, hp0, hnonneg⟩ :=
      FunctionType.value_of_validate (htype ▸ h.parameters) "p0" (by decide)
    rw [b.value_creationParameters "p0" (by decide)] at hp0
    exact ⟨p0, hp0, hnonneg⟩

/-- Every batch of an accepted bond clears, outside of a hatch. -/
theorem Accepted.exists_clearingPrices (h : b.Accepted) (reserve : Coins)
    (hopen : b.inHatch = false) (hpos : b.isSwapper = true → 0 < b.supply)
    {totalBuy totalSell : Int} (hb : 0 ≤ totalBuy) (hsell : 0 ≤ totalSell)
    (hle : totalSell ≤ b.supply) :
    ∃ p, b.clearingPrices reserve totalBuy totalSell = .ok p := by
  cases hswap : b.isSwapper with
  | true =>
      exact (exists_clearingPrices_pool reserve hswap (hpos hswap) hb hsell).imp fun _ hp => hp.1
  | false =>
      obtain ⟨c, hc, hregular⟩ := h.exists_regular hswap
      obtain ⟨price, hprice⟩ := Curve.exists_priceAt hregular b.supply
      exact exists_clearingPrices_curve reserve hswap hopen hc hprice
        (Curve.exists_reserveAt_of_regular hregular) hb hsell hle

end Bond
end BondMarket
