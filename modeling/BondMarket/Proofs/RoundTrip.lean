import BondMarket.Proofs.Payout

/-!
What a buy followed by a sell of the same amount brings, where each is alone in its batch and the
sell finds the supply and the reserve that the buy has left. A curve pays out what its reserve has
beyond the curve at the supply before, so that no more can be gained than the surplus that was
there. A pool gives back the share that was put in. Beyond that there is only what the rounding of
the prices comes to.
-/

namespace BondMarket
namespace Bond

def loneBuy (b : Bond) (reserve : Coins) (amount : Int) : Result BuyCost := do
  b.buyCost amount (← b.clearingPrices reserve amount 0).buy

def loneSell (b : Bond) (reserve : Coins) (amount : Int) : Result SellProceeds := do
  b.sellProceeds amount (← b.clearingPrices reserve 0 amount).sell

def grown (b : Bond) (amount : Int) : Bond := { b with supply := b.supply + amount }

/-- A buy of an amount, and then a sell of it at the supply and the reserve that the buy leaves. -/
def roundTrip (b : Bond) (reserve : Coins) (amount : Int) : Result (BuyCost × SellProceeds) := do
  let cost ← b.loneBuy reserve amount
  let after ← reserve.add cost.prices
  return (cost, ← (b.grown amount).loneSell after amount)

@[simp] theorem supply_grown (b : Bond) (amount : Int) :
    (b.grown amount).supply = b.supply + amount := rfl

theorem Accepted.grown {b : Bond} (h : b.Accepted) (amount : Int) : (b.grown amount).Accepted :=
  ⟨h.parameters, h.value⟩

/-! ### Orders that are alone in their batch -/

section Alone

variable {amount spot minted burned buy sell : Int}

theorem Cleared.minted_le (h : Cleared amount 0 spot minted burned buy sell) (ha : 0 < amount) :
    2 * minted ≤ 2 * (buy * amount) + amount := by
  rcases h with ⟨rfl, -, -⟩ | ⟨-, -, rfl⟩ | ⟨hlt, -, -⟩
  · omega
  · simpa using (roundHalfEven_bounds ha (spot * 0 + minted)).1
  · omega

theorem Cleared.le_burned (h : Cleared 0 amount spot minted burned buy sell) (ha : 0 < amount) :
    2 * (sell * amount) ≤ 2 * burned + amount := by
  rcases h with ⟨rfl, -, -⟩ | ⟨hlt, -, -⟩ | ⟨-, -, rfl⟩
  · omega
  · omega
  · simpa using (roundHalfEven_bounds ha (spot * 0 + burned)).2

end Alone

/-- A share of `amount` of a pool with `supply` shares and `bal` of a reserve token, bought for
`paid` and sold for `ret`. Either price is rounded twice: as a share of the pool, and as the price
of one token. -/
theorem share_round_trip {scale supply amount bal paid ret minted burned buy sell : Int}
    (hs : 0 < supply) (ha : 0 ≤ amount)
    (hminted : minted = roundHalfEven (bal * amount * scale) supply)
    (hbuy : 2 * minted ≤ 2 * (buy * amount) + amount) (hpaid : buy * amount ≤ paid * scale)
    (hburned : burned = roundHalfEven ((bal + paid) * amount * scale) (supply + amount))
    (hsell : 2 * (sell * amount) ≤ 2 * burned + amount) (hret : ret * scale ≤ sell * amount) :
    ret * scale ≤ paid * scale + amount + 1 := by
  have hafter : 0 < supply + amount := by omega
  have hshare := (roundHalfEven_bounds hs (bal * amount * scale)).1
  have hshare' := (roundHalfEven_bounds hafter ((bal + paid) * amount * scale)).2
  rw [← hminted] at hshare
  rw [← hburned] at hshare'
  have hin : 2 * (bal * amount * scale) ≤ 2 * (paid * scale) * supply + (amount + 1) * supply := by
    have := mul_le_mul_of_nonneg_right (hbuy.trans (show _ ≤ 2 * (paid * scale) + amount by
      linarith)) hs.le
    linarith
  have hout : 2 * (ret * scale) * (supply + amount) ≤
      2 * ((bal + paid) * amount * scale) + (amount + 1) * (supply + amount) := by
    have := mul_le_mul_of_nonneg_right (show 2 * (ret * scale) ≤ 2 * burned + amount by
      linarith) hafter.le
    linarith
  have hextra : 0 ≤ (amount + 1) * amount := mul_nonneg (by omega) ha
  have hsum : 2 * (ret * scale) * (supply + amount) ≤
      2 * (paid * scale + amount + 1) * (supply + amount) := by linarith
  have := le_of_mul_le_mul_right hsum hafter
  omega

variable {b : Bond} {reserve : Coins} {amount : Int}

theorem loneBuy_spec (hb : b.Accepted) (htx : 0 ≤ b.txFee.raw)
    (hr : ∀ d, 0 ≤ reserve.amountOf d) (hs : 0 ≤ b.supply) (hopen : b.inHatch = false)
    (hpos : b.isSwapper = true → 0 < b.supply) (ha : 0 ≤ amount) :
    ∃ p cost, b.clearingPrices reserve amount 0 = .ok p ∧ b.loneBuy reserve amount = .ok cost ∧
      cost.prices.Proper ∧
      ∀ d, (p.buy.amountOf d).raw * amount ≤ cost.prices.amountOf d * Dec.scale := by
  obtain ⟨p, hp⟩ := hb.exists_clearingPrices reserve hopen hpos ha le_rfl hs
  obtain ⟨hproper, -⟩ := clearingPrices_proper hb.priceable hr hs ha le_rfl hs hp
  obtain ⟨cost, hcost, hprices, -, -, -, hceil, -⟩ := buyCost_spec htx hproper ha
  refine ⟨p, cost, hp, by rw [loneBuy, hp, Result.ok_bind, hcost], hprices, fun d => ?_⟩
  rw [hceil, ← DecCoins.amountOf_times]
  exact Dec.raw_le_ceilInt _

theorem loneSell_spec (hb : b.Accepted) (htx : 0 ≤ b.txFee.raw) (hexit : 0 ≤ b.exitFee.raw)
    (hr : ∀ d, 0 ≤ reserve.amountOf d) (hopen : b.inHatch = false)
    (hpos : b.isSwapper = true → 0 < b.supply) (ha : 0 ≤ amount) (hle : amount ≤ b.supply) :
    ∃ p proceeds, b.clearingPrices reserve 0 amount = .ok p ∧
      b.loneSell reserve amount = .ok proceeds ∧
      ∀ d, proceeds.returned.amountOf d * Dec.scale ≤ (p.sell.amountOf d).raw * amount := by
  obtain ⟨p, hp⟩ := hb.exists_clearingPrices reserve hopen hpos le_rfl ha hle
  obtain ⟨-, hproper⟩ :=
    clearingPrices_proper hb.priceable hr (ha.trans hle) le_rfl ha hle hp
  obtain ⟨proceeds, hproceeds, -, hfees, hfloor, -⟩ := sellProceeds_spec htx hexit hproper ha
  refine ⟨p, proceeds, hp, by rw [loneSell, hp, Result.ok_bind, hproceeds], fun d => ?_⟩
  rw [← DecCoins.amountOf_times]
  refine (mul_le_mul_of_nonneg_right ?_ Dec.scale_pos.le).trans (Dec.floorInt_le_raw _)
  have := hfees.amountOf_nonneg d
  have := hfloor d
  omega

/-- A curve pays out what the reserve has beyond what it asks for at the supply before. -/
theorem loneSell_le_surplus (hb : b.Accepted) (hswap : b.isSwapper = false)
    (hopen : b.inHatch = false) (ha : 0 < amount) (hs : 0 ≤ b.supply) {p : ClearingPrices}
    (hp : (b.grown amount).clearingPrices reserve 0 amount = .ok p) {d : Denom}
    (hd : d ∈ b.reserveTokens) :
    ∃ backing, b.reserveAt b.supply = .ok backing ∧ 2 * ((p.sell.amountOf d).raw * amount) ≤
      2 * max (reserve.amountOf d * Dec.scale - backing.raw) 0 + amount := by
  obtain ⟨c, hc, hregular⟩ := hb.exists_regular hswap
  obtain ⟨price, hprice⟩ := Curve.exists_priceAt hregular (b.grown amount).supply
  obtain ⟨backing, hbacking⟩ := Curve.exists_reserveAt_of_regular hregular b.supply
  have hafter : (b.grown amount).supply + 0 - amount = b.supply := by simp
  refine ⟨backing, by rw [reserveAt_of_curve hc, hbacking], ?_⟩
  exact (cleared_of_curve (b := b.grown amount) hswap hopen hc hprice le_rfl ha.le
    (by simpa using hs) (hafter.symm ▸ hbacking) hp hd).le_burned ha

/-- A buy that is followed by a sell of the same amount, alone in their batches, gains no more than
the surplus that the reserve had beyond the curve; a pool, which has no surplus, gives nothing away.
Rounding is worth at most half a unit of the last place for every token on a curve, and a unit for
every token and one more in a pool. -/
theorem roundTrip_bounded (hb : b.Accepted) (htx : 0 ≤ b.txFee.raw) (hexit : 0 ≤ b.exitFee.raw)
    (hopen : b.inHatch = false) (hs : 0 ≤ b.supply) (hpos : b.isSwapper = true → 0 < b.supply)
    (hr : reserve.Proper) (ha : 1 ≤ amount) :
    ∃ cost proceeds, b.roundTrip reserve amount = .ok (cost, proceeds) ∧ ∀ d ∈ b.reserveTokens,
      let paid := cost.prices.amountOf d * 10 ^ 18
      let ret := proceeds.returned.amountOf d * 10 ^ 18
      (b.isSwapper = false → ∃ backing, b.reserveAt b.supply = .ok backing ∧
        2 * ret ≤
          2 * (paid + max 0 (reserve.amountOf d * 10 ^ 18 - backing.raw)) + amount) ∧
      (b.isSwapper = true → ret ≤ paid + amount + 1) := by
  have hscale : (10 : Int) ^ 18 = Dec.scale := by decide
  have ha₀ : 0 ≤ amount := by omega
  obtain ⟨p, cost, hp, hcost, hprices, hpaid⟩ :=
    loneBuy_spec hb htx hr.amountOf_nonneg hs hopen hpos ha₀
  obtain ⟨after, hafter, hproper, hsum⟩ := Coins.add_spec hr hprices
  have hle : amount ≤ (b.grown amount).supply := by simpa using hs
  have hpos' : (b.grown amount).isSwapper = true → 0 < (b.grown amount).supply := fun hswap =>
    add_pos_of_pos_of_nonneg (hpos hswap) ha₀
  obtain ⟨p', proceeds, hp', hproceeds, hret⟩ :=
    loneSell_spec (hb.grown amount) htx hexit hproper.amountOf_nonneg hopen hpos' ha₀ hle
  refine ⟨cost, proceeds, by simp [roundTrip, hcost, hafter, hproceeds], fun d hd => ?_⟩
  simp only [hscale]
  refine ⟨fun hswap => ?_, fun hswap => ?_⟩
  · obtain ⟨backing, hbacking, hsold⟩ := loneSell_le_surplus hb hswap hopen ha hs hp' hd
    refine ⟨backing, hbacking, ?_⟩
    rw [hsum, add_mul] at hsold
    have hpaid := mul_nonneg (hprices.amountOf_nonneg d) Dec.scale_pos.le
    have hret := hret d
    omega
  · obtain ⟨_, hq, hbought⟩ := exists_clearingPrices_pool reserve hswap (hpos hswap) ha₀ le_rfl
    cases hp.symm.trans hq
    obtain ⟨_, hq, hsold⟩ :=
      exists_clearingPrices_pool (b := b.grown amount) after hswap (hpos' hswap) le_rfl ha₀
    cases hp'.symm.trans hq
    have hin := (hbought d hd).minted_le ha
    have hout := (hsold d hd).le_burned ha
    rw [sub_zero] at hin hout
    rw [hsum] at hout
    exact share_round_trip (hpos hswap) ha₀ rfl hin (hpaid d) rfl hout (hret d)

/-- With a surplus of three units in the reserve a buy of one token costs nothing, and the sell that
follows takes the whole surplus. -/
theorem roundTrip_bounded_surplus :
    ∃ cost proceeds,
      (flatPriced Dec.one 2).roundTrip [("res", 5)] 1 = .ok (cost, proceeds) ∧
      cost.prices.amountOf "res" = 0 ∧ proceeds.returned.amountOf "res" = 3 ∧
      ∃ backing, (flatPriced Dec.one 2).reserveAt 2 = .ok backing ∧
        2 * (proceeds.returned.amountOf "res" * 10 ^ 18) ≤
          2 * (cost.prices.amountOf "res" * 10 ^ 18 +
            max 0 (Coins.amountOf [("res", 5)] "res" * 10 ^ 18 - backing.raw)) + 1 := by
  have haccepted : (flatPriced Dec.one 2).Accepted := ⟨rfl, fun h => by cases h⟩
  have hheld : Coins.Proper [("res", 5)] := ⟨by decide, by simp⟩
  have hone : (1 : Int) ≤ 1 := le_rfl
  have htrip : (flatPriced Dec.one 2).roundTrip [("res", 5)] 1 =
      .ok (⟨[], [], []⟩, ⟨[("res", 3)], []⟩) := by decide +kernel
  obtain ⟨cost, proceeds, hrun, hbound⟩ := roundTrip_bounded haccepted (by decide) (by decide)
    (by decide) (by decide) (by decide) hheld hone
  cases htrip.symm.trans hrun
  exact ⟨_, _, hrun, rfl, rfl, (hbound "res" (by decide)).1 rfl⟩

end Bond
end BondMarket
