import BondMarket.Clearing
import BondMarket.Proofs.Curve
import BondMarket.Proofs.Prices

/-!
The prices of bonds as their creation leaves them. A batch that has a spot price has clearing
prices, whatever its totals are, and no price is negative. The clearing prices say, denomination
by denomination, how the excess of one side over the other is paid for.
-/

namespace BondMarket

/-- What a bond in its hatch is sold by: its flat price, the share that does not go to the reserve,
and the supply at which the hatch ends. They come of parameters that passed the checks of the
family, with the constants that follow from them. -/
structure Bond.HatchTerms (b : Bond) : Prop where
  price : ∃ p0, b.parameters.value "p0" = .ok p0 ∧ 0 ≤ p0.raw
  share : ∃ theta, b.parameters.value "theta" = .ok theta ∧ 0 ≤ theta.raw ∧ theta.raw < Dec.scale
  limit : ∃ s0, b.parameters.value "S0" = .ok s0
  derived : ∃ ps k, FunctionType.augmented.validate ps = .ok () ∧
    HatchConstants.ofParams ps = .ok k ∧ b.parameters = k.addTo ps

/-- The terms of the bond of a token, as the checks at its creation leave them. No request changes
them afterwards. -/
structure Bond.Formed (token : Denom) (b : Bond) : Prop where
  token_eq : b.token = token
  written : Text.allBlank token = false
  address : b.reserveAddress = reserveAccountFor token
  curve : b.isSwapper = false → ∃ c, b.curve = .ok c ∧ c.Proper
  hatch : b.isAugmented = true → b.HatchTerms
  distinct : b.reserveTokens.Nodup
  named : "" ∉ b.reserveTokens
  apart : token ∉ b.reserveTokens
  count : b.reserveTokens.length = b.functionType.reserveTokenCount
  txFee : 0 ≤ b.txFee.raw
  exitFee : 0 ≤ b.exitFee.raw
  blocks : 0 ≤ b.batchBlocks
  payment : b.outcomePayment.Proper

/-- What a bond is priced by: a curve in its range, unless it has a pool, and the flat price of its
hatch. -/
structure Bond.Priceable (b : Bond) : Prop where
  curve : b.isSwapper = false → ∃ c, b.curve = .ok c ∧ c.Proper
  price : b.isAugmented = true → ∃ p0, b.parameters.value "p0" = .ok p0 ∧ 0 ≤ p0.raw

namespace Bond

variable {b : Bond} {token : Denom} {reserve : Coins}

theorem Formed.priceable (h : b.Formed token) : b.Priceable :=
  ⟨h.curve, fun ha => (h.hatch ha).price⟩

/-- The terms stay when the bond's market state or what an edit may change is replaced. -/
theorem Formed.update (h : b.Formed token) (name description : String) (orderLimits : Coins)
    (sanityRate sanityMargin : Dec) (allowSells : Bool) (phase : Phase) (supply : Int)
    (reserve : Coins) :
    Formed token { b with name, description, orderLimits, sanityRate, sanityMargin, allowSells,
                          phase, supply, reserve } :=
  { token_eq := h.token_eq, written := h.written, address := h.address, curve := h.curve,
    hatch := fun ha => { h.hatch ha with },
    distinct := h.distinct, named := h.named, apart := h.apart, count := h.count,
    txFee := h.txFee, exitFee := h.exitFee, blocks := h.blocks, payment := h.payment }

theorem inHatch_isAugmented (h : b.inHatch = true) : b.isAugmented = true := by
  unfold inHatch at h
  exact (Bool.and_eq_true_iff.1 h).1

theorem inHatch_phase (h : b.inHatch = true) : b.phase = .hatch := by
  unfold inHatch at h
  exact beq_iff_eq.1 (Bool.and_eq_true_iff.1 h).2

theorem isAugmented_iff : b.isAugmented = true ↔ b.functionType = .augmented := beq_iff_eq

theorem isSwapper_iff : b.isSwapper = true ↔ b.functionType = .swapper := beq_iff_eq

theorem isSwapper_eq_false (h : b.isAugmented = true) : b.isSwapper = false := by
  rw [isSwapper, isAugmented_iff.1 h]
  rfl

theorem inHatch_eq_false (h : b.isSwapper = true) : b.inHatch = false := by
  by_contra hhatch
  have hnot := isSwapper_eq_false (inHatch_isAugmented ((Bool.not_eq_false _).mp hhatch))
  cases h.symm.trans hnot

theorem Formed.exists_reserveToken (hf : b.Formed token) (ha : b.isAugmented = true) :
    ∃ d, b.reserveTokens = [d] := by
  refine List.length_eq_one_iff.1 ?_
  rw [hf.count, isAugmented_iff.1 ha]
  rfl

theorem Formed.exists_pair (hf : b.Formed token) (hswap : b.isSwapper = true) :
    ∃ x y, b.reserveTokens = [x, y] := by
  refine List.length_eq_two.1 ?_
  rw [hf.count, isSwapper_iff.1 hswap]
  rfl

theorem Formed.exists_sortedPair (hf : b.Formed token) (hswap : b.isSwapper = true) :
    ∃ x y, sortedTexts b.reserveTokens = [x, y] := by
  obtain ⟨x, y, htokens⟩ := hf.exists_pair hswap
  refine List.length_eq_two.1 ?_
  rw [(sortedTexts_perm _).length_eq, htokens]
  rfl

theorem isIntegral_of_curve (hb : b.functionType = .power ∨ b.functionType = .sigmoid) {c : Curve}
    (hc : b.curve = .ok c) : c.IsIntegral := by
  unfold curve at hc
  rcases hb with hb | hb
  · rw [hb, Curve.ofParams] at hc
    simp only [Result.bind_eq_ok] at hc
    obtain ⟨m, -, n, -, k, -, hc⟩ := hc
    cases hc
    trivial
  · rw [hb, Curve.ofParams] at hc
    simp only [Result.bind_eq_ok, Curve.ofSigmoid] at hc
    obtain ⟨x, -, y, -, z, -, hc⟩ := hc
    split at hc
    · cases hc
    · cases hc
      trivial

theorem not_swapper_hatch (hb : b.functionType = .power ∨ b.functionType = .sigmoid) :
    b.isSwapper = false ∧ b.inHatch = false := by
  unfold isSwapper inHatch isAugmented
  rcases hb with hb | hb <;> simp [hb]

theorem reserveAt_of_curve {c : Curve} (hc : b.curve = .ok c) (s : Int) :
    b.reserveAt s = c.reserveAt s := by
  simp [reserveAt, hc]

/-! ### Spot prices -/

theorem requireSupply_eq_ok {supply : Int} (h : 0 < supply) :
    Pool.requireSupply supply = .ok () :=
  rejectIf_eq_ok_iff.2 (not_le.2 h)

theorem supply_pos_of_sharesOf {denoms : List Denom} {n supply : Int} {c : DecCoins}
    (h : Pool.sharesOf reserve denoms n supply = .ok c) : 0 < supply := by
  rw [Pool.sharesOf, Result.bind_eq_ok] at h
  obtain ⟨_, hreq, -⟩ := h
  exact not_le.1 (rejectIf_eq_ok_iff.1 hreq)

theorem spotPrices_swapper (hswap : b.isSwapper = true) (reserve : Coins) :
    b.spotPrices reserve = Pool.sharesOf reserve b.reserveTokens 1 b.supply := by
  simp only [spotPrices, hswap, if_true, Pool.pricesPerToken, Pool.sharesOf, mul_one]

theorem supply_pos_of_spotPrices {prices : DecCoins} (hswap : b.isSwapper = true)
    (h : b.spotPrices reserve = .ok prices) : 0 < b.supply :=
  supply_pos_of_sharesOf (spotPrices_swapper hswap reserve ▸ h)

theorem sharesOf_eq_ok (reserve : Coins) (denoms : List Denom) (n : Int) {supply : Int}
    (hs : 0 < supply) :
    ∃ c, Pool.sharesOf reserve denoms n supply = .ok c ∧ (Table.keys c).Nodup ∧
      ∀ d, (c.amountOf d).raw =
        if d ∈ denoms then roundHalfEven (reserve.amountOf d * n * Dec.scale) supply else 0 := by
  obtain ⟨c, hc, hamount⟩ := DecCoins.tabulate_eq_ok denoms
    (f := fun d => Dec.ofRatio (reserve.amountOf d * n) supply)
    (g := fun d => ⟨roundHalfEven (reserve.amountOf d * n * Dec.scale) supply⟩)
    (fun d _ => by simp [Dec.ofRatio, hs.ne'])
  refine ⟨c, by simpa only [Pool.sharesOf, requireSupply_eq_ok hs, Result.ok_bind] using hc,
    DecCoins.distinct_of_tabulate hc, fun d => ?_⟩
  rw [hamount]
  split <;> rfl

theorem sharesOf_spec (hr : ∀ d, 0 ≤ reserve.amountOf d) {supply n : Int} (hs : 0 < supply)
    (hn : 0 ≤ n) (denoms : List Denom) :
    ∃ c, Pool.sharesOf reserve denoms n supply = .ok c ∧ c.Proper ∧ ∀ d, (c.amountOf d).raw =
      if d ∈ denoms then roundHalfEven (reserve.amountOf d * n * Dec.scale) supply else 0 := by
  obtain ⟨c, hc, hdistinct, hamount⟩ := sharesOf_eq_ok reserve denoms n hs
  refine ⟨c, hc, DecCoins.proper_of_amounts hdistinct fun d => ?_, hamount⟩
  rw [hamount]
  split
  · exact roundHalfEven_nonneg hs
      (Int.mul_nonneg (Int.mul_nonneg (hr d) hn) Dec.scale_pos.le)
  · exact le_rfl

theorem pricesAt_inHatch (hb : b.inHatch = true) (supply : Int) :
    b.pricesAt supply = b.uniformAmount <$> b.parameters.value "p0" := by
  have hswap := isSwapper_eq_false (inHatch_isAugmented hb)
  simp only [pricesAt, hswap, hb, if_true, if_false, Bool.false_eq_true]
  rfl

theorem pricesAt_open (hswap : b.isSwapper = false) (hb : b.inHatch = false) {c : Curve}
    (hc : b.curve = .ok c) (supply : Int) :
    b.pricesAt supply = b.uniformAmount <$> c.priceAt supply := by
  simp only [pricesAt, hswap, hb, if_false, Bool.false_eq_true, hc, Result.ok_bind]
  rfl

theorem spotPrices_open (reserve : Coins) (hswap : b.isSwapper = false) (hb : b.inHatch = false)
    {c : Curve} (hc : b.curve = .ok c) {price : Dec} (hp : c.priceAt b.supply = .ok price) :
    b.spotPrices reserve = .ok (b.uniformAmount price) := by
  simp only [spotPrices, hswap, if_false, Bool.false_eq_true, pricesAt_open hswap hb hc, hp]
  rfl

theorem exists_price (hswap : b.isSwapper = false) (hb : b.inHatch = false) {c : Curve}
    (hc : b.curve = .ok c) {spot : DecCoins} (h : b.spotPrices reserve = .ok spot) :
    ∃ price, c.priceAt b.supply = .ok price ∧ spot = b.uniformAmount price := by
  simp only [spotPrices, hswap, if_false, Bool.false_eq_true, pricesAt_open hswap hb hc,
    Result.map_eq_ok] at h
  obtain ⟨price, hp, rfl⟩ := h
  exact ⟨price, hp, rfl⟩

theorem spotPrices_proper (hf : b.Priceable) (hr : ∀ d, 0 ≤ reserve.amountOf d)
    (hs : 0 ≤ b.supply) {prices : DecCoins} (h : b.spotPrices reserve = .ok prices) :
    prices.Proper := by
  cases hswap : b.isSwapper with
  | true =>
      have hpos := supply_pos_of_spotPrices hswap h
      obtain ⟨c, hc, hproper, -⟩ := sharesOf_spec hr hpos zero_le_one b.reserveTokens
      rw [spotPrices_swapper hswap] at h
      cases h.symm.trans hc
      exact hproper
  | false =>
      cases hhatch : b.inHatch with
      | true =>
          obtain ⟨p0, hp0, hnonneg⟩ := hf.price (inHatch_isAugmented hhatch)
          simp only [spotPrices, hswap, if_false, Bool.false_eq_true] at h
          rw [pricesAt_inHatch hhatch, hp0] at h
          cases h
          exact DecCoins.proper_uniform _ hnonneg
      | false =>
          obtain ⟨c, hc, hproper⟩ := hf.curve hswap
          obtain ⟨p, hp, rfl⟩ := exists_price hswap hhatch hc h
          exact DecCoins.proper_uniform _ (Curve.priceAt_nonneg hproper hs hp)

/-! ### The excess of one side -/

/-- What one side has to pay beyond the spot price of what is matched: an amount of each reserve
token, the larger of zero and a difference to the curve. -/
theorem tabulate_clamped (denoms : List Denom) (f : Denom → Dec) :
    ∃ e, DecCoins.tabulate denoms (fun d => .ok (f d).clamped) = .ok e ∧ e.Proper ∧
      ∀ d, (e.amountOf d).raw = if d ∈ denoms then max (f d).raw 0 else 0 := by
  obtain ⟨e, he, hproper, hamount⟩ := DecCoins.tabulate_spec denoms
    (f := fun d => .ok (f d).clamped) (g := fun d => (f d).clamped) (fun _ _ => rfl)
    (fun d _ => Dec.raw_clamped (f d) ▸ le_max_right _ _)
  refine ⟨e, he, hproper, fun d => ?_⟩
  rw [hamount]
  split
  · exact Dec.raw_clamped _
  · exact Dec.raw_zero

theorem mintPrices_open (reserve : Coins) (hswap : b.isSwapper = false) (hb : b.inHatch = false)
    {c : Curve} (hc : b.curve = .ok c) {amount : Int} {target : Dec}
    (ht : c.reserveAt (b.supply + amount) = .ok target) :
    ∃ e, b.mintPrices amount reserve = .ok e ∧ e.Proper ∧
      ∀ d ∈ b.reserveTokens,
        (e.amountOf d).raw = max (target.raw - reserve.amountOf d * Dec.scale) 0 := by
  obtain ⟨e, he, hproper, hamount⟩ := tabulate_clamped b.reserveTokens
    fun d => target - Dec.ofInt (reserve.amountOf d)
  refine ⟨e, ?_, hproper, fun d hd => (hamount d).trans (if_pos hd)⟩
  simpa only [mintPrices, hswap, hb, if_false, Bool.false_eq_true, reserveAt, hc, Result.ok_bind,
    ht] using he

theorem burnReturns_curve (reserve : Coins) (hswap : b.isSwapper = false) {c : Curve}
    (hc : b.curve = .ok c) {amount : Int} (ha : amount ≤ b.supply) {target : Dec}
    (ht : c.reserveAt (b.supply - amount) = .ok target) :
    ∃ e, b.burnReturns amount reserve = .ok e ∧ e.Proper ∧
      ∀ d ∈ b.reserveTokens,
        (e.amountOf d).raw = max (reserve.amountOf d * Dec.scale - target.raw) 0 := by
  obtain ⟨e, he, hproper, hamount⟩ := tabulate_clamped b.reserveTokens
    fun d => Dec.ofInt (reserve.amountOf d) - target
  refine ⟨e, ?_, hproper, fun d hd => (hamount d).trans (if_pos hd)⟩
  simpa only [burnReturns, hswap, not_lt.2 ha, if_false, Bool.false_eq_true, reserveAt, hc,
    Result.ok_bind, ht] using he

theorem exists_target (hf : b.Priceable) (hswap : b.isSwapper = false)
    (hhatch : b.inHatch = false) {spot : DecCoins} (h : b.spotPrices reserve = .ok spot) :
    ∃ c, b.curve = .ok c ∧ ∀ s, ∃ target, c.reserveAt s = .ok target := by
  obtain ⟨c, hc, hproper⟩ := hf.curve hswap
  obtain ⟨p, hp, -⟩ := exists_price hswap hhatch hc h
  exact ⟨c, hc, Curve.exists_reserveAt hproper hp⟩

theorem exists_mintPrices (hf : b.Priceable) (hr : ∀ d, 0 ≤ reserve.amountOf d)
    {spot : DecCoins} (h : b.spotPrices reserve = .ok spot) {amount : Int} (ha : 0 ≤ amount) :
    ∃ e, b.mintPrices amount reserve = .ok e ∧ e.Proper := by
  cases hswap : b.isSwapper with
  | true =>
      obtain ⟨e, he, hproper, -⟩ :=
        sharesOf_spec hr (supply_pos_of_spotPrices hswap h) ha b.reserveTokens
      exact ⟨e, by simpa only [mintPrices, hswap, if_true] using he, hproper⟩
  | false =>
      cases hhatch : b.inHatch with
      | true =>
          obtain ⟨p0, hp0, hnonneg⟩ := hf.price (inHatch_isAugmented hhatch)
          refine ⟨b.uniformAmount (p0.times amount), ?_, ?_⟩
          · simp [mintPrices, hswap, hhatch, hp0]
          · exact DecCoins.proper_uniform _ (Int.mul_nonneg hnonneg ha)
      | false =>
          obtain ⟨c, hc, htarget⟩ := exists_target hf hswap hhatch h
          obtain ⟨target, ht⟩ := htarget (b.supply + amount)
          obtain ⟨e, he, hproper, -⟩ := mintPrices_open reserve hswap hhatch hc ht
          exact ⟨e, he, hproper⟩

theorem exists_burnReturns (hf : b.Priceable) (hr : ∀ d, 0 ≤ reserve.amountOf d)
    (hhatch : b.inHatch = false) {spot : DecCoins} (h : b.spotPrices reserve = .ok spot)
    {amount : Int} (ha : 0 ≤ amount) (hle : amount ≤ b.supply) :
    ∃ e, b.burnReturns amount reserve = .ok e ∧ e.Proper := by
  cases hswap : b.isSwapper with
  | true =>
      obtain ⟨e, he, hproper, -⟩ :=
        sharesOf_spec hr (supply_pos_of_spotPrices hswap h) ha b.reserveTokens
      exact ⟨e, by simpa only [burnReturns, hswap, if_true] using he, hproper⟩
  | false =>
      obtain ⟨c, hc, htarget⟩ := exists_target hf hswap hhatch h
      obtain ⟨target, ht⟩ := htarget (b.supply - amount)
      obtain ⟨e, he, hproper, -⟩ := burnReturns_curve reserve hswap hc hle ht
      exact ⟨e, he, hproper⟩

theorem burnReturns_le (hf : b.Priceable) (hr : ∀ d, 0 ≤ reserve.amountOf d) {amount : Int}
    (ha : 0 ≤ amount) (hle : amount ≤ b.supply) {e : DecCoins}
    (h : b.burnReturns amount reserve = .ok e) :
    e.Proper ∧ ∀ d, (e.amountOf d).raw ≤ reserve.amountOf d * Dec.scale := by
  have hreserve (d : Denom) : 0 ≤ reserve.amountOf d * Dec.scale :=
    mul_nonneg (hr d) Dec.scale_pos.le
  cases hswap : b.isSwapper with
  | true =>
      rw [burnReturns, if_pos hswap] at h
      have hpos := supply_pos_of_sharesOf h
      obtain ⟨e', he', hproper, hamount⟩ := sharesOf_spec hr hpos ha b.reserveTokens
      cases h.symm.trans he'
      refine ⟨hproper, fun d => ?_⟩
      rw [hamount]
      split
      · have hpart : reserve.amountOf d * amount * Dec.scale ≤
            reserve.amountOf d * Dec.scale * b.supply := by
          rw [mul_right_comm]
          exact mul_le_mul_of_nonneg_left hle (hreserve d)
        exact roundHalfEven_le_of_le_mul hpos hpart
      · exact hreserve d
  | false =>
      obtain ⟨c, hc, hcurve⟩ := hf.curve hswap
      simp only [burnReturns, hswap, not_lt.2 hle, if_false, Bool.false_eq_true, reserveAt, hc,
        Result.ok_bind, Result.bind_eq_ok] at h
      obtain ⟨target, ht, h⟩ := h
      obtain ⟨e', he', hproper, hamount⟩ := tabulate_clamped b.reserveTokens
        fun d => Dec.ofInt (reserve.amountOf d) - target
      cases h.symm.trans he'
      have htarget := Curve.reserveAt_nonneg hcurve (sub_nonneg.2 hle) ht
      refine ⟨hproper, fun d => ?_⟩
      rw [hamount]
      split
      · refine max_le ?_ (hreserve d)
        rw [Dec.raw_sub, Dec.raw_ofInt]
        omega
      · exact hreserve d

/-! ### Clearing prices -/

/-- The price of one token on the larger side of a batch: what is matched at the spot price and the
excess, divided among all tokens. -/
theorem averaged_amount {spot e q : DecCoins} (he : (Table.keys e).Nodup) {matched total : Int}
    (ht : 0 < total) (h : ((spot.times matched).add e).divInt total = .ok q) (d : Denom) :
    (q.amountOf d).raw =
      roundHalfEven ((spot.amountOf d).raw * matched + (e.amountOf d).raw) total := by
  obtain ⟨q', hq', -, hamount⟩ := DecCoins.divInt_eq_ok ((spot.times matched).add e) ht
  cases h.symm.trans hq'
  rw [hamount, DecCoins.amountOf_add he, DecCoins.amountOf_times]

theorem averaged_proper {spot e q : DecCoins} (hspot : spot.Proper) (he : e.Proper)
    {matched total : Int} (hm : 0 ≤ matched) (ht : 0 < total)
    (h : ((spot.times matched).add e).divInt total = .ok q) : q.Proper := by
  obtain ⟨q', hq', hproper, -⟩ := DecCoins.divInt_spec ((hspot.times hm).add he) ht
  cases h.symm.trans hq'
  exact hproper

/-- The clearing prices of a batch: the spot price on the smaller side, and on the larger side the
average of the spot price for what is matched and the excess. -/
theorem clearingPrices_eq_ok {totalBuy totalSell : Int} {p : ClearingPrices}
    (h : b.clearingPrices reserve totalBuy totalSell = .ok p) :
    ∃ spot, b.spotPrices reserve = .ok spot ∧
      ((totalBuy = totalSell ∧ p = ⟨spot, spot⟩) ∨
       (totalSell < totalBuy ∧ p.sell = spot ∧
          ∃ e, b.mintPrices (totalBuy - totalSell) reserve = .ok e ∧
            ((spot.times totalSell).add e).divInt totalBuy = .ok p.buy) ∨
       (totalBuy < totalSell ∧ p.buy = spot ∧
          ∃ e, b.burnReturns (totalSell - totalBuy) reserve = .ok e ∧
            ((spot.times totalBuy).add e).divInt totalSell = .ok p.sell)) := by
  rw [clearingPrices, Result.bind_eq_ok] at h
  obtain ⟨spot, hspot, h⟩ := h
  refine ⟨spot, hspot, ?_⟩
  split at h
  · cases h
    exact .inl ⟨‹_›, rfl⟩
  · split at h
    · simp only [Result.bind_eq_ok] at h
      obtain ⟨e, he, buy, hbuy, hp⟩ := h
      cases hp
      exact .inr (.inl ⟨‹_›, rfl, e, he, hbuy⟩)
    · simp only [Result.bind_eq_ok] at h
      obtain ⟨e, he, sell, hsell, hp⟩ := h
      cases hp
      exact .inr (.inr ⟨by omega, rfl, e, he, hsell⟩)

/-- A batch clears where there is a spot price and a price for the excess. -/
theorem clearingPrices_defined {spot : DecCoins} (hspot : b.spotPrices reserve = .ok spot)
    {totalBuy totalSell : Int} (hb : 0 ≤ totalBuy) (hsell : 0 ≤ totalSell)
    (hmint : totalSell < totalBuy → ∃ e, b.mintPrices (totalBuy - totalSell) reserve = .ok e)
    (hburn : totalBuy < totalSell → ∃ e, b.burnReturns (totalSell - totalBuy) reserve = .ok e) :
    ∃ p, b.clearingPrices reserve totalBuy totalSell = .ok p := by
  obtain heq | hlt | hgt : totalBuy = totalSell ∨ totalSell < totalBuy ∨ totalBuy < totalSell := by
    omega
  · exact ⟨⟨spot, spot⟩, by simp [clearingPrices, hspot, heq]⟩
  · obtain ⟨e, he⟩ := hmint hlt
    obtain ⟨buy, hbuy, -⟩ :=
      DecCoins.divInt_eq_ok ((spot.times totalSell).add e) (by omega : 0 < totalBuy)
    exact ⟨⟨buy, spot⟩, by simp [clearingPrices, hspot, hlt.ne', hlt, he, hbuy]⟩
  · obtain ⟨e, he⟩ := hburn hgt
    obtain ⟨sell, hsell, -⟩ :=
      DecCoins.divInt_eq_ok ((spot.times totalBuy).add e) (by omega : 0 < totalSell)
    exact ⟨⟨spot, sell⟩, by simp [clearingPrices, hspot, hgt.ne, not_lt.2 hgt.le, he, hsell]⟩

theorem clearingPrices_proper (hf : b.Priceable) (hr : ∀ d, 0 ≤ reserve.amountOf d)
    (hs : 0 ≤ b.supply) {totalBuy totalSell : Int} (hb : 0 ≤ totalBuy) (hsell : 0 ≤ totalSell)
    (hle : totalSell ≤ b.supply) {p : ClearingPrices}
    (h : b.clearingPrices reserve totalBuy totalSell = .ok p) : p.buy.Proper ∧ p.sell.Proper := by
  obtain ⟨spot, hspot, hcases⟩ := clearingPrices_eq_ok h
  have hproper := spotPrices_proper hf hr hs hspot
  rcases hcases with ⟨-, rfl⟩ | ⟨hlt, hpsell, e, he, hdiv⟩ | ⟨hlt, hpbuy, e, he, hdiv⟩
  · exact ⟨hproper, hproper⟩
  · obtain ⟨e', he', heproper⟩ := exists_mintPrices hf hr hspot (sub_nonneg.2 hlt.le)
    cases he.symm.trans he'
    exact ⟨averaged_proper hproper heproper hsell (by omega) hdiv, hpsell ▸ hproper⟩
  · have heproper := (burnReturns_le hf hr (by omega) (by omega) he).1
    exact ⟨hpbuy ▸ hproper, averaged_proper hproper heproper hb (by omega) hdiv⟩

theorem exists_clearingPrices (hf : b.Priceable) (hr : ∀ d, 0 ≤ reserve.amountOf d)
    (hs : 0 ≤ b.supply) {spot : DecCoins} (hspot : b.spotPrices reserve = .ok spot)
    {totalBuy totalSell : Int} (hb : 0 ≤ totalBuy) (hle : totalSell ≤ b.supply)
    (hsell : 0 ≤ totalSell) (hhatch : b.inHatch = true → totalSell = 0) :
    ∃ p, b.clearingPrices reserve totalBuy totalSell = .ok p ∧ p.buy.Proper ∧ p.sell.Proper := by
  obtain ⟨p, hp⟩ := clearingPrices_defined hspot hb hsell
    (fun hlt => (exists_mintPrices hf hr hspot (sub_nonneg.2 hlt.le)).imp fun _ he => he.1)
    fun hlt => by
      -- There are no sells in a hatch, so that no curve is asked there.
      have hopen : b.inHatch = false := by
        cases hh : b.inHatch with
        | false => rfl
        | true =>
            have := hhatch hh
            omega
      exact (exists_burnReturns hf hr hopen hspot (sub_nonneg.2 hlt.le) (by omega)).imp
        fun _ he => he.1
  exact ⟨p, hp, clearingPrices_proper hf hr hs hb hsell hle hp⟩

/-- In a hatch, where nothing is sold, a batch clears at the flat price: the average of what is
asked for all tokens is what is asked for one. -/
theorem clearingPrices_inHatch (hf : b.Formed token) (hb : b.inHatch = true) {p0 : Dec}
    (hp0 : b.parameters.value "p0" = .ok p0) {n : Int} (hn : 0 < n) :
    b.clearingPrices reserve n 0 = .ok ⟨b.uniformAmount p0, b.uniformAmount p0⟩ := by
  have hswap := isSwapper_eq_false (inHatch_isAugmented hb)
  obtain ⟨d, hd⟩ := hf.exists_reserveToken (inHatch_isAugmented hb)
  have huniform (x : Dec) : b.uniformAmount x = [(d, x)] := by
    simp [uniformAmount, hd, DecCoins.uniform, sortedTexts, sortedTexts.insertText, Table.ofKeys,
      Table.set]
  have hspot : b.spotPrices reserve = .ok (b.uniformAmount p0) := by
    simp [spotPrices, hswap, pricesAt_inHatch hb, hp0, Functor.map, Except.map]
  have hmint : b.mintPrices (n - 0) reserve = .ok (b.uniformAmount (p0.times n)) := by
    simp [mintPrices, hswap, hb, hp0]
  have haverage : (((b.uniformAmount p0).times 0).add (b.uniformAmount (p0.times n))).divInt n =
      .ok (b.uniformAmount p0) := by
    have hsum : p0.times 0 + p0.times n = p0.times n := Dec.ext (by simp)
    have hquotient : (p0.times n).divInt n = .ok p0 := by
      rw [Dec.divInt_of_ne_zero hn.ne', Dec.raw_times, roundHalfEven_mul_self hn]
    simp [huniform, DecCoins.times, DecCoins.add, DecCoins.divInt, DecCoins.amountOf, Table.sorted,
      Table.insertSorted, Table.mapValues, Table.set, Table.get?, Table.traverse, hsum, hquotient]
  simp only [clearingPrices, hspot, Result.ok_bind, hn.ne', if_false, hn, if_true, hmint,
    haverage, Result.pure_eq_ok]

/-! ### Beyond the reserve tokens -/

theorem spotPrices_confined {spot : DecCoins} (h : b.spotPrices reserve = .ok spot) :
    spot.Confined b.reserveTokens := by
  unfold spotPrices at h
  split at h
  · rw [Pool.pricesPerToken, Result.bind_eq_ok] at h
    obtain ⟨_, -, h⟩ := h
    exact DecCoins.confined_of_tabulate h
  · rename_i hswap
    rw [pricesAt, if_neg hswap] at h
    split at h
    · simp only [Result.bind_eq_ok, Result.pure_eq_ok, Except.ok.injEq] at h
      obtain ⟨x, -, rfl⟩ := h
      exact DecCoins.confined_uniform _ _
    · simp only [Result.bind_eq_ok, Result.pure_eq_ok, Except.ok.injEq] at h
      obtain ⟨_, -, x, -, rfl⟩ := h
      exact DecCoins.confined_uniform _ _

theorem mintPrices_confined {e : DecCoins} {amount : Int}
    (h : b.mintPrices amount reserve = .ok e) : e.Confined b.reserveTokens := by
  unfold mintPrices at h
  split at h
  · rw [Pool.sharesOf, Result.bind_eq_ok] at h
    obtain ⟨_, -, h⟩ := h
    exact DecCoins.confined_of_tabulate h
  · split at h
    · simp only [Result.bind_eq_ok, Result.pure_eq_ok, Except.ok.injEq] at h
      obtain ⟨x, -, rfl⟩ := h
      exact DecCoins.confined_uniform _ _
    · rw [Result.bind_eq_ok] at h
      obtain ⟨_, -, h⟩ := h
      exact DecCoins.confined_of_tabulate h

theorem burnReturns_confined {e : DecCoins} {amount : Int}
    (h : b.burnReturns amount reserve = .ok e) : e.Confined b.reserveTokens := by
  unfold burnReturns at h
  split at h
  · rw [Pool.sharesOf, Result.bind_eq_ok] at h
    obtain ⟨_, -, h⟩ := h
    exact DecCoins.confined_of_tabulate h
  · split at h
    · cases h
    · rw [Result.bind_eq_ok] at h
      obtain ⟨_, -, h⟩ := h
      exact DecCoins.confined_of_tabulate h

theorem clearingPrices_confined (hf : b.Priceable) (hr : ∀ d, 0 ≤ reserve.amountOf d)
    {totalBuy totalSell : Int} (hb : 0 ≤ totalBuy) (hsell : 0 ≤ totalSell)
    (hle : totalSell ≤ b.supply) {p : ClearingPrices}
    (h : b.clearingPrices reserve totalBuy totalSell = .ok p) :
    p.buy.Confined b.reserveTokens ∧ p.sell.Confined b.reserveTokens := by
  obtain ⟨spot, hspot, hcases⟩ := clearingPrices_eq_ok h
  have hnone := spotPrices_confined hspot
  have haverage {e q : DecCoins} {matched total : Int} (he : e.Proper)
      (hconfined : e.Confined b.reserveTokens) (ht : 0 < total)
      (hq : ((spot.times matched).add e).divInt total = .ok q) : q.Confined b.reserveTokens := by
    refine fun d hd => Dec.ext ?_
    rw [averaged_amount he.distinct ht hq, hnone d hd, hconfined d hd, Dec.raw_zero, zero_mul,
      add_zero, roundHalfEven_zero ht]
  rcases hcases with ⟨-, rfl⟩ | ⟨hlt, hpsell, e, he, hdiv⟩ | ⟨hlt, hpbuy, e, he, hdiv⟩
  · exact ⟨hnone, hnone⟩
  · obtain ⟨e', he', heproper⟩ :=
      exists_mintPrices hf hr hspot (by omega : 0 ≤ totalBuy - totalSell)
    cases he.symm.trans he'
    exact ⟨haverage heproper (mintPrices_confined he) (by omega) hdiv, hpsell ▸ hnone⟩
  · have heproper := (burnReturns_le hf hr (by omega) (by omega) he).1
    exact ⟨hpbuy ▸ hnone, haverage heproper (burnReturns_confined he) (by omega) hdiv⟩

/-! ### Prices in one denomination -/

theorem mintPrices_distinct {e : DecCoins} {amount : Int}
    (h : b.mintPrices amount reserve = .ok e) : (Table.keys e).Nodup := by
  unfold mintPrices at h
  split at h
  · rw [Pool.sharesOf, Result.bind_eq_ok] at h
    obtain ⟨_, -, h⟩ := h
    exact DecCoins.distinct_of_tabulate h
  · split at h
    · simp only [Result.bind_eq_ok, Result.pure_eq_ok, Except.ok.injEq] at h
      obtain ⟨x, -, rfl⟩ := h
      exact Table.nodup_keys_ofKeys _ _
    · rw [Result.bind_eq_ok] at h
      obtain ⟨_, -, h⟩ := h
      exact DecCoins.distinct_of_tabulate h

theorem burnReturns_distinct {e : DecCoins} {amount : Int}
    (h : b.burnReturns amount reserve = .ok e) : (Table.keys e).Nodup := by
  unfold burnReturns at h
  split at h
  · rw [Pool.sharesOf, Result.bind_eq_ok] at h
    obtain ⟨_, -, h⟩ := h
    exact DecCoins.distinct_of_tabulate h
  · split at h
    · cases h
    · rw [Result.bind_eq_ok] at h
      obtain ⟨_, -, h⟩ := h
      exact DecCoins.distinct_of_tabulate h

/-- How the clearing prices of a batch come about in one denomination, in units of the last place.
What is matched trades at `spot` on both sides; the larger side averages it with what minting, or
burning, the excess comes to. -/
inductive Cleared (totalBuy totalSell spot minted burned buy sell : Int) : Prop where
  | matched (heq : totalBuy = totalSell) (hbuy : buy = spot) (hsell : sell = spot)
  | moreBuys (hlt : totalSell < totalBuy) (hsell : sell = spot)
      (hbuy : buy = roundHalfEven (spot * totalSell + minted) totalBuy)
  | moreSells (hlt : totalBuy < totalSell) (hbuy : buy = spot)
      (hsell : sell = roundHalfEven (spot * totalBuy + burned) totalSell)

/-- The prices of a batch in one denomination, by what the excess of either side comes to in it. -/
theorem cleared_of_clearingPrices {totalBuy totalSell : Int} (hb : 0 ≤ totalBuy)
    (hsell : 0 ≤ totalSell) {p : ClearingPrices}
    (h : b.clearingPrices reserve totalBuy totalSell = .ok p) {spot : DecCoins}
    (hspot : b.spotPrices reserve = .ok spot) {d : Denom} {minted burned : Int}
    (hmint : totalSell < totalBuy → ∀ e, b.mintPrices (totalBuy - totalSell) reserve = .ok e →
      (e.amountOf d).raw = minted)
    (hburn : totalBuy < totalSell → ∀ e, b.burnReturns (totalSell - totalBuy) reserve = .ok e →
      (e.amountOf d).raw = burned) :
    Cleared totalBuy totalSell (spot.amountOf d).raw minted burned (p.buy.amountOf d).raw
      (p.sell.amountOf d).raw := by
  obtain ⟨spot', hspot', hcases⟩ := clearingPrices_eq_ok h
  cases hspot.symm.trans hspot'
  rcases hcases with ⟨heq, rfl⟩ | ⟨hlt, hpsell, e, he, hdiv⟩ | ⟨hlt, hpbuy, e, he, hdiv⟩
  · exact .matched heq rfl rfl
  · refine .moreBuys hlt (by rw [hpsell]) ?_
    rw [averaged_amount (mintPrices_distinct he) (by omega) hdiv, hmint hlt e he]
  · refine .moreSells hlt (by rw [hpbuy]) ?_
    rw [averaged_amount (burnReturns_distinct he) (by omega) hdiv, hburn hlt e he]

/-- The excess comes to what the reserve lacks, or has beyond, the curve's reserve at the supply
that the batch leads to. -/
theorem cleared_of_curve (hswap : b.isSwapper = false) (hhatch : b.inHatch = false) {c : Curve}
    (hc : b.curve = .ok c) {price : Dec} (hprice : c.priceAt b.supply = .ok price)
    {totalBuy totalSell : Int} (hb : 0 ≤ totalBuy) (hsell : 0 ≤ totalSell)
    (hle : totalSell ≤ b.supply) {target : Dec}
    (ht : c.reserveAt (b.supply + totalBuy - totalSell) = .ok target) {p : ClearingPrices}
    (h : b.clearingPrices reserve totalBuy totalSell = .ok p) {d : Denom}
    (hd : d ∈ b.reserveTokens) :
    Cleared totalBuy totalSell price.raw (max (target.raw - reserve.amountOf d * Dec.scale) 0)
      (max (reserve.amountOf d * Dec.scale - target.raw) 0) (p.buy.amountOf d).raw
      (p.sell.amountOf d).raw := by
  have hspot := spotPrices_open reserve hswap hhatch hc hprice
  have hamount : ((b.uniformAmount price).amountOf d).raw = price.raw := by
    rw [uniformAmount, DecCoins.amountOf_uniform, if_pos hd]
  refine hamount ▸ cleared_of_clearingPrices hb hsell h hspot (fun _ e he => ?_) fun _ e he => ?_
  · -- Only the excess is minted, which leads to the supply after the whole batch.
    have hsupply : b.supply + (totalBuy - totalSell) = b.supply + totalBuy - totalSell := by ring
    obtain ⟨e', he', -, hexcess⟩ := mintPrices_open reserve hswap hhatch hc (hsupply ▸ ht)
    cases he.symm.trans he'
    exact hexcess d hd
  · have hsupply : b.supply - (totalSell - totalBuy) = b.supply + totalBuy - totalSell := by ring
    obtain ⟨e', he', -, hexcess⟩ := burnReturns_curve reserve hswap hc
      (by omega : totalSell - totalBuy ≤ b.supply) (hsupply ▸ ht)
    cases he.symm.trans he'
    exact hexcess d hd

theorem exists_clearingPrices_curve (reserve : Coins) (hswap : b.isSwapper = false)
    (hhatch : b.inHatch = false) {c : Curve} (hc : b.curve = .ok c) {price : Dec}
    (hprice : c.priceAt b.supply = .ok price) (htargets : ∀ s, ∃ r, c.reserveAt s = .ok r)
    {totalBuy totalSell : Int} (hb : 0 ≤ totalBuy) (hsell : 0 ≤ totalSell)
    (hle : totalSell ≤ b.supply) :
    ∃ p, b.clearingPrices reserve totalBuy totalSell = .ok p := by
  refine clearingPrices_defined (spotPrices_open reserve hswap hhatch hc hprice) hb hsell
    (fun _ => ?_) fun _ => ?_
  · obtain ⟨target, ht⟩ := htargets (b.supply + (totalBuy - totalSell))
    exact (mintPrices_open reserve hswap hhatch hc ht).imp fun _ he => he.1
  · obtain ⟨target, ht⟩ := htargets (b.supply - (totalSell - totalBuy))
    exact (burnReturns_curve reserve hswap hc (by omega) ht).imp fun _ he => he.1

theorem exists_clearingPrices_pool (reserve : Coins) (hswap : b.isSwapper = true)
    (hs : 0 < b.supply) {totalBuy totalSell : Int} (hb : 0 ≤ totalBuy) (hsell : 0 ≤ totalSell) :
    ∃ p, b.clearingPrices reserve totalBuy totalSell = .ok p ∧ ∀ d ∈ b.reserveTokens,
      Cleared totalBuy totalSell (roundHalfEven (reserve.amountOf d * Dec.scale) b.supply)
        (roundHalfEven (reserve.amountOf d * (totalBuy - totalSell) * Dec.scale) b.supply)
        (roundHalfEven (reserve.amountOf d * (totalSell - totalBuy) * Dec.scale) b.supply)
        (p.buy.amountOf d).raw (p.sell.amountOf d).raw := by
  have hshares (n : Int) := sharesOf_eq_ok reserve b.reserveTokens n hs
  have hmint (n : Int) : b.mintPrices n reserve =
      Pool.sharesOf reserve b.reserveTokens n b.supply := by rw [mintPrices, if_pos hswap]
  have hburn (n : Int) : b.burnReturns n reserve =
      Pool.sharesOf reserve b.reserveTokens n b.supply := by rw [burnReturns, if_pos hswap]
  have hamount {n : Int} {c : DecCoins}
      (hc : Pool.sharesOf reserve b.reserveTokens n b.supply = .ok c) {d : Denom}
      (hd : d ∈ b.reserveTokens) :
      (c.amountOf d).raw = roundHalfEven (reserve.amountOf d * n * Dec.scale) b.supply := by
    obtain ⟨c', hc', -, hamount⟩ := hshares n
    cases hc.symm.trans hc'
    rw [hamount, if_pos hd]
  obtain ⟨spot, hone, -⟩ := hshares 1
  have hspot : b.spotPrices reserve = .ok spot := (spotPrices_swapper hswap reserve).trans hone
  obtain ⟨p, hp⟩ := clearingPrices_defined hspot hb hsell
    (fun _ => (hshares _).imp fun _ hc => (hmint _).trans hc.1)
    fun _ => (hshares _).imp fun _ hc => (hburn _).trans hc.1
  refine ⟨p, hp, fun d hd => ?_⟩
  have hprice := hamount hone hd
  rw [mul_one] at hprice
  exact hprice ▸ cleared_of_clearingPrices hb hsell hp hspot
    (fun _ e he => hamount ((hmint _).symm.trans he) hd)
    fun _ e he => hamount ((hburn _).symm.trans he) hd

end Bond
end BondMarket
