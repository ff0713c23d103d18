import BondMarket.Proofs.Run

/-!
The hatch. A bond in its hatch is sold at a flat price, and each payment is divided between the
reserve and the funding by what is due before and after it, two ceilings of rounded products. The
division never goes wrong: what is due grows with the supply, and a payment that is rounded up moves
the product by no more than a whole and even number of units, which rounding to the nearest, ties to
even, lets through as it is.

So a cycle of a bond in its hatch is never stopped. It fills every buy at the flat price and leaves
the reserve with what is due.
-/

namespace BondMarket

/-! ### What is due -/

/-- What is due at a supply, given the flat price and the share that is funding. -/
def hatchDue (p0 theta : Dec) (supply : Int) : Int :=
  (p0.times supply * (Dec.one - theta)).ceilInt

/-- Of what is paid for some tokens, rounded up, the part that is due to the reserve is neither
negative nor more than all of it. -/
theorem hatchDue_step {p0 theta : Dec} (hp0 : 0 ≤ p0.raw) (htheta : 0 ≤ theta.raw)
    (hshare : theta.raw < Dec.scale) {supply n : Int} (hsupply : 0 ≤ supply) (hn : 0 ≤ n) :
    hatchDue p0 theta supply ≤ hatchDue p0 theta (supply + n) ∧
      hatchDue p0 theta (supply + n) ≤ hatchDue p0 theta supply + (p0.times n).ceilInt := by
  have hkeep : (Dec.one - theta).raw = Dec.scale - theta.raw := by rw [Dec.raw_sub, Dec.raw_one]
  set keep := (Dec.one - theta).raw
  set paid := (p0.times n).ceilInt with hpaid
  have hpaid_nonneg : 0 ≤ paid := Dec.ceilInt_nonneg (mul_nonneg hp0 hn)
  have hbefore : 0 ≤ p0.raw * supply * keep := mul_nonneg (mul_nonneg hp0 hsupply) (by omega)
  have hsum : p0.raw * (supply + n) * keep = p0.raw * supply * keep + p0.raw * n * keep := by ring
  have hgrows : p0.raw * supply * keep ≤ p0.raw * (supply + n) * keep := by
    rw [hsum]
    exact le_add_of_nonneg_right (mul_nonneg (mul_nonneg hp0 hn) (by omega))
  have hbound : p0.raw * (supply + n) * keep ≤
      p0.raw * supply * keep + paid * Dec.scale * Dec.scale := by
    rw [hsum]
    refine Int.add_le_add_left ?_ _
    calc p0.raw * n * keep ≤ paid * Dec.scale * keep :=
          mul_le_mul_of_nonneg_right (Dec.raw_le_ceilInt (p0.times n)) (by omega)
      _ ≤ paid * Dec.scale * Dec.scale :=
          mul_le_mul_of_nonneg_left (by omega) (mul_nonneg hpaid_nonneg Dec.scale_pos.le)
  refine ⟨ceilDiv_mono Dec.scale_pos (roundHalfEven_mono Dec.scale_pos hgrows), ?_⟩
  -- Ties go to the even neighbour, and a whole number of units is an even number of last places.
  have heven : paid * Dec.scale % 2 = 0 := by
    unfold Dec.scale
    omega
  have hshift := roundHalfEven_add_even Dec.scale_pos hbefore heven
    (hbefore.trans (hgrows.trans hbound))
  calc hatchDue p0 theta (supply + n)
      ≤ ceilDiv (roundHalfEven (p0.raw * supply * keep + paid * Dec.scale * Dec.scale) Dec.scale)
          Dec.scale := ceilDiv_mono Dec.scale_pos (roundHalfEven_mono Dec.scale_pos hbound)
    _ = hatchDue p0 theta supply + paid := by
        rw [hshift, ceilDiv_add_mul Dec.scale_pos]
        rfl

/-- The terms on which a bond is sold in its hatch: its one reserve token, the flat price of a
token, and the share of the price that is funding. -/
structure Bond.SoldAt (b : Bond) (d : Denom) (p0 theta : Dec) : Prop where
  tokens : b.reserveTokens = [d]
  price : b.parameters.value "p0" = .ok p0
  share : b.parameters.value "theta" = .ok theta

namespace Bond

variable {b : Bond} {token d : Denom} {p0 theta : Dec}

theorem Formed.exists_soldAt (hf : b.Formed token) (ha : b.isAugmented = true) :
    ∃ d p0 theta, b.SoldAt d p0 theta ∧ 0 ≤ p0.raw ∧ 0 ≤ theta.raw ∧ theta.raw < Dec.scale := by
  obtain ⟨d, hd⟩ := hf.exists_reserveToken ha
  obtain ⟨p0, hp0, hprice⟩ := (hf.hatch ha).price
  obtain ⟨theta, htheta, hshare⟩ := (hf.hatch ha).share
  exact ⟨d, p0, theta, ⟨hd, hp0, htheta⟩, hprice, hshare⟩

theorem SoldAt.nonneg (h : b.SoldAt d p0 theta) (hf : b.Formed token) (ha : b.isAugmented = true) :
    0 ≤ p0.raw ∧ 0 ≤ theta.raw ∧ theta.raw < Dec.scale := by
  obtain ⟨d', p0', theta', h', hsigns⟩ := hf.exists_soldAt ha
  cases h.price.symm.trans h'.price
  cases h.share.symm.trans h'.share
  exact hsigns

theorem SoldAt.hatchReserve_eq (h : b.SoldAt d p0 theta) (supply : Int) :
    b.hatchReserve supply = .ok (hatchDue p0 theta supply) := by
  simp only [hatchReserve, h.price, h.share, Result.ok_bind, Result.pure_eq_ok, hatchDue]

theorem SoldAt.amountOf_times (h : b.SoldAt d p0 theta) (n : Int) :
    ((b.uniformAmount p0).times n).amountOf d = p0.times n := by
  refine Dec.ext ?_
  rw [DecCoins.amountOf_times, uniformAmount, DecCoins.amountOf_uniform,
    if_pos (by simp [h.tokens]), Dec.raw_times]

/-- A buy in a hatch has a plan where it can pay the flat price and the reserve has its due. -/
theorem SoldAt.exists_planBuy (h : b.SoldAt d p0 theta) (hf : b.Formed token)
    (hhatch : b.inHatch = true) (hsupply : 0 ≤ b.supply) {o : BuyOrder} (hn : 0 ≤ o.size)
    (hmax : o.maxPrices.Proper) (hafford : b.Affords o (b.uniformAmount p0)) {reserve : Coins}
    (hdue : reserve.amountOf d = hatchDue p0 theta b.supply) :
    ∃ p, b.planBuy reserve o (b.uniformAmount p0) = .ok p := by
  have ha := inHatch_isAugmented hhatch
  obtain ⟨hp0, htheta, hshare⟩ := h.nonneg hf ha
  cases hplan : b.planBuy reserve o (b.uniformAmount p0) with
  | ok p => exact ⟨p, rfl⟩
  | error e =>
      exfalso
      have hproper : (b.uniformAmount p0).Proper := DecCoins.proper_uniform _ hp0
      obtain ⟨-, paid, hpaid, hceil, hsplit⟩ :=
        splitHatchPayment_of_planBuy hf.txFee hproper hn hmax hafford hplan
      obtain ⟨-, d', hd', due, hafter, hrange⟩ :=
        (splitHatchPayment_spec hf ha reserve o.size hpaid).1 e hsplit
      obtain rfl : d' = d := by simpa [h.tokens] using hd'
      cases (h.hatchReserve_eq _).symm.trans hafter
      obtain ⟨hgrows, hbound⟩ := hatchDue_step hp0 htheta hshare hsupply hn
      rw [hdue, hceil, h.amountOf_times] at hrange
      omega

end Bond

/-! ### Fills -/

/-- A buy that is filled in a hatch at a supply: it is charged the flat price, rounded up. The
reserve gets by how much its due grows, which is a part of what is charged, and the rest is funding.
-/
structure HatchFill (p0 theta : Dec) (d : Denom) (supply : Int) (o : BuyOrder) (out : Outcome) :
    Prop where
  reported : o.Reported out
  filled : out.isFill = true
  charged : out.prices.amountOf d = (p0.times o.size).ceilInt
  funding : out.funding.amountOf d =
    out.prices.amountOf d - (hatchDue p0 theta (supply + o.size) - hatchDue p0 theta supply)
  reserve_nonneg : 0 ≤ hatchDue p0 theta (supply + o.size) - hatchDue p0 theta supply
  reserve_le : hatchDue p0 theta (supply + o.size) - hatchDue p0 theta supply ≤
    out.prices.amountOf d

inductive HatchFills (p0 theta : Dec) (d : Denom) : Int → List BuyOrder → List Outcome → Prop
  | nil (supply : Int) : HatchFills p0 theta d supply [] []
  | cons {supply : Int} {o : BuyOrder} {orders : List BuyOrder} {out : Outcome}
      {outs : List Outcome} (h : HatchFill p0 theta d supply o out)
      (rest : HatchFills p0 theta d (supply + o.size) orders outs) :
      HatchFills p0 theta d supply (o :: orders) (out :: outs)

/-- What an account gets of a filled buy, by what is reported of it: the tokens and the refund if
the account is the buyer's, the funding and the fees if it is where the fees go. -/
def Outcome.credit (out : Outcome) (feeAddress a : Account) (d : Denom) : Int :=
  (if out.address = a then out.amount.amountOf d + out.returned.amountOf d else 0) +
    if feeAddress = a then out.funding.amountOf d + out.fees.amountOf d else 0

theorem HatchFills.reserveGain_eq {p0 theta : Dec} {d : Denom} {supply : Int}
    {orders : List BuyOrder} {outs : List Outcome} (h : HatchFills p0 theta d supply orders outs) :
    outs.map (fun out => out.reserveGain d) =
      outs.map fun out => out.prices.amountOf d - out.funding.amountOf d := by
  induction h with
  | nil => rfl
  | cons hfill _ ih =>
      rw [List.map_cons, List.map_cons, ih]
      simp [Outcome.reserveGain, hfill.filled, hfill.reported.kind]

theorem Bond.SoldAt.hatchFill {b : Bond} {token d : Denom} {p0 theta : Dec}
    (h : b.SoldAt d p0 theta) (hf : b.Formed token) (hhatch : b.inHatch = true)
    (hsupply : 0 ≤ b.supply) {o : BuyOrder} (hopen : o.isOpen = true) (hn : 0 ≤ o.size)
    {reserve : Coins} (hdue : reserve.amountOf d = hatchDue p0 theta b.supply) {plan : BuyPlan}
    (hplan : b.BuyPlanned reserve o (b.uniformAmount p0) plan) :
    HatchFill p0 theta d b.supply o (o.filled plan) := by
  obtain ⟨hp0, htheta, hshare⟩ := h.nonneg hf (inHatch_isAugmented hhatch)
  obtain ⟨hgrows, hbound⟩ := hatchDue_step hp0 htheta hshare hsupply hn
  have hcharged : plan.cost.prices.amountOf d = (p0.times o.size).ceilInt := by
    rw [hplan.charged, h.amountOf_times]
  have hsplits := hplan.splits d
  have hafter := (h.hatchReserve_eq _).symm.trans (hplan.due hhatch d (by simp [h.tokens]))
  have hto : hatchDue p0 theta (b.supply + o.size) =
      reserve.amountOf d + plan.toReserve.amountOf d := Except.ok.inj hafter
  exact {
    reported := hplan.reported hopen, filled := rfl, charged := hcharged
    funding := by
      show plan.funding.amountOf d = plan.cost.prices.amountOf d - _
      omega
    reserve_nonneg := by omega
    reserve_le := by
      show _ ≤ plan.cost.prices.amountOf d
      omega }

namespace Market

variable {cfg : Config} {bonded : Denom → Prop} {m m₁ : Market} {token d : Denom} {b : Bond}
  {β γ : Batch} {p : ClearingPrices} {total : Int} {reserve : Denom → Int} {p0 theta : Dec}

theorem flow_buyMoves_user {o : BuyOrder} {plan : BuyPlan} {prices : DecCoins} {r : Coins}
    (haddress : b.reserveAddress = reserveAccountFor token) (hplan : b.BuyPlanned r o prices plan)
    {a : Account} (ha : cfg.IsUser a) (d : Denom) :
    Move.flow a d (b.buyMoves cfg o plan) = (o.filled plan).credit b.feeAddress a d := by
  have hbought := CoinEntries.amountOf_entries (Coin.proper_toCoins o.amount) d
  have hreserve : b.reserveAddress ≠ a := by
    rw [haddress]
    exact (ha.ne_reserve token).symm
  simp only [Bond.buyMoves, Move.flow_cons, Move.flow_append, LedgerCall.flow, hbought,
    Move.flow_transferIfAny hplan.toReserve, Move.flow_transferIfAny hplan.funding,
    Move.flow_transferIfAny hplan.fees, Move.flow_transferIfAny hplan.refund, hreserve,
    ha.ne_escrow.symm, ha.ne_mintBurn.symm, if_false, Outcome.credit, BuyOrder.filled]
  by_cases hbuyer : o.address = a <;> by_cases hfee : b.feeAddress = a <;>
    simp only [hbuyer, hfee, if_true, if_false] <;> omega

/-- In a hatch the reserve has what is due at every supply on the way, if it has had its due from
the beginning. -/
theorem Executing.amountOf_reserveOf_inHatch {supply : Int} {r : Coins}
    (h : Executing cfg bonded token b p m₁ total reserve γ β m)
    (hb : Table.get? m.store.bonds token = some (b.marked supply r)) (hsold : b.SoldAt d p0 theta)
    (hhatch : b.inHatch = true) (hraised : m₁.Raised b) :
    (m.reserveOf (b.marked supply r)).amountOf d = hatchDue p0 theta supply := by
  have hsold' : (b.marked supply r).SoldAt d p0 theta := { hsold with }
  have hmem : d ∈ (b.marked supply r).reserveTokens := by simp [hsold'.tokens]
  rw [amountOf_reserveOf, if_pos hmem]
  exact Except.ok.inj
    ((h.raised hhatch hraised _ hb d hmem).symm.trans (hsold'.hatchReserve_eq _))

theorem performBuy_inHatch (hsep : cfg.Separate) (hsold : b.SoldAt d p0 theta)
    (hhatch : b.inHatch = true) (hraised : m₁.Raised b) {supply : Int} {o : BuyOrder}
    {rest : List BuyOrder} (hopen : o.isOpen = true) (hprice : p.buy = b.uniformAmount p0)
    (hafford : b.Affords o (b.uniformAmount p0))
    (h : Executing cfg bonded token b p m₁ total reserve γ (β.withBuys (o :: rest)) m)
    (hsupply : supply + (β.withBuys (o :: rest)).totalBuy - β.totalSell = total) :
    (performBuy cfg token o p.buy).Sat m
      (fun out m' => HatchFill p0 theta d supply o out ∧
        Executing cfg bonded token b p m₁ total reserve γ (β.withBuys rest) m' ∧
        ∀ a, cfg.IsUser a → ∀ e, m'.balance a e = m.balance a e + out.credit b.feeAddress a e)
      (fun _ _ => False) := by
  obtain ⟨supply', r, hb, htotal, hheld⟩ := h.held
  obtain rfl : supply' = supply := by
    rw [Batch.totalSell_withBuys] at htotal
    omega
  have ho := hheld.orders.buys o List.mem_cons_self
  have hsold' : (b.marked supply' r).SoldAt d p0 theta := { hsold with }
  have hproper : p.buy.Proper := hprice ▸ DecCoins.proper_uniform _
    (hsold'.nonneg hheld.formed (Bond.inHatch_isAugmented hhatch)).1
  have hdue := h.amountOf_reserveOf_inHatch hb hsold hhatch hraised
  obtain ⟨plan, hplan⟩ := hsold'.exists_planBuy hheld.formed hhatch hheld.supply_nonneg
    ho.size_pos.le ho.maxPrices hafford hdue
  have hplan : (b.marked supply' r).planBuy (m.reserveOf (b.marked supply' r)) o p.buy = .ok plan :=
    hprice ▸ hplan
  have hplanned :=
    (Bond.planBuy_spec hheld.formed _ ho.size_pos.le ho.maxPrices hproper).2 plan hplan
  have hprices : p.buy.Confined b.reserveTokens := hprice ▸ DecCoins.confined_uniform _ _
  apply (performBuy_sat_of_plan hsep hprices hopen h hb htotal hheld hplan hplanned).of_total
  rintro _ m' ⟨rfl, hexec, hbalance⟩
  refine ⟨hsold'.hatchFill hheld.formed hhatch hheld.supply_nonneg hopen ho.size_pos.le hdue
    (hprice ▸ hplanned), hexec, fun a ha e => ?_⟩
  exact (hbalance a e).trans
    (congrArg _ (flow_buyMoves_user hheld.formed.address hplanned ha e))

theorem performBuys_inHatch (hsep : cfg.Separate) (hsold : b.SoldAt d p0 theta)
    (hhatch : b.inHatch = true) (hraised : m₁.Raised b) {supply : Int} {orders : List BuyOrder}
    (hprice : orders ≠ [] → p.buy = b.uniformAmount p0)
    (horders : ∀ o ∈ orders, o.isOpen = true ∧ b.Affords o (b.uniformAmount p0))
    (h : Executing cfg bonded token b p m₁ total reserve γ (β.withBuys orders) m)
    (hsupply : supply + (β.withBuys orders).totalBuy - β.totalSell = total) :
    (gather (fun o => some <$> performBuy cfg token o p.buy) orders).Sat m
      (fun os m' => HatchFills p0 theta d supply orders os ∧
        Executing cfg bonded token b p m₁ total reserve γ (β.withBuys []) m' ∧
        ∀ a, cfg.IsUser a → ∀ e, m'.balance a e =
          m.balance a e + (os.map fun out => out.credit b.feeAddress a e).sum)
      (fun _ _ => False) := by
  induction orders generalizing m supply with
  | nil =>
      rw [gather, Action.sat_pure]
      exact ⟨.nil supply, h, fun a _ e => by simp⟩
  | cons o rest ih =>
      obtain ⟨hopen, hafford⟩ := horders o List.mem_cons_self
      have hprice := hprice (List.cons_ne_nil _ _)
      rw [gather, Action.sat_bind, Action.sat_map]
      apply (performBuy_inHatch hsep hsold hhatch hraised hopen hprice hafford h hsupply).imp
      intro out m₂ hfilled
      obtain ⟨hfill, hexec, hcredit⟩ := hfilled
      have hsupply' : supply + o.size + (β.withBuys rest).totalBuy - β.totalSell = total := by
        rw [Batch.totalBuy_withBuys hopen] at hsupply
        omega
      rw [Action.sat_bind]
      apply (ih (fun _ => hprice) (fun o' ho' => horders o' (List.mem_cons_of_mem _ ho')) hexec
        hsupply').imp
      intro outs m₃ hrest
      obtain ⟨hfills, hexec', hcredit'⟩ := hrest
      rw [Action.sat_pure]
      refine ⟨.cons hfill hfills, hexec', fun a ha e => ?_⟩
      rw [hcredit' a ha, hcredit a ha, Option.toList_some, List.singleton_append, List.map_cons,
        List.sum_cons, add_assoc]

/-- What settling the batch of a hatch comes to: all buys are filled at the flat price, and users
have what is reported. -/
structure HatchSettled (cfg : Config) (b : Bond) (p0 theta : Dec) (d : Denom) (β : Batch)
    (m : Market) (buyPrices : DecCoins) (outs : List Outcome) (m' : Market) : Prop where
  prices : β.buys ≠ [] → buyPrices = b.uniformAmount p0
  fills : HatchFills p0 theta d b.supply β.buys outs
  credit : ∀ a, cfg.IsUser a → ∀ e, m'.balance a e =
    m.balance a e + (outs.map fun out => out.credit b.feeAddress a e).sum

theorem Hatching.buyPrices_eq (h : m.Hatching b β) (hheld : Held cfg m token b β)
    (hc : m.Current b β) (hhatch : b.inHatch = true) (hsold : b.SoldAt d p0 theta)
    (hne : β.buys ≠ []) : β.buyPrices = b.uniformAmount p0 := by
  obtain ⟨o, ho⟩ := List.exists_mem_of_ne_nil _ hne
  have hopen : o ∈ β.openBuys := List.mem_filter.2 ⟨ho, h.isOpen o ho⟩
  exact (hheld.prices_inHatch hc hhatch hsold.price (hheld.orders.total_pos_of_buy hopen)).1

theorem performOrders_inHatch (hsep : cfg.Separate) (h : Kept cfg bonded m)
    (hb : Table.get? m.store.bonds token = some b)
    (hβ : Table.get? m.store.batches token = some β) (hc : m.Current b β)
    (hsold : b.SoldAt d p0 theta) (hhatch : b.inHatch = true) (hhatching : m.Hatching b β)
    (hswaps : β.swaps = []) :
    (performOrders cfg token).Sat m
      (fun outs m' => m'.violations token = .ok [] ∧
        HatchSettled cfg b p0 theta d β m β.buyPrices outs m')
      (fun _ _ => False) := by
  have hheld := h.held_of_get? hb hβ
  have hbuys : β.openBuys = β.buys := List.filter_eq_self.2 fun o ho => hhatching.isOpen o ho
  have hprice := hhatching.buyPrices_eq hheld hc hhatch hsold
  have hexec := h.executing hb hβ ⟨β.buyPrices, β.sellPrices⟩
  have hsupply : b.supply + β.pending.totalBuy - β.pending.totalSell =
      b.supply + β.totalBuy - β.totalSell := by
    rw [hheld.orders.totalBuy_pending, hheld.orders.totalSell_pending]
  simp only [performOrders, Action.sat_bind, Action.sat_get, Action.sat_lift_of_ok (batch_eq_ok hβ),
    hheld.orders.openSells_eq_nil (hheld.hatch hhatch).2, hswaps, List.length_nil, List.range_zero,
    gather, Action.sat_pure, List.append_nil]
  apply (performBuys_inHatch (β := β.withSells β.openSells) hsep hsold hhatch hhatching.raised
    (fun hne => hprice (hbuys ▸ hne))
    (fun o ho => ⟨(List.mem_filter.1 ho).2, hhatching.pays o (hbuys ▸ ho) p0 hsold.price⟩)
    hexec hsupply).of_total
  intro outs m' hfilled
  obtain ⟨hfills, hexec', hcredit⟩ := hfilled
  exact ⟨hexec'.violations_eq_nil hheld.orders.violations_eq_nil, hprice, hbuys ▸ hfills, hcredit⟩

/-- Settling the batch of a hatch comes to its end. Every buy can pay, so that the pass over the
buys leaves them all. -/
theorem settle_inHatch (hsep : cfg.Separate) (h : Kept cfg bonded m)
    (hb : Table.get? m.store.bonds token = some b)
    (hβ : Table.get? m.store.batches token = some β) (hc : m.Current b β)
    (hsold : b.SoldAt d p0 theta) (hhatch : b.inHatch = true) (hhatching : m.Hatching b β)
    (hswaps : β.swaps = []) :
    (settle cfg token).Sat m
      (fun s m' => HatchSettled cfg b p0 theta d β m s.buyPrices s.outcomes m')
      (fun _ _ => False) := by
  have hheld := h.held_of_get? hb hβ
  have hproper : (b.uniformAmount p0).Proper := DecCoins.proper_uniform _
    (hsold.nonneg hheld.formed (Bond.inHatch_isAugmented hhatch)).1
  have hpass : cancelUnfulfillable cfg token m = .ok [] m := by
    refine cancelUnfulfillable_eq_nil hb hβ fun o ho _ => ?_
    have hformed := hheld.orders.buys o ho
    rw [hhatching.buyPrices_eq hheld hc hhatch hsold (List.ne_nil_of_mem ho)]
    rcases Bond.checkAffordable_spec hheld.formed.txFee hproper hformed.size_pos.le
      hformed.maxPrices with ⟨-, hok⟩ | ⟨hnot, -⟩
    · exact hok
    · exact absurd (hhatching.pays o ho p0 hsold.price) hnot
  have hclosed : (β.buys.filter fun o => !o.isOpen) = [] :=
    List.filter_eq_nil_iff.2 fun o ho => by simp [hhatching.isOpen o ho]
  apply (settle_sat_of_pass hpass hβ
    (performOrders_inHatch hsep h hb hβ hc hsold hhatch hhatching hswaps)).imp
  rintro _ m' ⟨outs, rfl, hsettled⟩
  simpa only [Batch.settlement, hclosed, List.map_nil, List.nil_append] using hsettled

theorem closeBatch_inHatch {fills : Denom → Nat} (hsep : cfg.Separate)
    (h : Sound cfg bonded fills m) (hb : Table.get? m.store.bonds token = some b)
    (hβ : Table.get? m.store.batches token = some β) (hsold : b.SoldAt d p0 theta)
    (hhatch : b.inHatch = true) :
    (closeBatch cfg token).Sat m
      (fun s m' => Closed cfg bonded fills token b β m s m' ∧
        HatchSettled cfg b p0 theta d β m s.buyPrices s.outcomes m')
      (fun _ _ => False) := by
  have hc := h.current token b β hb hβ
  have hswaps : β.swaps = [] := by
    by_contra hne
    have hswapper := (h.trades token b β hb hβ hne).2.2
    rw [Bond.isSwapper_eq_false (Bond.inHatch_isAugmented hhatch)] at hswapper
    cases hswapper
  have hsettled := settle_inHatch hsep h.kept hb hβ hc hsold hhatch
    (h.hatching token b β hb hβ hhatch) hswaps
  have hdrained := settle_sat hsep h.kept hb hβ hc (h.backed token b hb)
  have hboth : (settle cfg token).Sat m (Drained cfg bonded token (fills token) b β m)
      (fun _ _ => False) := (hdrained.and hsettled).mono (fun _ _ h => h.1) fun _ _ h => h.2
  apply (closeBatch_closed h hb hβ hboth).imp
  intro s m' hclosed
  obtain ⟨s₀, m₂, hrun, hsame, -, hledger⟩ := hclosed.settled
  obtain ⟨hprices, hfills, hcredit⟩ := hsettled.of_ok hrun
  rw [hsame]
  refine ⟨hsame ▸ hclosed, hprices, hfills, fun a ha e => ?_⟩
  rw [balance, hledger]
  exact hcredit a ha e

end Market

/-- In every run the reserve account of a bond in its hatch holds what is due at its supply, and no
buy of its batch is cancelled. A cycle of the bond is never stopped. If it closes the batch, the
batch has cleared at the flat price, every buy has been filled in its turn, with the part of what it
was charged that the due has grown by going to the reserve and the rest being funding, and the
accounts of users, among them that of the fees, have changed by what is reported. -/
theorem CleanRun.hatch_exact {cfg : Config} {bonded : Denom → Prop} {log : List Response}
    {m : Market} (h : CleanRun cfg bonded log m) {t : Denom} {b : Bond}
    (hb : m.store.bond? t = some b) (haugmented : b.isAugmented = true)
    (hphase : b.phase = .hatch) :
    ∃ d p0 theta β, b.SoldAt d p0 theta ∧ m.store.batch t = .ok β ∧
      m.balance b.reserveAddress d = (p0.times b.supply * (Dec.one - theta)).ceilInt ∧
      (∀ o ∈ β.buys, o.isOpen = true) ∧
      ∃ s m', Market.elapseCycle cfg t m = .ok s m' ∧ ∀ s' ∈ s,
        (β.buys ≠ [] → s'.buyPrices = b.uniformAmount p0) ∧
        HatchFills p0 theta d b.supply β.buys s'.outcomes ∧
        m'.balance b.reserveAddress d = m.balance b.reserveAddress d +
          (s'.outcomes.map fun out => out.prices.amountOf d - out.funding.amountOf d).sum ∧
        ∀ a, cfg.IsUser a → ∀ e, m'.balance a e =
          m.balance a e + (s'.outcomes.map fun out => out.credit b.feeAddress a e).sum := by
  obtain ⟨hsep, hsound⟩ := h.sound
  obtain ⟨-, β, hβ, hheld⟩ := hsound.kept.held t b hb
  have hhatch : b.inHatch = true := by simp [Bond.inHatch, haugmented, hphase]
  obtain ⟨d, p0, theta, hsold, -⟩ := hheld.formed.exists_soldAt haugmented
  have hhatching := hsound.hatching t b β hb hβ hhatch
  have hmem : d ∈ b.reserveTokens := by simp [hsold.tokens]
  have hdue := (hsold.hatchReserve_eq _).symm.trans (hhatching.raised d hmem)
  have hcounted := hsound.countDown hb hβ (β.blocksRemaining - 1)
  obtain ⟨s, m', hrun, hcycle⟩ := (Market.elapseCycle_sat_of_close hb hβ fun _ =>
    Market.closeBatch_inHatch hsep hcounted hb (Market.get?_withBatch ..) hsold hhatch).exists_ok
  refine ⟨d, p0, theta, β, hsold, Market.batch_eq_ok hβ, (Except.ok.inj hdue).symm,
    hhatching.isOpen, s, m', hrun, fun s' hs' => ?_⟩
  rcases hcycle with ⟨-, rfl, -⟩ | ⟨-, s₁, rfl, hclosed, hsettled⟩
  · cases hs'
  · cases hs'
    refine ⟨hsettled.prices, hsettled.fills, ?_, hsettled.credit⟩
    have hgained := hclosed.reconciled.reserve d
    rw [hsettled.fills.reserveGain_eq, ← hheld.formed.address] at hgained
    exact hgained

/-- Four tokens of a hatch have left three units in the reserve. Five more are filled at a flat
price of one unit: three units go to the reserve, as six are due at nine tokens, and two are
funding. -/
theorem hatch_exact_five :
    ∃ log m b s m', CleanRun {} (· ∈ ["abc"]) log m ∧ m.store.bond? "abc" = some b ∧
      b.isAugmented = true ∧ b.phase = .hatch ∧ b.supply = 4 ∧
      m.balance b.reserveAddress "res" = 3 ∧
      Market.elapseCycle {} "abc" m = .ok (some s) m' ∧ s.buyPrices = b.uniformAmount Dec.one ∧
      s.outcomes.length = 1 ∧
      m'.balance b.reserveAddress "res" = m.balance b.reserveAddress "res" + 3 ∧
      m'.balance "fees" "res" = m.balance "fees" "res" + 2 := by
  obtain ⟨log, m, hrun, hcheck⟩ := CleanRun.exists_of_playClean ["abc"] hatchEvents
    (fun m => (m.store.bond? "abc").any fun b =>
      (b.isAugmented = true ∧ b.phase = .hatch ∧ b.supply = 4 ∧ b.feeAddress = "fees" ∧
        b.reserveTokens = ["res"] ∧ (b.parameters.value "p0").toOption = some Dec.one ∧
        (b.parameters.value "theta").toOption = some ⟨400000000000000000⟩) ∧
      (Table.get? m.store.batches "abc").any (fun β => β.buys ≠ []) ∧
      (Market.elapseCycle {} "abc").Sat m (fun s _ => s.any (fun s => s.outcomes.length = 1 ∧
        (s.outcomes.map fun out => out.prices.amountOf "res" - out.funding.amountOf "res").sum = 3 ∧
        (s.outcomes.map fun out => out.credit "fees" "fees" "res").sum = 2) = true)
        fun _ _ => False)
    (by decide +kernel)
  obtain ⟨b, hb, hcheck⟩ := (Option.any_eq_true _ _).1 hcheck
  obtain ⟨⟨haugmented, hphase, hsupply, hfee, htokens, hp0, htheta⟩, hbuys, hcycle⟩ :=
    of_decide_eq_true hcheck
  obtain ⟨_, m₁, hs₁, hsums⟩ := hcycle.exists_ok
  obtain ⟨s, rfl, hsums⟩ := (Option.any_eq_true _ _).1 hsums
  obtain ⟨hone, hreserve, hfees⟩ := of_decide_eq_true hsums
  obtain ⟨d, p0, theta, β, hsold, hβ, hdue, -, _, m', hs, hclosing⟩ :=
    hrun.hatch_exact hb haugmented hphase
  cases hs₁.symm.trans hs
  obtain ⟨β', hβ', hbuys⟩ := (Option.any_eq_true _ _).1 hbuys
  obtain rfl : β' = β := Except.ok.inj ((Market.batch_eq_ok hβ').symm.trans hβ)
  obtain ⟨hprices, -, hgained, hcredit⟩ := hclosing s rfl
  obtain rfl : d = "res" := by simpa [htokens] using hsold.tokens.symm
  rw [hsold.price] at hp0
  rw [hsold.share] at htheta
  obtain rfl : p0 = Dec.one := Option.some.inj hp0
  obtain rfl : theta = ⟨400000000000000000⟩ := Option.some.inj htheta
  refine ⟨log, m, b, s, m₁, hrun, hb, haugmented, hphase, hsupply, ?_, hs,
    hprices (of_decide_eq_true hbuys), hone, ?_, ?_⟩
  · rw [hdue, hsupply]
    decide
  · rw [hgained, hreserve]
  · rw [hcredit "fees" (by decide), hfee, hfees]

end BondMarket
