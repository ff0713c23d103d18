import BondMarket.Market.Execution
import BondMarket.Proofs.Pricing

/-!
What an order moves, as settled before the first coin moves. Where the terms of the bond are
formed and the prices proper, a plan divides what the order had put into escrow, or what the
reserve gives up, without a rest; and where there is no plan, the order is either turned down or
the market is at fault, but no computation goes wrong.
-/

namespace BondMarket
namespace Bond

variable {b : Bond} {token : Denom} {prices : DecCoins}

/-! ### What a buy costs -/

/-- A buy can pay for itself: what it owes is in no denomination more than it may pay. -/
def Affords (b : Bond) (o : BuyOrder) (prices : DecCoins) : Prop :=
  ∃ cost, b.buyCost o.size prices = .ok cost ∧
    ∀ d, cost.total.amountOf d ≤ o.maxPrices.amountOf d

theorem buyCost_spec (htx : 0 ≤ b.txFee.raw) (hp : prices.Proper) {n : Int} (hn : 0 ≤ n) :
    ∃ cost, b.buyCost n prices = .ok cost ∧ cost.prices.Proper ∧ cost.fees.Proper ∧
      cost.total.Proper ∧
      (∀ d, cost.total.amountOf d = cost.prices.amountOf d + cost.fees.amountOf d) ∧
      (∀ d, cost.prices.amountOf d = ((prices.times n).amountOf d).ceilInt) ∧
      ∀ d, cost.fees.amountOf d = Fee.due ((prices.times n).amountOf d) b.txFee := by
  have hvalues := hp.times hn
  obtain ⟨rounded, hr, hrproper, hramount⟩ := DecCoins.roundUp_spec hvalues
  obtain ⟨fees, hfees, hfproper, hfamount⟩ := Fee.ofValues_spec hvalues htx
  obtain ⟨total, ht, htproper, htamount⟩ := Coins.add_spec hrproper hfproper
  refine ⟨⟨rounded, fees, total⟩, ?_, hrproper, hfproper, htproper, htamount, hramount, hfamount⟩
  simp [buyCost, hr, txFees, hfees, ht]

theorem affords_iff (htx : 0 ≤ b.txFee.raw) (hp : prices.Proper) {o : BuyOrder} (hn : 0 ≤ o.size)
    (hmax : o.maxPrices.Proper) {cost : BuyCost} (hc : b.buyCost o.size prices = .ok cost) :
    b.Affords o prices ↔ cost.total.anyAbove o.maxPrices = false := by
  obtain ⟨cost', hc', -, -, htotal, -⟩ := buyCost_spec htx hp hn
  cases hc.symm.trans hc'
  rw [Coins.anyAbove_eq_false_iff htotal hmax]
  constructor
  · rintro ⟨cost', hc', hle⟩
    cases hc.symm.trans hc'
    exact hle
  · exact fun hle => ⟨cost, hc, hle⟩

theorem checkAffordable_spec (htx : 0 ≤ b.txFee.raw) (hp : prices.Proper) {o : BuyOrder}
    (hn : 0 ≤ o.size) (hmax : o.maxPrices.Proper) :
    (b.Affords o prices ∧ b.checkAffordable o prices = .ok ()) ∨
      (¬ b.Affords o prices ∧
        ∃ detail, b.checkAffordable o prices = .error (.rejected .maxPriceExceeded detail)) := by
  obtain ⟨cost, hc, -⟩ := buyCost_spec htx hp hn
  have hiff := affords_iff htx hp hn hmax hc
  cases habove : cost.total.anyAbove o.maxPrices with
  | false =>
      refine .inl ⟨hiff.2 habove, ?_⟩
      simp [checkAffordable, hc, habove]
  | true =>
      refine .inr ⟨fun h => ?_, ?_⟩
      · rw [hiff.1 h] at habove
        cases habove
      · simp only [checkAffordable, hc, Result.ok_bind, habove, if_true]
        exact ⟨_, rfl⟩

/-! ### Plans of buys -/

/-- What the reserve has to hold in a hatch at a supply: its flat price, less the share that is
funding, rounded up. -/
def hatchReserve (b : Bond) (supply : Int) : Result Int := do
  let p0 ← b.parameters.value "p0"
  let theta ← b.parameters.value "theta"
  return (p0.times supply * (Dec.one - theta)).ceilInt

theorem hatchReserve_zero (h : b.HatchTerms) : b.hatchReserve 0 = .ok 0 := by
  obtain ⟨p0, hp0, -⟩ := h.price
  obtain ⟨theta, htheta, -⟩ := h.share
  have hzero : p0.times 0 * (Dec.one - theta) = Dec.zero := Dec.ext (by
    rw [Dec.raw_mul, Dec.raw_times, mul_zero, zero_mul, roundHalfEven_zero Dec.scale_pos,
      Dec.raw_zero])
  simp [hatchReserve, hp0, htheta, hzero, Dec.ceilInt, ceilDiv]

/-- A plan of a buy divides what the buy had put into escrow into the price, the fees and the
refund, and the price, which is rounded up, between the reserve and the funding. Outside a hatch the
reserve gets all of the price; in a hatch it gets what brings it to its due. -/
structure BuyPlanned (b : Bond) (reserve : Coins) (o : BuyOrder) (prices : DecCoins) (p : BuyPlan) :
    Prop where
  affords : b.Affords o prices
  toReserve : p.toReserve.Proper
  funding : p.funding.Proper
  fees : p.cost.fees.Proper
  refund : p.refund.Proper
  splits : ∀ d, p.toReserve.amountOf d + p.funding.amountOf d = p.cost.prices.amountOf d
  divides : ∀ d, p.cost.prices.amountOf d + p.cost.fees.amountOf d + p.refund.amountOf d =
    o.maxPrices.amountOf d
  charged : ∀ d, p.cost.prices.amountOf d = ((prices.times o.size).amountOf d).ceilInt
  price : b.inHatch = false →
    ∀ d, p.toReserve.amountOf d = ((prices.times o.size).amountOf d).ceilInt
  due : b.inHatch = true → ∀ d ∈ b.reserveTokens, b.hatchReserve (b.supply + o.size) =
    .ok (reserve.amountOf d + p.toReserve.amountOf d)

theorem BuyPlanned.toReserve_eq_zero {reserve : Coins} {o : BuyOrder} {p : BuyPlan}
    (h : b.BuyPlanned reserve o prices p) (hprices : prices.Confined b.reserveTokens) {d : Denom}
    (hd : d ∉ b.reserveTokens) : p.toReserve.amountOf d = 0 := by
  have hcharged := h.charged d
  rw [hprices.times _ d hd, show Dec.zero.ceilInt = 0 by decide] at hcharged
  have hsplits := h.splits d
  have hto := h.toReserve.amountOf_nonneg d
  have hfunding := h.funding.amountOf_nonneg d
  omega

def Undivided (e : Error) : Prop :=
  ∃ (paid owed : Int) (d : Denom), e = .violated
    [s!"{Code.insufficientReserveToBuy.text}: {paid}{d} paid, {owed}{d} owed to reserve"]

/-- The errors of a buy that has no plan: it cannot pay for itself, or in a hatch its payment cannot
be divided. -/
inductive BuyUnplanned (b : Bond) (o : BuyOrder) : Error → Prop
  | price (cost limit : String) : BuyUnplanned b o
      (.violated [s!"buy from {o.address} costs {cost} > max prices {limit}"])
  | division {e : Error} (hhatch : b.inHatch = true) (h : Undivided e) : BuyUnplanned b o e

/-- A payment in a hatch is divided so that the reserve gets its due. It cannot be divided only
where the reserve has more than is due, or lacks more than was paid. -/
theorem splitHatchPayment_spec (hf : b.Formed token) (ha : b.isAugmented = true)
    (reserve : Coins) (amount : Int) {paid : Coins} (hpaid : paid.Proper) :
    (∀ e, b.splitHatchPayment reserve amount paid = .error e → Undivided e ∧
      ∃ d ∈ b.reserveTokens, ∃ due, b.hatchReserve (b.supply + amount) = .ok due ∧
        (due < reserve.amountOf d ∨ reserve.amountOf d + paid.amountOf d < due)) ∧
      ∀ p, b.splitHatchPayment reserve amount paid = .ok p →
        p.1.Proper ∧ p.2.Proper ∧ (∀ d, p.1.amountOf d + p.2.amountOf d = paid.amountOf d) ∧
          ∀ d ∈ b.reserveTokens, b.hatchReserve (b.supply + amount) =
            .ok (reserve.amountOf d + p.1.amountOf d) := by
  obtain ⟨p0, hp0, -⟩ := (hf.hatch ha).price
  obtain ⟨theta, htheta, -⟩ := (hf.hatch ha).share
  obtain ⟨r, hr⟩ := hf.exists_reserveToken ha
  set owed := ((p0.times (b.supply + amount) * (Dec.one - theta)).ceilInt - reserve.amountOf r)
    with howed
  -- What is owed to the reserve has to fit into the payment; otherwise the settlement is stopped.
  by_cases hrange : owed < 0 ∨ paid.amountOf r < owed
  · have herror : ∃ e, b.splitHatchPayment reserve amount paid = .error e ∧ Undivided e := by
      simp only [splitHatchPayment, hr, sortedTexts, sortedTexts.insertText, hp0, htheta,
        Result.ok_bind, ← howed, hrange, if_true]
      exact ⟨_, rfl, _, _, _, rfl⟩
    obtain ⟨e, herror, hundivided⟩ := herror
    rw [herror]
    refine Result.outcomes_error ⟨hundivided, r, by simp [hr],
      (p0.times (b.supply + amount) * (Dec.one - theta)).ceilInt, ?_, by omega⟩
    simp only [hatchReserve, hp0, htheta, Result.ok_bind, Result.pure_eq_ok]
  · have hsplit : b.splitHatchPayment reserve amount paid = (do
        let toReserve : Coins := if owed = 0 then [] else [(r, owed)]
        return (toReserve, ← paid.sub toReserve)) := by
      simp only [splitHatchPayment, hr, sortedTexts, sortedTexts.insertText, hp0, htheta,
        Result.ok_bind, ← howed, hrange, if_false, Table.ofKeys, List.foldl_cons, List.foldl_nil,
        Table.set]
    rw [hsplit]
    set toReserve : Coins := if owed = 0 then [] else [(r, owed)] with htoReserve
    have hamount : ∀ d, toReserve.amountOf d = if r = d then owed else 0 := fun d => by
      by_cases hz : owed = 0 <;> simp [htoReserve, hz, Coins.amountOf_cons]
    have hproper : toReserve.Proper := by
      refine Coins.proper_of_amounts ?_ fun d => ?_
      · rw [htoReserve]
        split <;> simp
      · rw [hamount]
        split <;> omega
    obtain ⟨c, hc, hcproper, hcamount⟩ := Coins.sub_spec hpaid hproper fun d => by
      have := hpaid.amountOf_nonneg d
      rw [hamount]
      split
      · subst d
        omega
      · exact this
    simp only [hc, Result.ok_bind, Result.pure_eq_ok]
    refine Result.outcomes_ok ⟨hproper, hcproper, fun d => ?_, fun d hd => ?_⟩
    · rw [hcamount]
      dsimp only
      omega
    · obtain rfl : d = r := by simpa [hr] using hd
      simp only [hatchReserve, hp0, htheta, Result.ok_bind, Result.pure_eq_ok, hamount, if_true,
        howed, add_sub_cancel]

theorem planBuy_spec (hf : b.Formed token) (reserve : Coins) {o : BuyOrder}
    (hn : 0 ≤ o.size) (hmax : o.maxPrices.Proper) (hp : prices.Proper) :
    (∀ e, b.planBuy reserve o prices = .error e → b.BuyUnplanned o e) ∧
      ∀ p, b.planBuy reserve o prices = .ok p → b.BuyPlanned reserve o prices p := by
  obtain ⟨cost, hc, hprices, hfees, htotal, hsum, hceil, -⟩ := buyCost_spec hf.txFee hp hn
  have hiff := affords_iff hf.txFee hp hn hmax hc
  cases habove : cost.total.anyAbove o.maxPrices with
  | true =>
      have herror : b.planBuy reserve o prices = .error (.violated
          [s!"buy from {o.address} costs {cost.total.text} > max prices {o.maxPrices.text}"]) := by
        simp [planBuy, hc, habove]
      rw [herror]
      exact Result.outcomes_error (.price ..)
  | false =>
      obtain ⟨refund, hr, hrproper, hramount⟩ :=
        Coins.sub_spec hmax htotal ((Coins.anyAbove_eq_false_iff htotal hmax).1 habove)
      -- Only the payment of a hatch has to be divided, which can fail.
      cases hhatch : b.inHatch with
      | false =>
          have hok : b.planBuy reserve o prices = .ok ⟨cost, refund, cost.prices, []⟩ := by
            simp [planBuy, hc, habove, hr, hhatch]
          rw [hok]
          exact Result.outcomes_ok {
            affords := hiff.2 habove, toReserve := hprices, funding := Coins.proper_nil
            fees := hfees, refund := hrproper, charged := hceil, price := fun _ => hceil
            due := fun h => by cases hhatch.symm.trans h
            splits := fun d => by rw [Coins.amountOf_nil, add_zero]
            divides := fun d => by
              rw [hramount, hsum]
              dsimp only
              omega }
      | true =>
          obtain ⟨hundivided, hsplit⟩ := splitHatchPayment_spec hf (inHatch_isAugmented hhatch)
            reserve o.size hprices
          cases hs : b.splitHatchPayment reserve o.size cost.prices with
          | error e =>
              have herror : b.planBuy reserve o prices = .error e := by
                simp [planBuy, hc, habove, hr, hhatch, hs]
              rw [herror]
              exact Result.outcomes_error (.division hhatch (hundivided e hs).1)
          | ok rf =>
              obtain ⟨hrp, hfp, hsplitsum, hdue⟩ := hsplit rf hs
              have hok : b.planBuy reserve o prices = .ok ⟨cost, refund, rf.1, rf.2⟩ := by
                simp [planBuy, hc, habove, hr, hhatch, hs]
              rw [hok]
              exact Result.outcomes_ok {
                affords := hiff.2 habove, toReserve := hrp, funding := hfp
                fees := hfees, refund := hrproper, splits := hsplitsum, charged := hceil
                price := fun h => by cases hhatch.symm.trans h
                due := fun _ => hdue
                divides := fun d => by
                  rw [hramount, hsum]
                  dsimp only
                  omega }

/-- A plan charges what the buy costs at the prices, whatever the reserve has. -/
theorem buyCost_of_planBuy {reserve : Coins} {o : BuyOrder} {p : BuyPlan}
    (h : b.planBuy reserve o prices = .ok p) : b.buyCost o.size prices = .ok p.cost := by
  obtain ⟨cost, hcost, h⟩ := Result.bind_eq_ok.1 h
  split at h
  · cases h
  · obtain ⟨refund, -, h⟩ := Result.bind_eq_ok.1 h
    split at h
    · obtain ⟨parts, -, h⟩ := Result.bind_eq_ok.1 h
      cases h
      exact hcost
    · cases h
      exact hcost

theorem splitHatchPayment_of_planBuy (htx : 0 ≤ b.txFee.raw) (hp : prices.Proper)
    {reserve : Coins} {o : BuyOrder} (hn : 0 ≤ o.size) (hmax : o.maxPrices.Proper)
    (hafford : b.Affords o prices) {e : Error} (he : b.planBuy reserve o prices = .error e) :
    b.inHatch = true ∧ ∃ paid : Coins, paid.Proper ∧
      (∀ d, paid.amountOf d = ((prices.times o.size).amountOf d).ceilInt) ∧
      b.splitHatchPayment reserve o.size paid = .error e := by
  obtain ⟨cost, hc, hprices, -, htotal, -, hceil, -⟩ := buyCost_spec htx hp hn
  have habove := (affords_iff htx hp hn hmax hc).1 hafford
  obtain ⟨refund, hr, -⟩ :=
    Coins.sub_spec hmax htotal ((Coins.anyAbove_eq_false_iff htotal hmax).1 habove)
  simp only [planBuy, hc, habove, hr, Result.ok_bind, Bool.false_eq_true, if_false] at he
  split at he
  · rename_i hhatch
    refine ⟨hhatch, cost.prices, hprices, hceil, ?_⟩
    cases hs : b.splitHatchPayment reserve o.size cost.prices with
    | error e' =>
        rw [hs] at he
        cases he
        rfl
    | ok parts =>
        rw [hs] at he
        cases he
  · cases he

/-! ### Plans of sells -/

/-- What a sell brings and its fees are together the price rounded down, and the fees are what is
due at both percentages, as far as that goes. -/
theorem sellProceeds_spec (htx : 0 ≤ b.txFee.raw) (hexit : 0 ≤ b.exitFee.raw)
    (hp : prices.Proper) {n : Int} (hn : 0 ≤ n) :
    ∃ p, b.sellProceeds n prices = .ok p ∧ p.returned.Proper ∧ p.fees.Proper ∧
      (∀ d, p.returned.amountOf d + p.fees.amountOf d =
        ((prices.times n).amountOf d).floorInt) ∧
      ∀ d, p.fees.amountOf d =
        min (Fee.due ((prices.times n).amountOf d) b.txFee +
            Fee.due ((prices.times n).amountOf d) b.exitFee)
          ((prices.times n).amountOf d).floorInt := by
  have hvalues := hp.times hn
  obtain ⟨rounded, hr, hrproper, hramount⟩ := DecCoins.roundDown_spec hvalues
  obtain ⟨tx, htx, htxproper, htxamount⟩ := Fee.ofValues_spec hvalues htx
  obtain ⟨exit, hexit, hexitproper, hexitamount⟩ := Fee.ofValues_spec hvalues hexit
  obtain ⟨fees, hfees, hfproper, hfamount⟩ := Coins.add_spec htxproper hexitproper
  obtain ⟨capped, hcap, hcproper, hcamount⟩ := Fee.cap_spec hfproper hrproper
  obtain ⟨net, hnet, hnproper, hnamount⟩ := Coins.sub_spec hrproper hcproper fun d => by
    rw [hcamount]
    exact min_le_right _ _
  refine ⟨⟨net, capped⟩, ?_, hnproper, hcproper, fun d => ?_, fun d => ?_⟩
  · simp [sellProceeds, hr, txFees, htx, exitFees, hexit, hfees, hcap, hnet]
  · rw [hnamount, ← hramount]
    dsimp only
    omega
  · rw [hcamount, hfamount, htxamount, hexitamount, hramount]

/-! ### Plans of swaps -/

/-- A plan of a swap divides its input between the pool and the fee. The reserve covers the
output, and the product of the two reserves that are traded does not fall. -/
structure SwapPlanned (b : Bond) (reserve : Coins) (o : SwapOrder) (p : SwapPlan) : Prop where
  source : o.amount.denom ∈ b.reserveTokens
  target : p.output.denom ∈ b.reserveTokens
  net : 0 ≤ p.netIn
  fee : p.fee.denom = o.amount.denom
  divides : p.netIn + p.fee.amount = o.size
  output : ∀ d, p.output.toCoins.amountOf d ≤ reserve.amountOf d
  product : reserve.amountOf o.amount.denom * reserve.amountOf p.output.denom ≤
    (reserve.amountOf o.amount.denom + p.netIn) *
      (reserve.amountOf p.output.denom - p.output.amount)

/-- What the pool gains by a swap: its input without the fee, less its output. -/
def swapGain (o : SwapOrder) (p : SwapPlan) (d : Denom) : Int :=
  o.amount.toCoins.amountOf d - p.fee.toCoins.amountOf d - p.output.toCoins.amountOf d

section SwapPlanned

variable {reserve : Coins} {o : SwapOrder} {p : SwapPlan}

theorem SwapPlanned.swapGain_eq (h : b.SwapPlanned reserve o p) (d : Denom) :
    swapGain o p d = (if o.amount.denom = d then p.netIn else 0) -
      if p.output.denom = d then (p.output.amount : Int) else 0 := by
  have hdivides : p.netIn + p.fee.amount = o.amount.amount := h.divides
  rw [swapGain, Coin.amountOf_toCoins, Coin.amountOf_toCoins, Coin.amountOf_toCoins, h.fee]
  split <;> omega

theorem SwapPlanned.swapGain_eq_zero (h : b.SwapPlanned reserve o p) {d : Denom}
    (hd : d ∉ b.reserveTokens) : swapGain o p d = 0 := by
  have hsource : o.amount.denom ≠ d := fun heq => hd (heq ▸ h.source)
  have htarget : p.output.denom ≠ d := fun heq => hd (heq ▸ h.target)
  rw [h.swapGain_eq, if_neg hsource, if_neg htarget, sub_zero]

/-- A reserve token that is swapped for itself brings no more than it takes. -/
theorem SwapPlanned.output_le (h : b.SwapPlanned reserve o p)
    (hr : 0 ≤ reserve.amountOf p.output.denom) (hself : o.amount.denom = p.output.denom) :
    (p.output.amount : Int) ≤ p.netIn := by
  have hproduct := h.product
  have hnet := h.net
  have hcovers := h.output p.output.denom
  rw [Coin.amountOf_toCoins, if_pos rfl] at hcovers
  rw [hself] at hproduct
  by_contra hlt
  have hpos : 0 < (reserve.amountOf p.output.denom + p.netIn) *
      (p.output.amount - p.netIn) := mul_pos (by omega) (by omega)
  nlinarith

theorem SwapPlanned.product_le (h : b.SwapPlanned reserve o p) {x y : Denom}
    (htokens : b.reserveTokens = [x, y]) (hne : x ≠ y) (hr : ∀ d, 0 ≤ reserve.amountOf d) :
    reserve.amountOf x * reserve.amountOf y ≤
      (reserve.amountOf x + swapGain o p x) * (reserve.amountOf y + swapGain o p y) := by
  have hsource := h.source
  have htarget := h.target
  have hproduct := h.product
  have hself := h.output_le (hr _)
  simp only [htokens, List.mem_cons, List.not_mem_nil, or_false] at hsource htarget
  simp only [h.swapGain_eq]
  rcases hsource with hsource | hsource <;> rcases htarget with htarget | htarget <;>
    rw [hsource, htarget] at hproduct hself <;>
    simp only [hsource, htarget, hne, hne.symm, if_true, if_false]
  · have hle := hself rfl
    exact mul_le_mul (by omega) (by omega) (hr y) (by linarith [hr x])
  · linarith
  · linarith
  · have hle := hself rfl
    exact mul_le_mul (by omega) (by omega) (hr y) (by linarith [hr x])

end SwapPlanned

theorem ofInt_spec {d : Denom} (hd : d ≠ "") {n : Int} (hn : 0 ≤ n) :
    Coin.ofInt d n = .ok ⟨d, n.toNat⟩ := by
  simp [Coin.ofInt, Coin.ofEntry, hd, not_lt.2 hn]

theorem denom_of_ofInt {d : Denom} {n : Int} {c : Coin} (h : Coin.ofInt d n = .ok c) :
    c.denom = d := by
  simp only [Coin.ofInt, Coin.ofEntry] at h
  split at h
  · cases h
  · split at h <;> cases h
    rfl

/-- What a swap of an exact input gives: the fee and the net input make up the input, and the
output leaves something of the reserve it is taken from, so much that the product of the reserves
does not fall. -/
theorem swapExactIn_spec {x y input : Int} {fee : Dec} (hx : 0 ≤ x) (hy : 0 ≤ y)
    (hi : 0 ≤ input) (hfee : 0 ≤ fee.raw) :
    (∀ e, Pool.swapExactIn x y input fee = .error e → e.isRejection = true) ∧
      ∀ s, Pool.swapExactIn x y input fee = .ok s →
        0 ≤ s.fee ∧ s.fee ≤ input ∧ 0 ≤ s.output ∧ s.output ≤ y ∧
          x * y ≤ (x + (input - s.fee)) * (y - s.output) := by
  have hn := Fee.ofValue_eq_ok (Dec.raw_ofInt_nonneg hi) hfee
  have hnonneg := Fee.due_nonneg (Dec.raw_ofInt_nonneg hi) hfee
  set n := Fee.due (.ofInt input) fee
  rw [Pool.swapExactIn_of_fee hx hy hi hn]
  split
  · exact Result.outcomes_error rfl
  · dsimp only
    split
    · exact Result.outcomes_error rfl
    · split
      · exact Result.outcomes_error rfl
      · apply Result.outcomes_ok
        dsimp only
        exact ⟨hnonneg, by omega, by omega, by omega,
          Pool.product_le_of_rounded x y (by omega)⟩

theorem exists_applySwap (reserve : Coins) (source target : Denom) {netIn output : Int}
    (hn : 0 ≤ netIn) (ho : output ≤ reserve.amountOf target) :
    ∃ after, Pool.applySwap reserve source netIn target output = .ok after := by
  have hleft : ¬ (Coins.amountOf (Table.set reserve source (reserve.amountOf source + netIn))
      target - output < 0) := by
    rw [Coins.amountOf_set]
    split
    · subst target
      omega
    · omega
  simp only [Pool.applySwap, hleft, if_false]
  exact ⟨_, rfl⟩

theorem amountOf_applySwap {reserve after : Coins} (hkeys : (Table.keys reserve).Nodup)
    {source target : Denom} {netIn output : Int}
    (h : Pool.applySwap reserve source netIn target output = .ok after) (d : Denom) :
    after.amountOf d = reserve.amountOf d + (if source = d then netIn else 0) -
      if target = d then output else 0 := by
  simp only [Pool.applySwap] at h
  split at h
  · cases h
  · cases h
    have hset := Table.nodup_keys_set (Table.nodup_keys_set hkeys source
      (reserve.amountOf source + netIn)) target
    rw [Coins.amountOf_dropZeros (Table.nodup_keys_sorted (hset _)), Coins.amountOf_sorted,
      Coins.amountOf_set, Coins.amountOf_set, Coins.amountOf_set]
    by_cases htarget : target = d
    · subst d
      by_cases hsource : source = target <;> simp [hsource]
    · by_cases hsource : source = d <;> simp [htarget, hsource]

theorem exists_violatesRate (first second : Int) (rate margin : Dec) :
    ∃ r, Pool.violatesRate first second rate margin = .ok r := by
  have hhundred : Dec.hundred.raw ≠ 0 := by decide
  unfold Pool.violatesRate
  split
  · exact ⟨_, rfl⟩
  · split
    · exact ⟨_, rfl⟩
    · rename_i hsecond
      simp only [Dec.ofRatio, hsecond, if_false, Dec.div_of_ne_zero hhundred, Result.ok_bind]
      exact ⟨_, rfl⟩

theorem exists_violatesSanity (hf : b.Formed token) (hswap : b.isSwapper = true)
    (reserve : Coins) : ∃ r, b.violatesSanity reserve = .ok r := by
  obtain ⟨first, second, htokens⟩ := hf.exists_sortedPair hswap
  simp only [violatesSanity, Pool.reservesViolateRate, htokens]
  exact exists_violatesRate _ _ _ _

theorem violatesSanity_congr {r r' : Coins}
    (h : ∀ d ∈ b.reserveTokens, r.amountOf d = r'.amountOf d) :
    b.violatesSanity r = b.violatesSanity r' := by
  have hsorted : ∀ d ∈ sortedTexts b.reserveTokens, r.amountOf d = r'.amountOf d :=
    fun d hd => h d (mem_sortedTexts.1 hd)
  unfold violatesSanity Pool.reservesViolateRate
  split
  · rename_i first second rest htokens
    rw [hsorted first (by simp [htokens]), hsorted second (by simp [htokens])]
  · rfl

theorem planSwap_of_swap (hf : b.Formed token) (hswap : b.isSwapper = true) {reserve : Coins}
    {o : SwapOrder} (hsource : o.amount.denom ∈ b.reserveTokens)
    (htarget : o.toToken ∈ b.reserveTokens)
    {s : Pool.Swap} (hs : Pool.swapExactIn (reserve.amountOf o.amount.denom)
      (reserve.amountOf o.toToken) o.amount.amount b.txFee = .ok s)
    (hfee : 0 ≤ s.fee) (hfeele : s.fee ≤ o.size) (hout : 0 ≤ s.output)
    (houtle : s.output ≤ reserve.amountOf o.toToken) :
    ∃ (outside : Bool) (after : Coins), b.planSwap reserve o =
      if outside then reject .valuesViolateSanityRate after.text
      else .ok ⟨⟨o.toToken, s.output.toNat⟩, ⟨o.amount.denom, s.fee.toNat⟩,
        o.size - s.fee.toNat⟩ := by
  have hne {d : Denom} (hd : d ∈ b.reserveTokens) : d ≠ "" := by
    rintro rfl
    exact hf.named hd
  have hnet : 0 ≤ o.size - (s.fee.toNat : Int) := by omega
  have hleft : (s.output.toNat : Int) ≤ reserve.amountOf o.toToken := by omega
  obtain ⟨after, hafter⟩ := exists_applySwap reserve o.amount.denom o.toToken hnet hleft
  obtain ⟨outside, houtside⟩ := exists_violatesSanity hf hswap after
  refine ⟨outside, after, ?_⟩
  simp only [planSwap, swapReturns, hswap, swapReturns.checkReserveToken, rejectIf,
    hsource, htarget, hs, not_true_eq_false, if_false, Bool.not_true, Bool.false_eq_true,
    Result.ok_bind, ofInt_spec (hne htarget) hout, ofInt_spec (hne hsource) hfee,
    Result.pure_eq_ok, hafter, houtside]

/-- A plan divides the input of a swap. Without a plan the swap is turned down. -/
theorem planSwap_spec (hf : b.Formed token) {reserve : Coins}
    (hr : ∀ d, 0 ≤ reserve.amountOf d) (o : SwapOrder) :
    (∀ e, b.planSwap reserve o = .error e → e.isRejection = true) ∧
      ∀ p, b.planSwap reserve o = .ok p → b.isSwapper = true ∧ b.SwapPlanned reserve o p := by
  have hsize : (0 : Int) ≤ o.amount.amount := Int.natCast_nonneg _
  have hturned {α : Type} {x : Result α} {P : α → Prop} (code : Code) (detail : String)
      (hx : x = reject code detail) :
      (∀ e, x = .error e → e.isRejection = true) ∧ ∀ a, x = .ok a → P a := by
    subst hx
    exact Result.outcomes_error rfl
  cases hswap : b.isSwapper with
  | false => exact hturned .functionNotAvailableForFunctionType b.functionType.text (by
      simp [planSwap, swapReturns, hswap, reject])
  | true =>
      -- The checks in their order, each of which turns the swap down.
      by_cases hsource : o.amount.denom ∈ b.reserveTokens
      case neg => exact hturned .tokenIsNotAValidReserveToken o.amount.denom (by
        simp [planSwap, swapReturns, hswap, swapReturns.checkReserveToken, rejectIf, hsource,
          reject])
      by_cases htarget : o.toToken ∈ b.reserveTokens
      case neg => exact hturned .tokenIsNotAValidReserveToken o.toToken (by
        simp [planSwap, swapReturns, hswap, swapReturns.checkReserveToken, rejectIf, hsource,
          htarget, reject])
      obtain ⟨hreject, hok⟩ := swapExactIn_spec (hr o.amount.denom) (hr o.toToken) hsize hf.txFee
      cases hs : Pool.swapExactIn (reserve.amountOf o.amount.denom) (reserve.amountOf o.toToken)
          o.amount.amount b.txFee with
      | error e =>
          have herror : b.planSwap reserve o = .error e := by
            simp [planSwap, swapReturns, hswap, swapReturns.checkReserveToken, rejectIf, hsource,
              htarget, hs]
          rw [herror]
          exact Result.outcomes_error (hreject e hs)
      | ok s =>
          obtain ⟨hfee, hfeele, hout, houtle, hproduct⟩ := hok s hs
          have hinput : o.size = o.amount.amount := rfl
          obtain ⟨outside, after, hplan⟩ :=
            planSwap_of_swap hf hswap hsource htarget hs hfee hfeele hout houtle
          cases outside with
          | true => exact hturned _ _ hplan
          | false =>
              rw [hplan]
              refine Result.outcomes_ok ⟨rfl, {
                source := hsource, target := htarget, net := by dsimp only; omega, fee := rfl
                divides := by dsimp only; omega, output := fun d => ?_, product := ?_ }⟩
              · rw [Coin.amountOf_toCoins, Int.toNat_of_nonneg hout]
                dsimp only
                split
                · subst d
                  exact houtle
                · exact hr d
              · rw [hinput, Int.toNat_of_nonneg hfee, Int.toNat_of_nonneg hout]
                exact hproduct

theorem sane_of_planSwap {reserve : Coins} {o : SwapOrder} {p : SwapPlan}
    (h : b.planSwap reserve o = .ok p) :
    ∃ after, Pool.applySwap reserve o.amount.denom p.netIn p.output.denom p.output.amount =
      .ok after ∧ b.violatesSanity after = .ok false := by
  obtain ⟨⟨output, fee⟩, hreturns, h⟩ := Result.bind_eq_ok.1 h
  obtain ⟨after, hafter, h⟩ := Result.bind_eq_ok.1 h
  obtain ⟨outside, hsane, h⟩ := Result.bind_eq_ok.1 h
  have hdenom : output.denom = o.toToken := by
    unfold swapReturns at hreturns
    split at hreturns
    · cases hreturns
    · simp only [Result.bind_eq_ok] at hreturns
      obtain ⟨_, -, _, -, s, -, c, hc, c', -, hpair⟩ := hreturns
      cases hpair
      exact denom_of_ofInt hc
  cases outside with
  | true => cases h
  | false =>
      cases h
      exact ⟨after, hdenom ▸ hafter, hsane⟩

theorem SwapPlanned.sane {reserve reserve' : Coins} {o : SwapOrder} {p : SwapPlan}
    (h : b.SwapPlanned reserve o p) (hp : b.planSwap reserve o = .ok p)
    (hkeys : (Table.keys reserve).Nodup)
    (hgain : ∀ d ∈ b.reserveTokens,
      reserve'.amountOf d = reserve.amountOf d + swapGain o p d) :
    b.violatesSanity reserve' = .ok false := by
  obtain ⟨after, hafter, hsane⟩ := sane_of_planSwap hp
  rw [← hsane]
  refine violatesSanity_congr fun d hd => ?_
  rw [hgain d hd, h.swapGain_eq, amountOf_applySwap hkeys hafter, add_sub_assoc]

end Bond
end BondMarket
