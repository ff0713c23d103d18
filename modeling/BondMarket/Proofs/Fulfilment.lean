import BondMarket.Proofs.Hatch

/-!
What filling the open buys and sells of a batch comes to, whatever their order.

Outside a hatch the prices of the batch say what an order moves. In a hatch the part of a payment
that the reserve gets depends on the supply that earlier buys have left, and the account of the fees
gets the rest. Counted together with the reserve, that account gets what the buy owes, however its
payment was divided. Every account but the reserve thus gains by an order what the order and the
prices say, and by all of them the sum. The reserve ends with what the prices say or, in a hatch,
with what is due at the supply that the totals say.

The orders are all filled exactly if every buy can pay for itself and the reserve comes out short of
nothing.
-/

namespace BondMarket
namespace Bond

/-- Amounts by account, with those of the reserve counted into the account of the fees as well. -/
def pooled (b : Bond) (f : Account → Denom → Int) (a : Account) (d : Denom) : Int :=
  f a d + if b.feeAddress = a then f b.reserveAddress d else 0

def owed (b : Bond) (prices : DecCoins) (o : BuyOrder) (d : Denom) : Int :=
  match b.buyCost o.size prices with
  | .ok cost => cost.total.amountOf d
  | .error _ => 0

def proceeds (b : Bond) (prices : DecCoins) (o : SellOrder) (d : Denom) : Int :=
  match b.sellProceeds o.size prices with
  | .ok p => p.returned.amountOf d
  | .error _ => 0

def buyCredit (b : Bond) (cfg : Config) (prices : DecCoins) (a : Account) (d : Denom)
    (o : BuyOrder) : Int :=
  (if o.address = a then
    o.amount.toCoins.amountOf d + (o.maxPrices.amountOf d - b.owed prices o d) else 0) +
  (if b.feeAddress = a then b.owed prices o d else 0) -
  (if cfg.escrowAccount = a then o.maxPrices.amountOf d else 0)

/-- What an account gains by a sell. The fees only go from the reserve to their account. -/
def sellCredit (b : Bond) (prices : DecCoins) (a : Account) (d : Denom) (o : SellOrder) : Int :=
  (if o.address = a then b.proceeds prices o d else 0) -
  (if b.feeAddress = a then b.proceeds prices o d else 0)

theorem pooled_add (b : Bond) {f f' g : Account → Denom → Int}
    (h : ∀ a d, f' a d = f a d + g a d) (a : Account) (d : Denom) :
    b.pooled f' a d = b.pooled f a d + b.pooled g a d := by
  simp only [pooled, h]
  split <;> omega

end Bond

/-- The open buys of a batch can all pay, and filling the open orders leaves the reserve short of
nothing. -/
def Market.Fillable (m : Market) (token : Denom) (b : Bond) (β : Batch) : Prop :=
  (∀ o ∈ β.openBuys, b.Affords o β.buyPrices) ∧ ∀ d, 0 ≤ m.afterOrders token β d

namespace Market

variable {cfg : Config} {bonded : Denom → Prop} {m m₁ : Market} {token : Denom} {b : Bond}
  {β γ : Batch} {p : ClearingPrices} {total : Int} {reserve : Denom → Int}

/-- The accounts other than the reserve of a bond have gained their credits. -/
def Credited (token : Denom) (b : Bond) (credit : Account → Denom → Int) (m m' : Market) : Prop :=
  ∀ a ≠ reserveAccountFor token, ∀ d,
    b.pooled m'.balance a d = b.pooled m.balance a d + credit a d

/-! ### Single orders -/

/-- The moves of a buy give every account its credit, however the payment is divided. -/
theorem pooled_buyMoves (hsep : cfg.Separate)
    (haddress : b.reserveAddress = reserveAccountFor token) (hfee : cfg.IsUser b.feeAddress)
    {o : BuyOrder} (ho : o.Formed cfg token) {prices : DecCoins} {r : Coins} {plan : BuyPlan}
    (hplan : b.BuyPlanned r o prices plan)
    (howed : ∀ d, b.owed prices o d = plan.cost.prices.amountOf d + plan.cost.fees.amountOf d)
    {a : Account} (ha : a ≠ reserveAccountFor token) (d : Denom) :
    b.pooled (fun a d => Move.flow a d (b.buyMoves cfg o plan)) a d =
      b.buyCredit cfg prices a d o := by
  have hbought := CoinEntries.amountOf_entries (Coin.proper_toCoins o.amount) d
  have hsplits := hplan.splits d
  have hdivides := hplan.divides d
  have hreserve : Move.flow b.reserveAddress d (b.buyMoves cfg o plan) =
      plan.toReserve.amountOf d := by
    rw [haddress, (flow_buyMoves hsep haddress hfee ho hplan d).2.1, if_pos rfl]
  have hother : b.reserveAddress ≠ a := haddress ▸ ha.symm
  simp only [Bond.pooled, hreserve, Bond.buyCredit, howed]
  simp only [Bond.buyMoves, Move.flow_cons, Move.flow_append, LedgerCall.flow, hbought,
    Move.flow_transferIfAny hplan.toReserve, Move.flow_transferIfAny hplan.funding,
    Move.flow_transferIfAny hplan.fees, Move.flow_transferIfAny hplan.refund, hother, if_false]
  by_cases hbuyer : o.address = a <;> by_cases hfees : b.feeAddress = a <;>
    by_cases hescrow : cfg.escrowAccount = a <;> simp only [hbuyer, hfees, hescrow, if_true,
      if_false] <;> omega

theorem pooled_sellMoves (hsep : cfg.Separate)
    (haddress : b.reserveAddress = reserveAccountFor token) (hfee : cfg.IsUser b.feeAddress)
    {o : SellOrder} (ho : o.Formed cfg) {prices : DecCoins} {plan : Bond.SellProceeds}
    (hplan : b.sellProceeds o.size prices = .ok plan) (hreturned : plan.returned.Proper)
    (hfees : plan.fees.Proper) {a : Account} (ha : a ≠ reserveAccountFor token) (d : Denom) :
    b.pooled (fun a d => Move.flow a d (b.sellMoves o plan)) a d = b.sellCredit prices a d o := by
  have hreserve : Move.flow b.reserveAddress d (b.sellMoves o plan) =
      -(plan.returned.amountOf d + plan.fees.amountOf d) := by
    rw [haddress, (flow_sellMoves hsep haddress hfee ho hreturned hfees d).2, if_pos rfl]
  have hother : b.reserveAddress ≠ a := haddress ▸ ha.symm
  simp only [Bond.pooled, hreserve, Bond.sellCredit, Bond.proceeds, hplan]
  simp only [Bond.sellMoves, Move.flow_append, Move.flow_transferIfAny hreturned,
    Move.flow_transferIfAny hfees, hother, if_false]
  by_cases hseller : o.address = a <;> by_cases hfeeto : b.feeAddress = a <;>
    simp only [hseller, hfeeto, if_true, if_false] <;> omega

/-- A buy that can pay for itself has a plan: in a hatch the reserve has had its due from the
beginning, so that the payment can be divided. -/
theorem Executing.exists_planBuy (hp : p.buy.Proper) {o : BuyOrder} {rest : List BuyOrder}
    (hafford : b.Affords o p.buy)
    (h : Executing cfg bonded token b p m₁ total reserve γ (β.withBuys (o :: rest)) m)
    (hflat : b.inHatch = true → m₁.Raised b ∧
      ∀ p0, b.parameters.value "p0" = .ok p0 → p.buy = b.uniformAmount p0)
    {supply : Int} {r : Coins} (hb : Table.get? m.store.bonds token = some (b.marked supply r))
    (hheld : Held cfg m token (b.marked supply r) (β.withBuys (o :: rest))) :
    ∃ plan, (b.marked supply r).planBuy (m.reserveOf (b.marked supply r)) o p.buy = .ok plan := by
  have ho := hheld.orders.buys o List.mem_cons_self
  cases hhatch : b.inHatch with
  | false =>
      cases hplan : (b.marked supply r).planBuy (m.reserveOf (b.marked supply r)) o p.buy with
      | ok plan => exact ⟨plan, rfl⟩
      | error e =>
          obtain ⟨hinHatch, -⟩ := Bond.splitHatchPayment_of_planBuy hheld.formed.txFee hp
            ho.size_pos.le ho.maxPrices hafford hplan
          cases hhatch.symm.trans hinHatch
  | true =>
      obtain ⟨hraised, hprice⟩ := hflat hhatch
      obtain ⟨d, p0, theta, hsold, -⟩ :=
        hheld.formed.exists_soldAt (Bond.inHatch_isAugmented hhatch)
      have hsold' : b.SoldAt d p0 theta := { hsold with }
      have hprice := hprice p0 hsold'.price
      have hdue := h.amountOf_reserveOf_inHatch hb hsold' hhatch hraised
      rw [hprice] at hafford ⊢
      exact hsold.exists_planBuy hheld.formed hhatch hheld.supply_nonneg ho.size_pos.le
        ho.maxPrices hafford hdue

theorem performBuy_credit (hsep : cfg.Separate) (hp : p.buy.Proper)
    (hprices : p.buy.Confined b.reserveTokens)
    (hflat : b.inHatch = true → m₁.Raised b ∧
      ∀ p0, b.parameters.value "p0" = .ok p0 → p.buy = b.uniformAmount p0)
    {o : BuyOrder} {rest : List BuyOrder} (hopen : o.isOpen = true) (hafford : b.Affords o p.buy)
    (h : Executing cfg bonded token b p m₁ total reserve γ (β.withBuys (o :: rest)) m) :
    (performBuy cfg token o p.buy).Sat m
      (fun _ m' => Executing cfg bonded token b p m₁ total reserve γ (β.withBuys rest) m' ∧
        Credited token b (fun a d => b.buyCredit cfg p.buy a d o) m m')
      (fun _ _ => False) := by
  obtain ⟨supply, r, hb, htotal, hheld⟩ := h.held
  have ho := hheld.orders.buys o List.mem_cons_self
  obtain ⟨plan, hplan⟩ := h.exists_planBuy hp hafford hflat hb hheld
  have hplanned := (Bond.planBuy_spec hheld.formed _ ho.size_pos.le ho.maxPrices hp).2 plan hplan
  obtain ⟨cost, hcost, -, -, -, hsum, -⟩ := Bond.buyCost_spec hheld.formed.txFee hp ho.size_pos.le
  have hcost : b.buyCost o.size p.buy = .ok cost := hcost
  obtain rfl : plan.cost = cost :=
    Except.ok.inj ((Bond.buyCost_of_planBuy hplan).symm.trans hcost)
  have howed (d : Denom) : b.owed p.buy o d =
      plan.cost.prices.amountOf d + plan.cost.fees.amountOf d := by
    simp only [Bond.owed, hcost, hsum]
  apply (performBuy_sat_of_plan hsep hprices hopen h hb htotal hheld hplan hplanned).of_total
  rintro _ m' ⟨-, hexec, hbalance⟩
  refine ⟨hexec, fun a ha d => ?_⟩
  rw [b.pooled_add hbalance]
  exact congrArg _
    (pooled_buyMoves hsep hheld.formed.address hheld.feeUser ho hplanned howed ha d)

theorem performSell_credit (hsep : cfg.Separate) (hp : p.sell.Proper)
    (hprices : p.sell.Confined b.reserveTokens) (hreserve : ∀ d, 0 ≤ reserve d) {o : SellOrder}
    {rest : List SellOrder} (hopen : o.isOpen = true) (hnone : β.buys = [])
    (h : Executing cfg bonded token b p m₁ total reserve γ (β.withSells (o :: rest)) m) :
    (performSell token o p.sell).Sat m
      (fun _ m' => Executing cfg bonded token b p m₁ total reserve γ (β.withSells rest) m' ∧
        Credited token b (fun a d => b.sellCredit p.sell a d o) m m')
      (fun _ _ => False) := by
  obtain ⟨supply, r, hb, htotal, hheld⟩ := h.held
  have ho := hheld.orders.sells o List.mem_cons_self
  obtain ⟨plan, hplan, hreturned, hfees, hsum, -⟩ :=
    Bond.sellProceeds_spec hheld.formed.txFee hheld.formed.exitFee hp ho.size_pos.le
  refine (performSell_sat_of_plan hsep hp hprices hopen hnone h hb htotal hheld hplan hreturned
    hfees hsum).mono ?_ fun e m' he => ?_
  · rintro _ m' ⟨-, hexec, hbalance⟩
    refine ⟨hexec, fun a ha d => ?_⟩
    rw [b.pooled_add hbalance]
    exact congrArg _ (pooled_sellMoves (b := b) hsep hheld.formed.address hheld.feeUser ho hplan
      hreturned hfees ha d)
  · obtain ⟨d, hshort⟩ := he.1.2
    exact absurd (hreserve d) (not_le.2 hshort)

/-! ### All orders -/

theorem gather_credited {α : Type} {act : α → Action Outcome} {J : List α → Market → Prop}
    {credit : Account → Denom → α → Int} {orders : List α}
    (step : ∀ o ∈ orders, ∀ rest m, J (o :: rest) m → (act o).Sat m
      (fun _ m' => J rest m' ∧ Credited token b (fun a d => credit a d o) m m') fun _ _ => False)
    (h : J orders m) :
    (gather (fun o => some <$> act o) orders).Sat m
      (fun _ m' => J [] m' ∧ Credited token b (fun a d => (orders.map (credit a d)).sum) m m')
      (fun _ _ => False) := by
  induction orders generalizing m with
  | nil =>
      rw [gather, Action.sat_pure]
      exact ⟨h, fun a _ d => by simp⟩
  | cons o rest ih =>
      rw [gather, Action.sat_bind, Action.sat_map]
      apply (step o List.mem_cons_self rest m h).imp
      rintro _ m₂ ⟨hJ, hfirst⟩
      rw [Action.sat_bind]
      apply (ih (fun o' ho' => step o' (List.mem_cons_of_mem _ ho')) hJ).imp
      rintro _ m' ⟨hJ', hrest⟩
      rw [Action.sat_pure]
      refine ⟨hJ', fun a ha d => ?_⟩
      calc b.pooled m'.balance a d
          = b.pooled m₂.balance a d + (rest.map (credit a d)).sum := hrest a ha d
        _ = b.pooled m.balance a d + credit a d o + (rest.map (credit a d)).sum :=
            congrArg (· + _) (hfirst a ha d)
        _ = b.pooled m.balance a d + ((o :: rest).map (credit a d)).sum := by
            rw [List.map_cons, List.sum_cons, add_assoc]

/-- A batch that is about to be executed: the books are in order, its prices are those of its
totals, and in a hatch what is due has been raised. -/
structure Poised (cfg : Config) (bonded : Denom → Prop) (token : Denom) (b : Bond) (β : Batch)
    (m : Market) : Prop where
  kept : Kept cfg bonded m
  bond : Table.get? m.store.bonds token = some b
  batch : Table.get? m.store.batches token = some β
  current : m.Current b β
  raised : b.inHatch = true → m.Raised b

/-- The open buys and sells of a batch have all been filled, and only its swaps are left. -/
structure Matched (cfg : Config) (bonded : Denom → Prop) (token : Denom) (b : Bond) (β : Batch)
    (m m' : Market) : Prop where
  executing : Executing cfg bonded token b ⟨β.buyPrices, β.sellPrices⟩ m
    (b.supply + β.totalBuy - β.totalSell) (m.afterOrders token β) β
    ((β.withBuys []).withSells []) m'
  credited : Credited token b (fun a d =>
    (β.openBuys.map (b.buyCredit cfg β.buyPrices a d)).sum +
      (β.openSells.map (b.sellCredit β.sellPrices a d)).sum) m m'

theorem Poised.held (h : Poised cfg bonded token b β m) : Held cfg m token b β :=
  h.kept.held_of_get? h.bond h.batch

theorem Poised.performOrders_matched (hsep : cfg.Separate) (h : Poised cfg bonded token b β m)
    (hfillable : m.Fillable token b β) :
    (performOrders cfg token).Sat m
      (fun _ m' => ∃ m₁ os, Matched cfg bonded token b β m m₁ ∧
        gather (performOpenSwap cfg token) (List.range β.swaps.length) m₁ = .ok os m')
      (fun _ _ => False) := by
  obtain ⟨hafford, hcovered⟩ := hfillable
  have hheld := h.held
  have hflat (o : BuyOrder) (ho : o ∈ β.openBuys) (hhatch : b.inHatch = true) :
      m.Raised b ∧ ∀ p0, b.parameters.value "p0" = .ok p0 → β.buyPrices = b.uniformAmount p0 :=
    ⟨h.raised hhatch, fun p0 hp0 => (hheld.prices_inHatch h.current hhatch hp0
      (hheld.orders.total_pos_of_buy ho)).1⟩
  simp only [performOrders, Action.sat_bind, Action.sat_get,
    Action.sat_lift_of_ok (batch_eq_ok h.batch)]
  apply (gather_credited
    (J := fun rest m' => Executing cfg bonded token b ⟨β.buyPrices, β.sellPrices⟩ m _ _ β
      ((β.withSells β.openSells).withBuys rest) m')
    (fun o ho rest m' hexec => performBuy_credit hsep
      (hheld.prices_proper h.kept.solvent h.current (hheld.orders.total_pos_of_buy ho)).1
      (hheld.prices_confined h.kept.solvent h.current (hheld.orders.total_pos_of_buy ho)).1
      (hflat o ho) (List.mem_filter.1 ho).2 (hafford o ho) hexec)
    (h.kept.executing h.bond h.batch _)).of_total
  rintro _ m₂ ⟨hexec, hbought⟩
  apply (gather_credited
    (J := fun rest m' => Executing cfg bonded token b ⟨β.buyPrices, β.sellPrices⟩ m _ _ β
      ((β.withBuys []).withSells rest) m')
    (fun o ho rest m' hexec => performSell_credit hsep
      (hheld.prices_proper h.kept.solvent h.current (hheld.orders.total_pos_of_sell ho)).2
      (hheld.prices_confined h.kept.solvent h.current (hheld.orders.total_pos_of_sell ho)).2
      hcovered (List.mem_filter.1 ho).2 rfl hexec) hexec).of_total
  rintro _ m₁ ⟨hexec, hsold⟩
  have hmatched : Matched cfg bonded token b β m m₁ := ⟨hexec, fun a ha d => by
    rw [hsold a ha d, hbought a ha d, add_assoc]⟩
  -- Nothing stops a swap, so that the swaps are through as well.
  apply (performSwaps_sat (β := (β.withBuys []).withSells []) hsep (fun _ => rfl)
    hexec).recall.of_total
  rintro os m' ⟨hrun, -⟩
  exact ⟨m₁, os, hmatched, hrun⟩

/-- Executing the orders of a batch comes to its end exactly if the batch is fillable. -/
theorem Poised.completes_iff (hsep : cfg.Separate) (h : Poised cfg bonded token b β m) :
    (∃ os m', performOrders cfg token m = .ok os m') ↔ m.Fillable token b β := by
  constructor
  · rintro ⟨os, m', hrun⟩
    obtain ⟨-, -, -, hafford, hcovered⟩ :=
      (performOrders_sat hsep h.kept h.bond h.batch h.current).of_ok hrun
    exact ⟨hafford, hcovered⟩
  · intro hfillable
    obtain ⟨os, m', hrun, -⟩ := (h.performOrders_matched hsep hfillable).exists_ok
    exact ⟨os, m', hrun⟩

theorem Matched.reserve_of_not_inHatch (h : Matched cfg bonded token b β m m₁)
    (hhatch : b.inHatch = false) (d : Denom) :
    m₁.balance (reserveAccountFor token) d = m.afterOrders token β d := by
  have hleft := h.executing.outlook hhatch d
  rwa [show ((β.withBuys []).withSells []).outlook _ d = 0 from rfl, add_zero] at hleft

/-- No order is left, so that the supply has become what the totals had said. -/
theorem Matched.held (h : Matched cfg bonded token b β m m₁) :
    ∃ r, Table.get? m₁.store.bonds token =
        some (b.marked (b.supply + β.totalBuy - β.totalSell) r) ∧
      Held cfg m₁ token (b.marked (b.supply + β.totalBuy - β.totalSell) r)
        ((β.withBuys []).withSells []) := by
  obtain ⟨supply, r, hb, htotal, hheld⟩ := h.executing.held
  have hnone : supply + 0 - 0 = b.supply + β.totalBuy - β.totalSell := htotal
  obtain rfl : supply = b.supply + β.totalBuy - β.totalSell := by omega
  exact ⟨r, hb, hheld⟩

theorem Matched.reserve_of_inHatch (h : Matched cfg bonded token b β m m₁)
    (hhatch : b.inHatch = true) (hraised : m.Raised b) {d : Denom} (hd : d ∈ b.reserveTokens) :
    b.hatchReserve (b.supply + β.totalBuy - β.totalSell) =
      .ok (m₁.balance (reserveAccountFor token) d) := by
  obtain ⟨r, hb, hheld⟩ := h.held
  have haddress : b.reserveAddress = reserveAccountFor token := hheld.formed.address
  rw [← haddress]
  exact h.executing.raised hhatch hraised _ hb d hd

end Market
end BondMarket
