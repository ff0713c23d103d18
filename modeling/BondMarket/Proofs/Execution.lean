import BondMarket.Proofs.Cancellation
import BondMarket.Proofs.Reports

/-!
Executing the orders of a batch. While the orders are executed, the batch in the store still has
them all; the books are in order with the batch of those that *remain*. Each order that is filled
takes itself out of the remaining ones, and with it what it had in escrow, what it adds to the
supply and, outside a hatch, what the clearing prices say it moves. In a hatch it leaves the reserve
with what is due at the new supply. It reports what the reserve gains by it.

The escrow account and the minting account cover the moves of every buy, so that a buy fails only
where it has no plan. A sell fails only where the reserve does not cover what the clearing prices
say.
-/

namespace BondMarket

def Bond.marked (b : Bond) (supply : Int) (reserve : Coins) : Bond := { b with supply, reserve }

@[simp] theorem Bond.supply_marked (b : Bond) (supply : Int) (reserve : Coins) :
    (b.marked supply reserve).supply = supply := rfl

theorem Bond.Formed.marked {b : Bond} {token : Denom} (h : b.Formed token) (supply : Int)
    (reserve : Coins) : (b.marked supply reserve).Formed token :=
  h.update ..

/-! ### Errors by their wording -/

/-- The letter that the first violation of an error begins with. -/
def Error.initial : Error → Option Char
  | .violated (v :: _) => v.toList.head?
  | _ => none

theorem Bond.BuyUnplanned.initial {b : Bond} {o : BuyOrder} {e : Error} (h : b.BuyUnplanned o e) :
    e.initial = some 'b' ∨ e.initial = some 'I' := by
  cases h with
  | price => simp [Error.initial, toString]
  | division _ h =>
      obtain ⟨_, _, _, rfl⟩ := h
      simp [Error.initial, Code.text, toString]

theorem Purpose.initial_of_withdrawReserve {e : Error} (h : Purpose.withdrawReserve.Failed e) :
    e.initial = some 'w' := by
  obtain ⟨_, rfl⟩ := h.eq
  simp [Error.initial, Purpose.text, toString]

/-! ### What orders add to the reserve -/

def BuyOrder.filled (o : BuyOrder) (p : BuyPlan) : Outcome where
  kind := .buy
  address := o.address
  amount := o.amount.toCoins
  prices := p.cost.prices
  fees := p.cost.fees
  returned := p.refund
  funding := p.funding

theorem Bond.BuyPlanned.reported {b : Bond} {reserve : Coins} {o : BuyOrder} {prices : DecCoins}
    {p : BuyPlan} (h : b.BuyPlanned reserve o prices p) (hopen : o.isOpen = true) :
    o.Reported (o.filled p) where
  kind := rfl
  address := rfl
  amount := rfl
  divides := h.divides
  uncharged hcancelled := by cases hcancelled
  closed hclosed := by cases hopen.symm.trans hclosed

def Order.sold (o : SellOrder) (p : Bond.SellProceeds) : Outcome where
  kind := .sell
  address := o.address
  amount := o.amount.toCoins
  fees := p.fees
  returned := p.returned

/-- What filling the open orders of a batch at given prices adds to the reserve: each buy pays its
price rounded up, each sell gets its price rounded down. -/
def Batch.outlook (β : Batch) (p : ClearingPrices) (d : Denom) : Int :=
  openSum (fun o => o.isOpen) (fun o => ((p.buy.times o.size).amountOf d).ceilInt) β.buys -
    openSum (fun o => o.isOpen) (fun o => ((p.sell.times o.size).amountOf d).floorInt) β.sells

namespace Batch

variable {β : Batch} {o : BuyOrder} {rest : List BuyOrder}

theorem totalSell_withBuys (β : Batch) (buys : List BuyOrder) :
    (β.withBuys buys).totalSell = β.totalSell := rfl

theorem totalBuy_withBuys (ho : o.isOpen = true) :
    (β.withBuys (o :: rest)).totalBuy = o.size + (β.withBuys rest).totalBuy := by
  simp [withBuys, ho]

theorem pledged_withBuys (ho : o.isOpen = true) (d : Denom) :
    (β.withBuys (o :: rest)).pledged d = o.maxPrices.amountOf d + (β.withBuys rest).pledged d := by
  simp [pledged, withBuys, ho, add_assoc]

theorem outlook_withBuys (ho : o.isOpen = true) (p : ClearingPrices) (d : Denom) :
    (β.withBuys (o :: rest)).outlook p d =
      ((p.buy.times o.size).amountOf d).ceilInt + (β.withBuys rest).outlook p d := by
  simp [outlook, withBuys, ho, add_sub_assoc]

def withSells (β : Batch) (sells : List SellOrder) : Batch :=
  { β with sells, totalSell := sellSizes sells }

theorem totalBuy_withSells (β : Batch) (sells : List SellOrder) :
    (β.withSells sells).totalBuy = β.totalBuy := rfl

theorem totalSell_withSells {o : SellOrder} {rest : List SellOrder} (ho : o.isOpen = true) :
    (β.withSells (o :: rest)).totalSell = o.size + (β.withSells rest).totalSell := by
  simp [withSells, ho]

theorem outlook_withSells {o : SellOrder} {rest : List SellOrder} (ho : o.isOpen = true)
    (p : ClearingPrices) (d : Denom) : (β.withSells (o :: rest)).outlook p d =
      (β.withSells rest).outlook p d - ((p.sell.times o.size).amountOf d).floorInt := by
  simp [outlook, withSells, ho]
  omega

end Batch

namespace Market

variable {cfg : Config} {bonded : Denom → Prop} {m m₁ : Market} {token : Denom} {b : Bond}
  {β γ : Batch} {p : ClearingPrices}

/-! ### Recording a bond -/

@[simp] theorem withBond_withBond (m : Market) (token : Denom) (b b' : Bond) :
    (m.withBond token b).withBond token b' = m.withBond token b' := by
  simp only [withBond, Table.set_set]

theorem syncReserve_sat (hb : Table.get? m.store.bonds token = some b)
    {Q : Unit → Market → Prop} {E : Error → Market → Prop} :
    (syncReserve token).Sat m Q E ↔
      Q () (m.withBond token { b with reserve := (m.reserveOf b).dropZeros }) := by
  simp only [syncReserve, Action.sat_bind, Action.sat_get, Action.sat_lift_of_ok (bond_eq_ok hb),
    setBond, Action.sat_modify]
  rfl

/-- Recording the supply and the reserve, the supply being checked. -/
theorem record_sat (hb : Table.get? m.store.bonds token = some b) (supply : Int)
    {Q : Unit → Market → Prop} {E : Error → Market → Prop}
    (hE : supply < 0 → ∀ e : Error, e.isFatal = true → E e m)
    (hQ : 0 ≤ supply →
      Q () (m.withBond token (b.marked supply (m.reserveOf b).dropZeros))) :
    (setSupply token supply).Sat m (fun _ m' => (syncReserve token).Sat m' Q E) E := by
  rw [setSupply, Action.sat_bind, Action.sat_get, Action.sat_bind]
  by_cases hneg : supply < 0
  · rw [Action.sat_lift]
    refine ⟨fun s hs => ?_, fun e he => ?_⟩
    · simp [Store.setSupply, hneg] at hs
    · simp only [Store.setSupply, hneg, if_true] at he
      cases he
      exact hE hneg _ rfl
  · have hok : m.store.setSupply token supply =
        .ok { m.store with bonds := Table.set m.store.bonds token { b with supply } } := by
      simp only [Store.setSupply, hneg, if_false, bond_eq_ok hb, Result.ok_bind, Result.pure_eq_ok]
    rw [Action.sat_lift_of_ok hok, Action.sat_set]
    show (syncReserve token).Sat (m.withBond token { b with supply }) Q E
    rw [syncReserve_sat (get?_withBond ..), withBond_withBond]
    exact hQ (not_lt.1 hneg)

/-! ### Orders on the way -/

/-- A settlement under way from `m₁`, with the batch `γ` in the store and the orders of `β`
remaining, to be filled at the prices `p`. -/
structure Executing (cfg : Config) (bonded : Denom → Prop) (token : Denom) (b : Bond)
    (p : ClearingPrices) (m₁ : Market) (total : Int) (reserve : Denom → Int) (γ β : Batch)
    (m : Market) : Prop where
  kept : Kept cfg bonded (m.withBatch token β)
  apart : Apart token m₁ m
  bond : ∃ supply reserve, Table.get? m.store.bonds token = some (b.marked supply reserve) ∧
    supply + β.totalBuy - β.totalSell = total
  batch : Table.get? m.store.batches token = some γ
  outlook : b.inHatch = false →
    ∀ d, m.balance (reserveAccountFor token) d + β.outlook p d = reserve d
  foreign : ∀ d ∉ b.reserveTokens,
    m.balance (reserveAccountFor token) d = m₁.balance (reserveAccountFor token) d
  raised : b.inHatch = true → m₁.Raised b →
    ∀ b', Table.get? m.store.bonds token = some b' → m.Raised b'

/-- What stops a settlement: a buy without a plan, or a sell whose proceeds the reserve does not
cover, where the reserve may be `short` of what the clearing prices say. -/
inductive Stops (b : Bond) (short : Prop) : Error → Prop
  | buy {e : Error} {o : BuyOrder} (h : b.BuyUnplanned o e) : Stops b short e
  | sell {e : Error} (hshort : short) (h : Purpose.withdrawReserve.Failed e) : Stops b short e

theorem Stops.isFatal {short : Prop} {e : Error} (h : Stops b short e) : e.isFatal = true := by
  cases h with
  | buy h =>
      cases h with
      | price => rfl
      | division _ h =>
          obtain ⟨_, _, _, rfl⟩ := h
          rfl
  | sell _ h => exact h.isFatal

theorem Stops.mono {short short' : Prop} {e : Error} (h : Stops b short e)
    (hshort : short → short') : Stops b short' e := by
  cases h with
  | buy h => exact .buy h
  | sell hs h => exact .sell (hshort hs) h

/-- Where the reserve is not short, no sell stops a settlement. -/
theorem Stops.not_withdraw {short : Prop} {e : Error} (h : Stops b short e) (hnot : ¬ short) :
    ¬ Purpose.withdrawReserve.Failed e := by
  intro hfailed
  have hinitial := Purpose.initial_of_withdrawReserve hfailed
  cases h with
  | buy h =>
      rcases h.initial with hb | hi
      · exact absurd (hb.symm.trans hinitial) (by decide)
      · exact absurd (hi.symm.trans hinitial) (by decide)
  | sell hshort _ => exact hnot hshort

/-- What is known of an error that stops a settlement begun at `m₁`. -/
def Halted (token : Denom) (b : Bond) (short : Prop) (m₁ : Market) (e : Error) (m : Market) :
    Prop :=
  Stops b short e ∧ ∀ d ≠ token, m.ledger.totalSupply d = m₁.ledger.totalSupply d

theorem Executing.refusals {total : Int} {reserve : Denom → Int}
    (h : Executing cfg bonded token b p m₁ total reserve γ β m) : m.refusals = {} :=
  h.kept.refusals

theorem Executing.solvent {total : Int} {reserve : Denom → Int}
    (h : Executing cfg bonded token b p m₁ total reserve γ β m) : m.ledger.Solvent :=
  h.kept.solvent

theorem Executing.held {total : Int} {reserve : Denom → Int}
    (h : Executing cfg bonded token b p m₁ total reserve γ β m) :
    ∃ supply r, Table.get? m.store.bonds token = some (b.marked supply r) ∧
      supply + β.totalBuy - β.totalSell = total ∧
      Held cfg m token (b.marked supply r) β := by
  obtain ⟨supply, r, hb, htotal⟩ := h.bond
  exact ⟨supply, r, hb, htotal, (h.kept.held_of_get? hb (get?_withBatch ..)).congr
    (fun _ => rfl) rfl⟩

theorem Executing.fill {total : Int} {reserve reserve' : Denom → Int}
    (h : Executing cfg bonded token b p m₁ total reserve γ β m) {supply supply' : Int} {r : Coins}
    {β' : Batch} {m₂ : Market} {flow : Account → Denom → Int} {made : Denom → Int}
    (hb : Table.get? m.store.bonds token = some (b.marked supply r))
    (hpost : m.Posted m₂ flow made)
    (hflow : ∀ u ≠ token, ∀ d, flow (reserveAccountFor u) d = 0) (hmade : ∀ d ≠ token, made d = 0)
    (hheld : Held cfg m₂ token (b.marked supply' (m₂.reserveOf b).dropZeros) β')
    (hescrow : ∀ d, flow cfg.escrowAccount d + β.pledged d = β'.pledged d)
    (htotal : supply' + β'.totalBuy - β'.totalSell = total)
    (houtlook : b.inHatch = false → ∀ d,
      flow (reserveAccountFor token) d + β'.outlook p d + reserve d =
        β.outlook p d + reserve' d)
    (hforeign : ∀ d ∉ b.reserveTokens, flow (reserveAccountFor token) d = 0)
    (hraised : b.inHatch = true → m₁.Raised b →
      m₂.Raised (b.marked supply' (m₂.reserveOf b).dropZeros)) :
    Executing cfg bonded token b p m₁ total reserve' γ β'
      (m₂.withBond token (b.marked supply' (m₂.reserveOf b).dropZeros)) := by
  have hb₂ := hpost.bond hb
  have hapart : Apart token m (m₂.withBond token (b.marked supply' (m₂.reserveOf b).dropZeros)) :=
    (hpost.apart hflow hmade).trans (apart_withBond hb₂ rfl)
  refine {
    kept := h.kept.exchange hapart (get?_withBond ..) (hheld.congr (fun _ => rfl) rfl)
      hpost.solvent fun d => ?_
    apart := h.apart.trans hapart
    bond := ⟨_, _, get?_withBond .., htotal⟩
    batch := ?_
    outlook := fun hhatch d => ?_
    foreign := fun d hd => ?_
    raised := fun hhatch hraised₁ b' hb' => ?_ }
  · have := hescrow d
    show m₂.ledger.balanceOf cfg.escrowAccount d + _ = m.ledger.balanceOf cfg.escrowAccount d + _
    rw [hpost.balance]
    omega
  · show Table.get? m₂.store.batches token = some γ
    rw [hpost.store]
    exact h.batch
  · show m₂.ledger.balanceOf (reserveAccountFor token) d + _ = _
    have hbefore := h.outlook hhatch d
    have hchange := houtlook hhatch d
    rw [hpost.balance]
    simp only [balance] at hbefore
    omega
  · show m₂.ledger.balanceOf (reserveAccountFor token) d = _
    rw [hpost.balance, hforeign d hd, add_zero]
    exact h.foreign d hd
  · rw [get?_withBond] at hb'
    cases hb'
    exact hraised hhatch hraised₁

theorem flow_buyMoves (hsep : cfg.Separate) {o : BuyOrder} {plan : BuyPlan} {prices : DecCoins}
    (haddress : b.reserveAddress = reserveAccountFor token) (hfee : cfg.IsUser b.feeAddress)
    (ho : o.Formed cfg token) {reserve : Coins} (hplan : b.BuyPlanned reserve o prices plan)
    (d : Denom) :
    Move.flow cfg.escrowAccount d (b.buyMoves cfg o plan) = -o.maxPrices.amountOf d ∧
      (∀ u, Move.flow (reserveAccountFor u) d (b.buyMoves cfg o plan) =
        if u = token then plan.toReserve.amountOf d else 0) ∧
      Move.made d (b.buyMoves cfg o plan) = if d = token then o.size else 0 := by
  have hbought := CoinEntries.amountOf_entries (Coin.proper_toCoins o.amount) d
  have hdivides := hplan.divides d
  have hsplits := hplan.splits d
  refine ⟨?_, fun u => ?_, ?_⟩
  · simp only [Bond.buyMoves, Move.flow_cons, Move.flow_append, LedgerCall.flow,
      Move.flow_transferIfAny hplan.toReserve, Move.flow_transferIfAny hplan.funding,
      Move.flow_transferIfAny hplan.fees, Move.flow_transferIfAny hplan.refund, haddress,
      hsep.mintBurn_ne_escrow, (hsep.escrow_ne_reserve token).symm, hfee.ne_escrow,
      ho.user.ne_escrow, if_true, if_false]
    omega
  · simp only [Bond.buyMoves, Move.flow_cons, Move.flow_append, LedgerCall.flow,
      Move.flow_transferIfAny hplan.toReserve, Move.flow_transferIfAny hplan.funding,
      Move.flow_transferIfAny hplan.fees, Move.flow_transferIfAny hplan.refund, haddress,
      hsep.mintBurn_ne_reserve, hsep.escrow_ne_reserve, hfee.ne_reserve, ho.user.ne_reserve,
      reserveAccountFor_inj, if_false]
    simp only [eq_comm (a := token)]
    split <;> omega
  · simp only [Bond.buyMoves, Move.made_cons, Move.made_append, LedgerCall.made, hbought,
      Move.made_transferIfAny, Coin.amountOf_toCoins, ho.denom, eq_comm (a := token), add_zero]
    rfl

/-- The moves of a buy find what they take where the escrow account has what the buy put there: the
tokens are sent right after they are made, and the parts of the payment make it up. -/
theorem covered_buyMoves (hsep : cfg.Separate) {o : BuyOrder} {plan : BuyPlan} {prices : DecCoins}
    {bal : Account → Denom → Int} (haddress : b.reserveAddress = reserveAccountFor token)
    (hfee : cfg.IsUser b.feeAddress) (ho : o.Formed cfg token) {reserve : Coins}
    (hplan : b.BuyPlanned reserve o prices plan)
    (hbal : ∀ d, 0 ≤ bal cfg.mintBurnAccount d)
    (hescrow : ∀ d, o.maxPrices.amountOf d ≤ bal cfg.escrowAccount d) :
    Move.Covered bal (b.buyMoves cfg o plan) := by
  have hparts (d : Denom) : plan.toReserve.amountOf d + plan.funding.amountOf d +
      plan.cost.fees.amountOf d + plan.refund.amountOf d ≤ bal cfg.escrowAccount d := by
    rw [hplan.splits, hplan.divides]
    exact hescrow d
  have hfunding := hplan.funding.amountOf_nonneg
  have hfees := hplan.fees.amountOf_nonneg
  have hrefund := hplan.refund.amountOf_nonneg
  refine ⟨trivial, fun d => ?_, ?_⟩
  · simp only [LedgerCall.flow, if_true]
    have := hbal d
    omega
  · simp only [Move.covered_append]
    refine ⟨⟨⟨?_, ?_⟩, ?_⟩, ?_⟩
    all_goals
      refine Move.covered_transferIfAny ?_ _ _ _ fun d => ?_
      · first
          | exact hplan.toReserve
          | exact hplan.funding
          | exact hplan.fees
          | exact hplan.refund
      · simp only [LedgerCall.flow, Move.flow_append, Move.flow_transferIfAny hplan.toReserve,
          Move.flow_transferIfAny hplan.funding, Move.flow_transferIfAny hplan.fees, haddress,
          hsep.mintBurn_ne_escrow, (hsep.escrow_ne_reserve token).symm, hfee.ne_escrow,
          ho.user.ne_escrow, if_true, if_false]
        have := hparts d
        have := hfunding d
        have := hfees d
        have := hrefund d
        omega

theorem proper_buyMoves (b : Bond) (cfg : Config) {o : BuyOrder} {plan : BuyPlan}
    {prices : DecCoins} {reserve : Coins} (hplan : b.BuyPlanned reserve o prices plan) :
    ∀ v ∈ b.buyMoves cfg o plan, v.call.Proper := by
  intro v hv
  have hbought := (Coin.proper_toCoins o.amount).ofEntries_entries
  simp only [Bond.buyMoves, List.mem_cons, List.mem_append] at hv
  rcases hv with rfl | rfl | ((hv | hv) | hv) | hv
  · exact hbought
  · exact hbought
  · exact Move.proper_transferIfAny hplan.toReserve _ _ _ v hv
  · exact Move.proper_transferIfAny hplan.funding _ _ _ v hv
  · exact Move.proper_transferIfAny hplan.fees _ _ _ v hv
  · exact Move.proper_transferIfAny hplan.refund _ _ _ v hv

theorem Held.afterBuy (m' : Market) {supply : Int} {r : Coins} {rest : List BuyOrder}
    {o : BuyOrder} (h : Held cfg m token (b.marked supply r) (β.withBuys (o :: rest)))
    (hopen : o.isOpen = true)
    (htotal : m'.ledger.totalSupply token = m.ledger.totalSupply token + o.size) :
    Held cfg m' token
      (b.marked (supply + o.size) (m'.reserveOf b).dropZeros) (β.withBuys rest) := by
  have hsize := (h.orders.buys o List.mem_cons_self).size_pos
  have hrest : ∀ o' ∈ rest, o'.Formed cfg token := fun o' ho' =>
    h.orders.buys o' (List.mem_cons_of_mem _ ho')
  have hnonneg : 0 ≤ Batch.buySizes rest := openSum_nonneg fun o' ho' => (hrest o' ho').size_pos.le
  have htotals : (β.withBuys (o :: rest)).totalBuy = o.size + Batch.buySizes rest := by
    simp [Batch.withBuys, hopen]
  have hsupply := h.supply_nonneg
  have hsells := h.sells_le
  have hbuys := h.buys_le
  have hminted := h.minted
  have hroom := h.room
  have hsettled := h.settled
  rw [htotals] at hbuys hroom hsettled
  simp only [Bond.marked, Batch.withBuys] at *
  exact {
    formed := h.formed.marked _ _, feeUser := h.feeUser
    orders := { h.orders with buys := hrest, totalBuy := rfl }
    supply_nonneg := by simp only; omega
    sells_le := by simp only; omega
    buys_le := by simp only; omega
    family := h.family
    hatch := h.hatch
    room := fun hh => by
      obtain ⟨limit, hlimit, hle⟩ := hroom hh
      exact ⟨limit, hlimit, by simp only; omega⟩
    settled := fun hs => by have := hsettled hs; omega
    minted := by simp only; omega
    synced := rfl }

theorem Executing.pledged_le {total : Int} {reserve : Denom → Int}
    (h : Executing cfg bonded token b p m₁ total reserve γ β m) (d : Denom) :
    β.pledged d ≤ m.balance cfg.escrowAccount d := by
  obtain ⟨supply, r, hb, -⟩ := h.bond
  exact h.kept.pledged_le hb (get?_withBatch ..) d

/-- A buy that has a plan is filled by it: it takes itself out of the remaining orders, and only its
moves change balances. -/
theorem performBuy_sat_of_plan (hsep : cfg.Separate) {total : Int} {reserve : Denom → Int}
    (hprices : p.buy.Confined b.reserveTokens) {o : BuyOrder} {rest : List BuyOrder}
    (hopen : o.isOpen = true)
    (h : Executing cfg bonded token b p m₁ total reserve γ (β.withBuys (o :: rest)) m)
    {supply : Int} {r : Coins} (hb : Table.get? m.store.bonds token = some (b.marked supply r))
    (htotal : supply + (β.withBuys (o :: rest)).totalBuy - (β.withBuys (o :: rest)).totalSell =
      total)
    (hheld : Held cfg m token (b.marked supply r) (β.withBuys (o :: rest))) {plan : BuyPlan}
    (hplan : (b.marked supply r).planBuy (m.reserveOf (b.marked supply r)) o p.buy = .ok plan)
    (hplanned : (b.marked supply r).BuyPlanned (m.reserveOf (b.marked supply r)) o p.buy plan) :
    (performBuy cfg token o p.buy).Sat m
      (fun out m' => out = o.filled plan ∧
        Executing cfg bonded token b p m₁ total reserve γ (β.withBuys rest) m' ∧
        ∀ a d, m'.balance a d = m.balance a d + Move.flow a d (b.buyMoves cfg o plan))
      (fun _ _ => False) := by
  have ho := hheld.orders.buys o List.mem_cons_self
  have hflow := flow_buyMoves hsep hheld.formed.address hheld.feeUser ho hplanned
  have hescrow (d : Denom) : o.maxPrices.amountOf d ≤ m.balance cfg.escrowAccount d :=
    (hheld.orders.maxPrices_le_pledged (by simp [Batch.withBuys]) hopen d).trans (h.pledged_le d)
  simp only [performBuy, Action.sat_bind, Action.sat_get, Action.sat_lift_of_ok (bond_eq_ok hb),
    Action.sat_lift_of_ok hplan]
  -- No move can fail, as the escrow account has what the buy put there.
  apply (carryOutAll_covered h.refusals h.solvent (proper_buyMoves _ cfg hplanned)
    (covered_buyMoves hsep hheld.formed.address hheld.feeUser ho hplanned (h.solvent _)
      hescrow)).of_total
  intro _ m₂ hpost
  have hb₂ : Table.get? m₂.store.bonds token = some (b.marked supply r) := hpost.bond hb
  have hsupply : 0 ≤ (b.marked supply r).supply + o.size :=
    add_nonneg hheld.supply_nonneg ho.size_pos.le
  refine record_sat hb₂ _ (fun hneg => absurd hneg hsupply.not_gt) fun _ => ?_
  rw [Action.sat_pure]
  have hheld' := hheld.afterBuy m₂ hopen (by rw [hpost.total, (hflow token).2.2, if_pos rfl])
  refine ⟨rfl, h.fill hb hpost (fun u hu d => by rw [(hflow d).2.1, if_neg hu])
    (fun d hd => by rw [(hflow d).2.2, if_neg hd]) hheld' (fun d => ?_) ?_
    (fun hhatch d => ?_) (fun d hd => ?_) (fun hhatch _ d hd => ?_), hpost.balance⟩
  · rw [(hflow d).1, Batch.pledged_withBuys hopen]
    omega
  · rw [Batch.totalBuy_withBuys hopen, Batch.totalSell_withBuys] at htotal
    rw [Batch.totalSell_withBuys, Bond.supply_marked]
    omega
  · rw [(hflow d).2.1, if_pos rfl, hplanned.price hhatch, Batch.outlook_withBuys hopen]
  · rw [(hflow d).2.1, if_pos rfl]
    exact hplanned.toReserve_eq_zero hprices hd
  · -- The plan has brought the reserve to what is due at the new supply.
    have hd : d ∈ (b.marked supply r).reserveTokens := hd
    have hdue := hplanned.due hhatch d hd
    rw [amountOf_reserveOf, if_pos hd] at hdue
    have haddress : b.reserveAddress = reserveAccountFor token := hheld.formed.address
    show _ = Except.ok (m₂.ledger.balanceOf b.reserveAddress d)
    rw [hpost.balance, haddress, (hflow d).2.1, if_pos rfl, ← haddress]
    exact hdue

/-- What the reserve gains by a buy, as it is reported: the price less what funds a bond in its
hatch. -/
theorem gained_filled (hsep : cfg.Separate) {o : BuyOrder} {plan : BuyPlan} {prices : DecCoins}
    {reserve : Coins} {m' : Market} (haddress : b.reserveAddress = reserveAccountFor token)
    (hfee : cfg.IsUser b.feeAddress) (ho : o.Formed cfg token)
    (hplanned : b.BuyPlanned reserve o prices plan)
    (hbalance : ∀ a d, m'.balance a d = m.balance a d + Move.flow a d (b.buyMoves cfg o plan)) :
    Gained token [o.filled plan] m m' := by
  intro d
  have hsplits := hplanned.splits d
  rw [hbalance, (flow_buyMoves hsep haddress hfee ho hplanned d).2.1, if_pos rfl,
    List.map_singleton, List.sum_singleton]
  show _ = _ + (plan.cost.prices.amountOf d - plan.funding.amountOf d)
  omega

theorem performBuy_sat (hsep : cfg.Separate) {total : Int} {reserve : Denom → Int} {short : Prop}
    (hp : p.buy.Proper) (hprices : p.buy.Confined b.reserveTokens) {o : BuyOrder}
    {rest : List BuyOrder} (hopen : o.isOpen = true)
    (h : Executing cfg bonded token b p m₁ total reserve γ (β.withBuys (o :: rest)) m) :
    (performBuy cfg token o p.buy).Sat m
      (fun out m' => Executing cfg bonded token b p m₁ total reserve γ (β.withBuys rest) m' ∧
        (b.Affords o p.buy ∧ o.Reported out ∧ out.isFill = true ∧ o.Charged p.buy out) ∧
        Gained token [out] m m')
      (Halted token b short m₁) := by
  obtain ⟨supply, r, hb, htotal, hheld⟩ := h.held
  have ho := hheld.orders.buys o List.mem_cons_self
  obtain ⟨hunplanned, hplanned⟩ := Bond.planBuy_spec hheld.formed
    (m.reserveOf (b.marked supply r)) ho.size_pos.le ho.maxPrices hp
  cases hplan : (b.marked supply r).planBuy (m.reserveOf (b.marked supply r)) o p.buy with
  | ok plan =>
      have hplanned := hplanned plan hplan
      apply (performBuy_sat_of_plan hsep hprices hopen h hb htotal hheld hplan hplanned).of_total
      rintro _ m' ⟨rfl, hexec, hbalance⟩
      exact ⟨hexec, ⟨hplanned.affords, hplanned.reported hopen, rfl, hplanned.charged⟩,
        gained_filled hsep hheld.formed.address hheld.feeUser ho hplanned hbalance⟩
  | error e =>
      -- A plan that fails has moved nothing yet.
      simp only [performBuy, Action.sat_bind, Action.sat_get,
        Action.sat_lift_of_ok (bond_eq_ok hb), Action.sat_lift_of_error hplan]
      refine ⟨?_, h.apart.total⟩
      cases hunplanned e hplan with
      | price cost limit => exact .buy (.price cost limit)
      | division hhatch h => exact .buy (o := o) (.division hhatch h)

/-! ### Sells -/

theorem flow_sellMoves (hsep : cfg.Separate) {o : SellOrder} {plan : Bond.SellProceeds}
    (haddress : b.reserveAddress = reserveAccountFor token) (hfee : cfg.IsUser b.feeAddress)
    (ho : o.Formed cfg) (hr : plan.returned.Proper) (hf : plan.fees.Proper) (d : Denom) :
    Move.flow cfg.escrowAccount d (b.sellMoves o plan) = 0 ∧
      ∀ u, Move.flow (reserveAccountFor u) d (b.sellMoves o plan) =
        if u = token then -(plan.returned.amountOf d + plan.fees.amountOf d) else 0 := by
  refine ⟨?_, fun u => ?_⟩
  · simp only [Bond.sellMoves, Move.flow_append, Move.flow_transferIfAny hr,
      Move.flow_transferIfAny hf, haddress, (hsep.escrow_ne_reserve token).symm, hfee.ne_escrow,
      ho.user.ne_escrow, if_false]
    rfl
  · simp only [Bond.sellMoves, Move.flow_append, Move.flow_transferIfAny hr,
      Move.flow_transferIfAny hf, haddress, hfee.ne_reserve, ho.user.ne_reserve,
      reserveAccountFor_inj, if_false, eq_comm (a := token)]
    split <;> omega

theorem Held.afterSell (m' : Market) {supply : Int} {r : Coins} {rest : List SellOrder}
    {o : SellOrder} (h : Held cfg m token (b.marked supply r) (β.withSells (o :: rest)))
    (hopen : o.isOpen = true)
    (htotal : m'.ledger.totalSupply token = m.ledger.totalSupply token) :
    Held cfg m' token
      (b.marked (supply - o.size) (m'.reserveOf b).dropZeros) (β.withSells rest) := by
  have hsize := (h.orders.sells o List.mem_cons_self).size_pos
  have hrest : ∀ o' ∈ rest, o'.Formed cfg := fun o' ho' =>
    h.orders.sells o' (List.mem_cons_of_mem _ ho')
  have hnonneg : 0 ≤ Batch.sellSizes rest :=
    openSum_nonneg fun o' ho' => (hrest o' ho').size_pos.le
  have htotals : (β.withSells (o :: rest)).totalSell = o.size + Batch.sellSizes rest :=
    Batch.totalSell_withSells hopen
  have hbuy := h.orders.totalBuy_nonneg
  have hsells := h.sells_le
  have hbuys := h.buys_le
  have hminted := h.minted
  have hsettled := h.settled
  have hhatch := h.hatch
  rw [htotals] at hsells hsettled hminted hhatch
  simp only [Bond.marked, Batch.withSells] at *
  exact {
    formed := h.formed.marked _ _, feeUser := h.feeUser
    orders := { h.orders with sells := hrest, totalSell := rfl }
    supply_nonneg := by simp only; omega
    sells_le := by simp only; omega
    buys_le := by simp only; omega
    family := h.family
    hatch := fun hh => by have := hhatch hh; omega
    room := fun hh => by
      have := hhatch hh
      omega
    settled := fun hs => by have := hsettled hs; omega
    minted := by simp only; omega
    synced := rfl }

theorem covered_sellMoves {o : SellOrder} {plan : Bond.SellProceeds}
    {bal : Account → Denom → Int} (haddress : b.reserveAddress = reserveAccountFor token)
    (ho : o.Formed cfg) (hr : plan.returned.Proper) (hf : plan.fees.Proper)
    (hcovered : ∀ d, plan.returned.amountOf d + plan.fees.amountOf d ≤
      bal (reserveAccountFor token) d) :
    Move.Covered bal (b.sellMoves o plan) := by
  refine Move.covered_append.2 ⟨?_, ?_⟩
  all_goals
    refine Move.covered_transferIfAny (by assumption) _ _ _ fun d => ?_
    have := hcovered d
    have := hf.amountOf_nonneg d
    simp only [Move.flow_transferIfAny hr, haddress, ho.user.ne_reserve, if_true, if_false]
    omega

theorem Executing.not_inHatch {total : Int} {reserve : Denom → Int} {o : SellOrder}
    {rest : List SellOrder} (hopen : o.isOpen = true)
    (h : Executing cfg bonded token b p m₁ total reserve γ (β.withSells (o :: rest)) m) :
    b.inHatch = false := by
  obtain ⟨supply, r, -, -, hheld⟩ := h.held
  by_contra hh
  have hzero := (hheld.hatch ((Bool.not_eq_false _).mp hh)).2
  have hle := hheld.orders.size_le_totalSell (o := o) List.mem_cons_self hopen
  have := (hheld.orders.sells o List.mem_cons_self).size_pos
  omega

/-- Once the buys are filled, the reserve covers every sell if it ends up short of nothing. -/
theorem Executing.floor_le {total : Int} {reserve : Denom → Int} (hp : p.sell.Proper)
    {o : SellOrder} {rest : List SellOrder} (hopen : o.isOpen = true) (hnone : β.buys = [])
    (h : Executing cfg bonded token b p m₁ total reserve γ (β.withSells (o :: rest)) m)
    {d : Denom} (hreserve : 0 ≤ reserve d) :
    ((p.sell.times o.size).amountOf d).floorInt ≤ m.balance (reserveAccountFor token) d := by
  obtain ⟨supply, r, -, -, hheld⟩ := h.held
  have hsize {o' : SellOrder} (ho' : o' ∈ o :: rest) : 0 < o'.size :=
    (hheld.orders.sells o' ho').size_pos
  have hbalance := h.outlook (h.not_inHatch hopen) d
  have hrest : 0 ≤ openSum (fun o => o.isOpen)
      (fun o => ((p.sell.times o.size).amountOf d).floorInt) rest :=
    openSum_nonneg fun o' ho' => Dec.floorInt_nonneg
      ((hp.times (hsize (List.mem_cons_of_mem _ ho')).le).amountOf_nonneg d)
  have hoff : (β.withSells (o :: rest)).outlook p d =
      -(((p.sell.times o.size).amountOf d).floorInt + openSum (fun o => o.isOpen)
        (fun o => ((p.sell.times o.size).amountOf d).floorInt) rest) := by
    simp [Batch.outlook, Batch.withSells, hnone, hopen]
  rw [hoff] at hbalance
  omega

/-- A sell is filled by its plan: it takes itself out of the remaining orders, and only its moves
change balances. If it is not filled, the reserve was short, and no total has changed. -/
theorem performSell_sat_of_plan (hsep : cfg.Separate) {total : Int} {reserve : Denom → Int}
    (hp : p.sell.Proper) (hprices : p.sell.Confined b.reserveTokens) {o : SellOrder}
    {rest : List SellOrder} (hopen : o.isOpen = true) (hnone : β.buys = [])
    (h : Executing cfg bonded token b p m₁ total reserve γ (β.withSells (o :: rest)) m)
    {supply : Int} {r : Coins} (hb : Table.get? m.store.bonds token = some (b.marked supply r))
    (htotal : supply + (β.withSells (o :: rest)).totalBuy - (β.withSells (o :: rest)).totalSell =
      total)
    (hheld : Held cfg m token (b.marked supply r) (β.withSells (o :: rest)))
    {plan : Bond.SellProceeds} (hplan : b.sellProceeds o.size p.sell = .ok plan)
    (hreturned : plan.returned.Proper) (hfees : plan.fees.Proper)
    (hsum : ∀ d, plan.returned.amountOf d + plan.fees.amountOf d =
      ((p.sell.times o.size).amountOf d).floorInt) :
    (performSell token o p.sell).Sat m
      (fun out m' => out = o.sold plan ∧
        Executing cfg bonded token b p m₁ total reserve γ (β.withSells rest) m' ∧
        ∀ a d, m'.balance a d = m.balance a d + Move.flow a d (b.sellMoves o plan))
      (fun e m' => (Purpose.withdrawReserve.Failed e ∧ ∃ d, reserve d < 0) ∧
        ∀ d, m'.ledger.totalSupply d = m.ledger.totalSupply d) := by
  have ho := hheld.orders.sells o List.mem_cons_self
  have hflow := flow_sellMoves (b := b) hsep hheld.formed.address hheld.feeUser ho hreturned hfees
  have hproper : ∀ v ∈ b.sellMoves o plan, v.call.Proper := fun v hv =>
    (List.mem_append.1 hv).elim (Move.proper_transferIfAny hreturned _ _ _ v)
      (Move.proper_transferIfAny hfees _ _ _ v)
  have hpurpose : ∀ v ∈ b.sellMoves o plan, v.purpose = .withdrawReserve :=
    fun v hv => (List.mem_append.1 hv).elim Move.purpose_of_mem_transferIfAny
      Move.purpose_of_mem_transferIfAny
  have hmade : ∀ d, ∀ v ∈ b.sellMoves o plan, v.call.made d = 0 := fun d v hv =>
    (List.mem_append.1 hv).elim (Move.made_of_mem_transferIfAny · d)
      (Move.made_of_mem_transferIfAny · d)
  have hnothing : ∀ d, Move.made d (b.sellMoves o plan) = 0 := by
    simp [Bond.sellMoves]
  have hplan : (b.marked supply r).sellProceeds o.size p.sell = .ok plan := hplan
  simp only [performSell, Action.sat_bind, Action.sat_get, Action.sat_lift_of_ok (bond_eq_ok hb),
    Action.sat_lift_of_ok hplan]
  -- The reserve may be short, so that the moves of a sell can fail.
  refine (carryOutAll_sat h.refusals h.solvent hproper).mono
    (fun _ m₂ hpost => ?_) fun e m' he => ⟨?_, fun d => he.2 d (hmade d)⟩
  · have hb₂ : Table.get? m₂.store.bonds token = some (b.marked supply r) := hpost.bond hb
    have hheld' := hheld.afterSell m₂ hopen (by rw [hpost.total, hnothing, add_zero])
    refine record_sat hb₂ _ (fun hneg => absurd hneg hheld'.supply_nonneg.not_gt) fun _ => ?_
    rw [Action.sat_pure]
    refine ⟨rfl, h.fill hb hpost (fun u hu d => by rw [(hflow d).2, if_neg hu])
      (fun d _ => hnothing d) hheld' (fun d => ?_) ?_ (fun _ d => ?_) (fun d hd => ?_)
      (fun hhatch => absurd hhatch (by simp [h.not_inHatch hopen])), hpost.balance⟩
    · rw [(hflow d).1, zero_add]
      rfl
    · rw [Batch.totalSell_withSells hopen, Batch.totalBuy_withSells] at htotal
      rw [Batch.totalBuy_withSells, Bond.supply_marked]
      omega
    · rw [(hflow d).2, if_pos rfl, hsum, Batch.outlook_withSells hopen]
      omega
    · rw [(hflow d).2, if_pos rfl, hsum, hprices.times _ d hd]
      decide
  · obtain ⟨⟨⟨v, hv, hfailed⟩, huncovered⟩, -⟩ := he
    refine ⟨hpurpose v hv ▸ hfailed, ?_⟩
    by_contra hreserve
    refine huncovered (covered_sellMoves hheld.formed.address ho hreturned hfees fun d => ?_)
    rw [hsum]
    exact h.floor_le hp hopen hnone (not_lt.1 fun hneg => hreserve ⟨d, hneg⟩)

theorem performSell_sat (hsep : cfg.Separate) {total : Int} {reserve : Denom → Int}
    (hp : p.sell.Proper) (hprices : p.sell.Confined b.reserveTokens) {o : SellOrder}
    {rest : List SellOrder} (hopen : o.isOpen = true) (hnone : β.buys = [])
    (h : Executing cfg bonded token b p m₁ total reserve γ (β.withSells (o :: rest)) m) :
    (performSell token o p.sell).Sat m
      (fun out m' => Executing cfg bonded token b p m₁ total reserve γ (β.withSells rest) m' ∧
        (o.Reported .sell out ∧ out.isFill = true ∧ o.Paid p.sell out) ∧ Gained token [out] m m')
      (Halted token b (∃ d, reserve d < 0) m₁) := by
  obtain ⟨supply, r, hb, htotal, hheld⟩ := h.held
  have ho := hheld.orders.sells o List.mem_cons_self
  -- Unlike a buy, a sell always has a plan.
  obtain ⟨plan, hplan, hreturned, hfees, hsum, -⟩ :=
    Bond.sellProceeds_spec hheld.formed.txFee hheld.formed.exitFee hp ho.size_pos.le
  have hflow := flow_sellMoves (b := b) hsep hheld.formed.address hheld.feeUser ho hreturned hfees
  refine (performSell_sat_of_plan hsep hp hprices hopen hnone h hb htotal hheld hplan hreturned
    hfees hsum).mono ?_ fun e m' he => ⟨.sell he.1.2 he.1.1, fun d hd => ?_⟩
  · rintro _ m' ⟨rfl, hexec, hbalance⟩
    refine ⟨hexec, ⟨⟨rfl, rfl, rfl⟩, rfl, hsum⟩, fun d => ?_⟩
    rw [hbalance, (hflow d).2, if_pos rfl, List.map_singleton,
      List.sum_singleton]
    rfl
  · rw [he.2 d]
    exact h.apart.total d hd

end Market
end BondMarket
