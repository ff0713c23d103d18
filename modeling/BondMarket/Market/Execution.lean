import BondMarket.Market.Basic

/-!
Executing the orders of a batch. What an order moves is settled before the first coin moves: its
price, fees and refund are computed and checked, then the moves are carried out in a fixed order,
and last the supply and the reserve of the bond are recorded.

Buys that cannot pay the prices of the batch are cancelled beforehand and get back what they had
put into escrow; the prices are then computed once more. A swap that the pool cannot serve, or
that would leave the sanity band, is cancelled in its turn and gets its input back.
-/

namespace BondMarket

structure BuyPlan where
  cost : Bond.BuyCost
  refund : Coins
  toReserve : Coins
  /-- The part of the payment that funds a bond in its hatch. -/
  funding : Coins
deriving DecidableEq, Repr

namespace Bond

/-- Divides the payment of a buy in the hatch. The reserve has to hold the flat price of the
whole supply, less the share `theta`, rounded up; what the buy pays beyond that is funding. -/
def splitHatchPayment (b : Bond) (reserve : Coins) (amount : Int) (paid : Coins) :
    Result (Coins × Coins) := do
  match sortedTexts b.reserveTokens with
  | [] => Fault.tooFewReserveTokens.fail
  | d :: _ =>
    let p0 ← b.parameters.value "p0"
    let theta ← b.parameters.value "theta"
    let target := (p0.times (b.supply + amount) * (Dec.one - theta)).ceilInt
    let owed := target - reserve.amountOf d
    let available := paid.amountOf d
    if owed < 0 ∨ available < owed then
      let code := Code.insufficientReserveToBuy.text
      .error (.violated [s!"{code}: {available}{d} paid, {owed}{d} owed to reserve"])
    else
      let toReserve : Coins :=
        if owed = 0 then [] else Table.ofKeys b.reserveTokens fun _ => owed
      return (toReserve, ← paid.sub toReserve)

def planBuy (b : Bond) (reserve : Coins) (o : BuyOrder) (prices : DecCoins) : Result BuyPlan := do
  let cost ← b.buyCost o.size prices
  -- Buys that cannot pay have been cancelled by now, so that this stops the settlement.
  if cost.total.anyAbove o.maxPrices then
    let limit := o.maxPrices.text
    .error (.violated [s!"buy from {o.address} costs {cost.total.text} > max prices {limit}"])
  else
    let refund ← o.maxPrices.sub cost.total
    if b.inHatch then
      let (toReserve, funding) ← b.splitHatchPayment reserve o.size cost.prices
      return { cost, refund, toReserve, funding }
    else return { cost, refund, toReserve := cost.prices, funding := [] }

/-- The moves of a buy: the tokens are made and sent, then the escrow is paid out. -/
def buyMoves (b : Bond) (cfg : Config) (o : BuyOrder) (p : BuyPlan) : List Move :=
  let bought := o.amount.toCoins.entries
  ⟨.mintTokens, .mint cfg.mintBurnAccount bought⟩ ::
  ⟨.sendTokens, .transfer cfg.mintBurnAccount o.address bought⟩ ::
  (Move.transferIfAny .depositReserve cfg.escrowAccount b.reserveAddress p.toReserve ++
  Move.transferIfAny .releaseEscrow cfg.escrowAccount b.feeAddress p.funding ++
  Move.transferIfAny .releaseEscrow cfg.escrowAccount b.feeAddress p.cost.fees ++
  Move.transferIfAny .releaseEscrow cfg.escrowAccount o.address p.refund)

/-- The moves of a sell: the reserve pays the seller and the fees. -/
def sellMoves (b : Bond) (o : SellOrder) (p : SellProceeds) : List Move :=
  Move.transferIfAny .withdrawReserve b.reserveAddress o.address p.returned ++
  Move.transferIfAny .withdrawReserve b.reserveAddress b.feeAddress p.fees

end Bond

structure SwapPlan where
  output : Coin
  fee : Coin
  /-- The part of the input that goes to the pool. -/
  netIn : Int
deriving DecidableEq, Repr

namespace Bond

/-- What a swap gives and takes against a given reserve, if it stays within the sanity band. -/
def planSwap (b : Bond) (reserve : Coins) (o : SwapOrder) : Result SwapPlan := do
  let (output, fee) ← b.swapReturns o.amount o.toToken reserve
  let netIn := o.size - fee.amount
  let after ← Pool.applySwap reserve o.amount.denom netIn o.toToken output.amount
  if ← b.violatesSanity after then reject .valuesViolateSanityRate after.text
  else return { output, fee, netIn }

def swapMoves (b : Bond) (cfg : Config) (o : SwapOrder) (p : SwapPlan) : List Move :=
  Move.transferIfAny .withdrawReserve b.reserveAddress o.address p.output.toCoins ++
  ⟨.depositReserve,
    .transfer cfg.escrowAccount b.reserveAddress [(o.amount.denom, some p.netIn)]⟩ ::
  Move.transferIfAny .releaseEscrow cfg.escrowAccount b.feeAddress p.fee.toCoins

end Bond

namespace Market

def batchPrices (m : Market) (token : Denom) (batch : Batch) : Result ClearingPrices := do
  let b ← m.store.bond token
  b.clearingPrices (m.reserveOf b) batch.totalBuy batch.totalSell

def performBuy (cfg : Config) (token : Denom) (o : BuyOrder) (prices : DecCoins) :
    Action Outcome := do
  let m ← get
  let b ← m.store.bond token
  let p ← b.planBuy (m.reserveOf b) o prices
  carryOutAll (b.buyMoves cfg o p)
  setSupply token (b.supply + o.size)
  syncReserve token
  return {
    kind := .buy
    address := o.address
    amount := o.amount.toCoins
    prices := p.cost.prices
    fees := p.cost.fees
    returned := p.refund
    funding := p.funding }

def performSell (token : Denom) (o : SellOrder) (prices : DecCoins) : Action Outcome := do
  let m ← get
  let b ← m.store.bond token
  let p ← b.sellProceeds o.size prices
  carryOutAll (b.sellMoves o p)
  setSupply token (b.supply - o.size)
  syncReserve token
  return {
    kind := .sell
    address := o.address
    amount := o.amount.toCoins
    fees := p.fees
    returned := p.returned }

def cancelSwap (cfg : Config) (token : Denom) (index : Nat) (o : SwapOrder) (reason : String) :
    Action Outcome := do
  let batch ← (← get).store.batch token
  setBatch token (← batch.markSwap index reason)
  let input := o.amount.toCoins
  carryOutAll (Move.transferIfAny .releaseEscrow cfg.escrowAccount o.address input)
  return {
    kind := .swap
    address := o.address
    amount := input
    cancelReason := some reason
    returned := input }

/-- Executes a swap, or cancels it where it is turned down. -/
def performSwap (cfg : Config) (token : Denom) (index : Nat) : Action Outcome := do
  let m ← get
  let b ← m.store.bond token
  let batch ← m.store.batch token
  let o ← Batch.orderAt batch.swaps index
  match b.planSwap (m.reserveOf b) o with
  | .error e => if e.isRejection then cancelSwap cfg token index o e.message else throw e
  | .ok p =>
    carryOutAll (b.swapMoves cfg o p)
    syncReserve token
    return {
      kind := .swap
      address := o.address
      amount := o.amount.toCoins
      fees := p.fee.toCoins
      returned := p.output.toCoins }

/-- Cancels a buy that cannot pay the prices of its batch and gives back what it had put into
escrow. -/
def cancelIfUnaffordable (cfg : Config) (token : Denom) (index : Nat) :
    Action (Option Outcome) := do
  let m ← get
  let b ← m.store.bond token
  let batch ← m.store.batch token
  let o ← Batch.orderAt batch.buys index
  if !o.isOpen then return none
  else match b.checkAffordable o batch.buyPrices with
    | .ok () => return none
    | .error e =>
      if !e.isRejection then throw e
      else
        let (o, batch) ← batch.cancelBuy index e.message
        setBatch token batch
        carryOutAll (Move.transferIfAny .releaseEscrow cfg.escrowAccount o.address o.maxPrices)
        return some (.ofCancelledBuy o)

/-- Applies an action to the places of a list in order and gathers what it yields. -/
def gather {α β : Type} (act : α → Action (Option β)) : List α → Action (List β)
  | [] => pure []
  | i :: is => do
    let o ← act i
    let os ← gather act is
    return o.toList ++ os

def cancelUnaffordableBuys (cfg : Config) (token : Denom) : Action (List Outcome) := do
  let m ← get
  let _ ← m.store.bond token
  let batch ← m.store.batch token
  -- A cancelled buy keeps its place, so that the places do not change on the way.
  gather (cancelIfUnaffordable cfg token) (List.range batch.buys.length)

def reprice (token : Denom) : Action Unit := do
  let m ← get
  let batch ← m.store.batch token
  match m.batchPrices token batch with
  | .ok p => setBatch token { batch with buyPrices := p.buy, sellPrices := p.sell }
  | .error e => throw (e.escalate s!"repricing batch for {token}")

/-- Cancels the buys that cannot pay, and computes the prices anew if there were any. Sells can
always be filled, and swaps are cancelled only in their turn. -/
def cancelUnfulfillable (cfg : Config) (token : Denom) : Action (List Outcome) := do
  let cancelled ← cancelUnaffordableBuys cfg token
  if cancelled = [] then return []
  else
    reprice token
    return cancelled

def performOpenSwap (cfg : Config) (token : Denom) (index : Nat) : Action (Option Outcome) := do
  let batch ← (← get).store.batch token
  let o ← Batch.orderAt batch.swaps index
  if o.isOpen then return some (← performSwap cfg token index) else return none

/-- Executes the open orders of a batch: the buys, then the sells, then the swaps, each in the
order of their arrival. -/
def performOrders (cfg : Config) (token : Denom) : Action (List Outcome) := do
  let batch ← (← get).store.batch token
  -- All orders are filled at the prices that hold now, although each changes the reserve.
  let buys ← gather (fun o => some <$> performBuy cfg token o batch.buyPrices) batch.openBuys
  let sells ← gather (fun o => some <$> performSell token o batch.sellPrices) batch.openSells
  let swaps ← gather (performOpenSwap cfg token) (List.range batch.swaps.length)
  return buys ++ sells ++ swaps

def violations (m : Market) (token : Denom) : Result (List String) := do
  let b ← m.store.bond token
  let batch ← m.store.batch token
  return (← b.violations) ++ batch.violations

def settle (cfg : Config) (token : Denom) : Action Settlement := do
  let _ ← cancelUnfulfillable cfg token
  let batch ← (← get).store.batch token
  -- Buys that an earlier admission has pushed out are reported with those of this pass.
  let cancelled := (batch.buys.filter fun o => !o.isOpen).map Outcome.ofCancelledBuy
  let outcomes ← performOrders cfg token
  match ← (← get).violations token with
  | [] => return {
      token
      buyPrices := batch.buyPrices
      sellPrices := batch.sellPrices
      outcomes := cancelled ++ outcomes }
  | vs => throw (.violated vs)

end Market
end BondMarket
