import BondMarket.Market.Execution
import BondMarket.Coins.Parser
import BondMarket.Request

/-!
Admitting requests. A request is decided on the state as it is: its stateless checks, the bond it
names, the bond's phase and limits, balances and prices, in this order. Only what passes them all
makes a first call of the ledger, which may still turn the request down but then moves nothing.

A buy puts the most it may pay into escrow and joins the batch, which may push out earlier buys
that cannot pay the new price. The first buy of a swapper bond without supply is not batched: its
payment becomes the pool at once. A sell gives its tokens to be burned when it is admitted, a swap
puts its input into escrow.
-/

namespace BondMarket

/-- The bond that a checked request describes. An augmented bond gets the constants of its hatch
and starts there, with sells turned off. -/
def CreateBond.build (r : CreateBond) (cfg : Config) (functionType : FunctionType) :
    Result Bond := do
  let augmented := functionType = .augmented
  let parameters ←
    if augmented then pure ((← HatchConstants.ofParams r.parameters).addTo r.parameters)
    else pure r.parameters
  let b : Bond := {
    token := r.token
    name := r.name
    description := r.description
    creator := r.creator
    functionType
    parameters
    reserveTokens := r.reserveTokens
    txFee := r.txFee
    exitFee := r.exitFee
    feeAddress := r.feeAddress
    maxSupply := r.maxSupply.amount
    reserveAddress := ""
    sanityRate := r.sanityRate
    sanityMargin := r.sanityMargin
    allowSells := if augmented then false else r.allowSells
    signers := r.signers
    batchBlocks := r.batchBlocks.getD cfg.defaultBlocks
    phase := if augmented then .hatch else .opened }
  b.make r.orderLimits r.outcomePayment []

def EditBond.sanity (r : EditBond) (keep : String) (b : Bond) : Result (Dec × Dec) :=
  if r.sanityRate = keep then .ok (b.sanityRate, b.sanityMargin)
  else if r.sanityRate = "" then .ok (Dec.zero, Dec.zero)
  else do
    let rate ← Check.decimal r.sanityRate "sanity rate"
    Check.notNegative rate "sanity rate"
    let margin ← Check.decimal r.sanityMargin "sanity margin percentage"
    Check.notNegative margin "sanity margin percentage"
    return (rate, margin)

def EditBond.limits (r : EditBond) (keep : String) (b : Bond) : Result Coins :=
  if r.orderLimits = keep then .ok b.orderLimits
  else match Coins.parse r.orderLimits with
    | .ok c => .ok c
    | .error e => reject .invalidCoinDenomination e.message

/-- The bond after an edit, in which every field that does not hold the text `keep` is read
anew. -/
def EditBond.apply (r : EditBond) (keep : String) (b : Bond) : Result Bond := do
  let orderLimits ← r.limits keep b
  let (sanityRate, sanityMargin) ← r.sanity keep b
  return { b with
    name := if r.name = keep then b.name else r.name
    description := if r.description = keep then b.description else r.description
    orderLimits, sanityRate, sanityMargin }

def Bond.checkTrading (b : Bond) : Result Unit :=
  rejectIf (b.phase = .settled) .invalidStateForAction s!"{b.token} is settled"

def Bond.checkLimits (b : Bond) (c : Coin) : Result Unit :=
  rejectIf (b.limitsExceeded c.toCoins) .orderQuantityLimitExceeded c.text

def Bond.checkReserveTokens (b : Bond) (denoms : List Denom) : Result Unit :=
  let given := String.intercalate "," denoms
  let expected := String.intercalate "," b.reserveTokens
  rejectIf (!b.hasReserveTokens denoms) .reserveDenomsMismatch
    s!"{given} not equal to reserve tokens {expected}"

namespace Market

def createBond (cfg : Config) (r : CreateBond) : Action Bond := do
  let functionType ← r.check
  let m ← get
  rejectIf (Table.contains m.store.bonds r.token) .bondAlreadyExists r.token
  let b ← r.build cfg functionType
  let batch ← Batch.new b.token b.batchBlocks
  setBond b.token b
  setBatch b.token batch
  return b

def edited (m : Market) (cfg : Config) (r : EditBond) : Result Bond := do
  r.check cfg.doNotModify
  let b ← m.bondFor r.token
  rejectIf (r.signers ≠ b.signers) .signersMismatch
    "list of signers does not match the one in the bond"
  r.apply cfg.doNotModify b

def editBond (cfg : Config) (r : EditBond) : Action Bond := do
  let b ← edited (← get) cfg r
  setBond r.token b
  return b

/-- The prices of a batch with a buy included, if the buy can be filled at them. A batch takes the
supply neither above its maximum nor, in the hatch, above the end of the hatch. -/
def pricesWithBuy (m : Market) (token : Denom) (o : BuyOrder) : Result ClearingPrices := do
  let b ← m.store.bond token
  let batch ← m.store.batch token
  let supply := (← m.store.supplyWithBuys token) + o.size
  rejectIf (b.maxSupply < supply) .cannotMintMoreThanMaxSupply s!"{b.maxSupply}{token}"
  if b.inHatch then
    let limit ← b.hatchLimit
    rejectIf (limit < supply) .exceedsHatchSupply
      s!"buy exceeds initial supply S0 ({limit}); consider buying fewer tokens"
  let prices ← b.clearingPrices (m.reserveOf b) (batch.totalBuy + o.size) batch.totalSell
  b.checkAffordable o prices.buy
  return prices

def pricesWithSell (m : Market) (token : Denom) (o : SellOrder) : Result ClearingPrices := do
  let b ← m.store.bond token
  let batch ← m.store.batch token
  rejectIf ((← m.store.supplyWithoutSells token) < o.size) .cannotBurnMoreThanSupply o.amount.text
  b.clearingPrices (m.reserveOf b) batch.totalBuy (batch.totalSell + o.size)

/-- How a buy enters the market. -/
inductive BuyEntry where
  /-- It founds the pool of a swapper bond. -/
  | found (b : Bond) (o : BuyOrder)
  /-- It joins the batch, which then has these prices. -/
  | join (o : BuyOrder) (prices : ClearingPrices)
deriving DecidableEq, Repr

def decideBuy (m : Market) (r : BuyRequest) : Result BuyEntry := do
  r.check
  let token := r.amount.denom
  let b ← m.bondFor token
  b.checkTrading
  let maxPrices ← Coins.ofEntries r.maxPrices
  b.checkReserveTokens (Table.keys maxPrices)
  b.checkLimits r.amount
  let o : BuyOrder := { address := r.buyer, amount := r.amount, maxPrices }
  -- Without supply a pool has no price, and what is paid sets it.
  if b.isSwapper && b.supply == 0 then
    rejectIf (← b.violatesSanity maxPrices) .valuesViolateSanityRate maxPrices.text
    rejectIf (b.maxSupply < o.size) .cannotMintMoreThanMaxSupply s!"{b.maxSupply}{b.token}"
    return .found b o
  else
    m.ledger.covers r.buyer maxPrices
    return .join o (← m.pricesWithBuy token o)

def foundPool (cfg : Config) (token : Denom) (b : Bond) (o : BuyOrder) : Action Unit := do
  call (.transfer o.address b.reserveAddress o.maxPrices.entries)
  let minted := o.amount.toCoins.entries
  carryOutAll [
    ⟨.mintTokens, .mint cfg.mintBurnAccount minted⟩,
    ⟨.sendTokens, .transfer cfg.mintBurnAccount o.address minted⟩]
  setSupply token (b.supply + o.size)
  syncReserve token

/-- Puts the payment of a buy into escrow and takes the buy into the batch, which may cancel
others or, at the new prices, the buy itself. The order is returned as it then stands. -/
def joinBatch (cfg : Config) (token : Denom) (o : BuyOrder) (prices : ClearingPrices) :
    Action BuyOrder := do
  call (.transfer o.address cfg.escrowAccount o.maxPrices.entries)
  let batch ← (← get).store.batch token
  setBatch token (batch.addBuy o prices.buy prices.sell)
  let _ ← cancelUnfulfillable cfg token
  -- The buy was put behind those that were there before.
  Batch.orderAt (← (← get).store.batch token).buys batch.buys.length

def submitBuy (cfg : Config) (r : BuyRequest) : Action BuyOrder := do
  match ← decideBuy (← get) r with
  | .found b o =>
    foundPool cfg r.amount.denom b o
    return o
  | .join o prices => joinBatch cfg r.amount.denom o prices

def decideSell (m : Market) (r : SellRequest) : Result (SellOrder × ClearingPrices) := do
  r.check
  let token := r.amount.denom
  let b ← m.bondFor token
  b.checkTrading
  rejectIf (!b.allowSells) .bondDoesNotAllowSelling token
  b.checkLimits r.amount
  m.ledger.covers r.seller r.amount.toCoins
  let o : SellOrder := { address := r.seller, amount := r.amount }
  return (o, ← m.pricesWithSell token o)

/-- Admits a sell. Its tokens are burned at once. -/
def submitSell (cfg : Config) (r : SellRequest) : Action SellOrder := do
  let (o, prices) ← decideSell (← get) r
  let sold := r.amount.toCoins.entries
  call (.transfer r.seller cfg.mintBurnAccount sold)
  carryOut ⟨.burnSold, .burn cfg.mintBurnAccount sold⟩
  let batch ← (← get).store.batch r.amount.denom
  setBatch r.amount.denom (batch.addSell o prices.buy prices.sell)
  return o

def decideSwap (m : Market) (r : SwapRequest) : Result SwapOrder := do
  r.check
  let b ← m.bondFor r.bondToken
  rejectIf (!b.isSwapper) .functionNotAvailableForFunctionType b.functionType.text
  b.checkTrading
  b.checkReserveTokens [r.source.denom, r.toToken]
  b.checkLimits r.source
  rejectIf (b.supply = 0) .curveUnavailable "swapper bond has not been initialised by a first buy"
  return { address := r.swapper, amount := r.source, toToken := r.toToken }

def submitSwap (cfg : Config) (r : SwapRequest) : Action SwapOrder := do
  let o ← decideSwap (← get) r
  call (.transfer r.swapper cfg.escrowAccount r.source.toCoins.entries)
  let batch ← (← get).store.batch r.bondToken
  setBatch r.bondToken (batch.addSwap o)
  return o

end Market
end BondMarket
