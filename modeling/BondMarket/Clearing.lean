import BondMarket.Bond.Pricing

/-!
The prices at which a batch clears. The smaller side of a batch is matched against the larger one
at the spot price, and only the excess moves along the curve: the larger side pays, or receives,
the average of the spot price for what is matched and the curve's price for what is not.

A buyer owes every amount rounded up, with the fee taken on the amount before rounding. A seller
gets every amount rounded down, less fees that are capped at it.
-/

namespace BondMarket

/-- The prices of one token on the two sides of a batch. -/
structure ClearingPrices where
  buy : DecCoins
  sell : DecCoins
deriving DecidableEq, Repr

namespace Bond

/-- The clearing prices of a batch with given totals, against a given reserve. -/
def clearingPrices (b : Bond) (reserve : Coins) (totalBuy totalSell : Int) :
    Result ClearingPrices := do
  let spot ← b.spotPrices reserve
  if totalBuy = totalSell then return ⟨spot, spot⟩
  else if totalSell < totalBuy then
    let excess ← b.mintPrices (totalBuy - totalSell) reserve
    return ⟨← ((spot.times totalSell).add excess).divInt totalBuy, spot⟩
  else
    let excess ← b.burnReturns (totalSell - totalBuy) reserve
    return ⟨spot, ← ((spot.times totalBuy).add excess).divInt totalSell⟩

structure BuyCost where
  /-- The reserve, rounded up. -/
  prices : Coins
  fees : Coins
  total : Coins
deriving DecidableEq, Repr

def buyCost (b : Bond) (amount : Int) (prices : DecCoins) : Result BuyCost := do
  let values := prices.times amount
  let rounded ← values.roundUp
  let fees ← b.txFees values
  return ⟨rounded, fees, ← rounded.add fees⟩

structure SellProceeds where
  /-- The reserve, rounded down, without the fees. -/
  returned : Coins
  fees : Coins
deriving DecidableEq, Repr

def sellProceeds (b : Bond) (amount : Int) (prices : DecCoins) : Result SellProceeds := do
  let values := prices.times amount
  let rounded ← values.roundDown
  let fees ← (← b.txFees values).add (← b.exitFees values)
  let capped ← Fee.cap fees rounded
  return ⟨← rounded.sub capped, capped⟩

/-- Turns a buy down that cannot pay for itself at given prices. -/
def checkAffordable (b : Bond) (o : BuyOrder) (prices : DecCoins) : Result Unit := do
  let cost ← b.buyCost o.size prices
  if cost.total.anyAbove o.maxPrices then
    reject .maxPriceExceeded
      s!"actual prices {cost.total.text} exceed max prices {o.maxPrices.text}"
  else return ()

end Bond
end BondMarket
