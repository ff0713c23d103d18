import BondMarket.Market.Basic

/-!
Looking at a market: prices and reserves against the ledger as it is. A query about a bond that
does not exist is turned down.
-/

namespace BondMarket.Market

def currentPrices (m : Market) (token : Denom) : Result DecCoins := do
  let b ← m.bondFor token
  b.spotPrices (m.reserveOf b)

/-- The reserve without its zero amounts. -/
def currentReserve (m : Market) (token : Denom) : Result Coins := do
  return (m.reserveOf (← m.bondFor token)).dropZeros

def mintPrices (m : Market) (token : Denom) (amount : Int) : Result DecCoins := do
  let b ← m.bondFor token
  b.mintPrices amount (m.reserveOf b)

def burnReturns (m : Market) (token : Denom) (amount : Int) : Result DecCoins := do
  let b ← m.bondFor token
  b.burnReturns amount (m.reserveOf b)

def swapReturns (m : Market) (token : Denom) (source : Coin) (target : Denom) :
    Result (Coin × Coin) := do
  let b ← m.bondFor token
  b.swapReturns source target (m.reserveOf b)

/-- The price that the reserve of an augmented bond implies by itself. -/
def spotPrice (m : Market) (cfg : Config) (token : Denom) : Result Dec := do
  let b ← m.bondFor token
  b.spotPriceOfReserve (m.reserveOf b) cfg.rootSteps

end BondMarket.Market
