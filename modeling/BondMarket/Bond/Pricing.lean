import BondMarket.Bond.Basic
import BondMarket.Curve.ValueFunction
import BondMarket.Pool

/-!
The prices of a bond. A curve is evaluated against the actual reserve: minting asks for what the
reserve lacks at the larger supply, and burning returns what it has beyond the smaller one, so
that a surplus or a deficit goes to the next who mints or burns. Neither falls below zero.

In its hatch an augmented bond has a flat price. A swapper prices from its pool.
-/

namespace BondMarket.Bond

def curve (b : Bond) : Result Curve := Curve.ofParams b.functionType b.parameters

def uniformAmount (b : Bond) (amount : Dec) : DecCoins := DecCoins.uniform b.reserveTokens amount

def pricesAt (b : Bond) (supply : Int) : Result DecCoins := do
  if b.isSwapper then
    reject .functionNotAvailableForFunctionType
      "swapper bonds have no price at an arbitrary supply"
  else if b.inHatch then return b.uniformAmount (← b.parameters.value "p0")
  else return b.uniformAmount (← (← b.curve).priceAt supply)

def spotPrices (b : Bond) (reserve : Coins) : Result DecCoins :=
  if b.isSwapper then Pool.pricesPerToken reserve b.reserveTokens b.supply
  else b.pricesAt b.supply

/-- The reserve that the curve asks for at a supply. -/
def reserveAt (b : Bond) (supply : Int) : Result Dec := do (← b.curve).reserveAt supply

def mintPrices (b : Bond) (amount : Int) (reserve : Coins) : Result DecCoins := do
  if b.isSwapper then Pool.sharesOf reserve b.reserveTokens amount b.supply
  else if b.inHatch then return b.uniformAmount ((← b.parameters.value "p0").times amount)
  else
    let target ← b.reserveAt (b.supply + amount)
    DecCoins.tabulate b.reserveTokens fun d =>
      .ok (target - Dec.ofInt (reserve.amountOf d)).clamped

def burnReturns (b : Bond) (amount : Int) (reserve : Coins) : Result DecCoins := do
  if b.isSwapper then Pool.sharesOf reserve b.reserveTokens amount b.supply
  else if b.supply < amount then reject .cannotBurnMoreThanSupply s!"{amount}{b.token}"
  else
    let target ← b.reserveAt (b.supply - amount)
    DecCoins.tabulate b.reserveTokens fun d =>
      .ok (Dec.ofInt (reserve.amountOf d) - target).clamped

def swapReturns (b : Bond) (input : Coin) (target : Denom) (reserve : Coins) :
    Result (Coin × Coin) := do
  if !b.isSwapper then reject .functionNotAvailableForFunctionType b.functionType.text
  else
    checkReserveToken input.denom
    checkReserveToken target
    let swap ← Pool.swapExactIn (reserve.amountOf input.denom) (reserve.amountOf target)
      input.amount b.txFee
    return (← Coin.ofInt target swap.output, ← Coin.ofInt input.denom swap.fee)
where
  checkReserveToken (d : Denom) : Result Unit :=
    rejectIf (d ∉ b.reserveTokens) .tokenIsNotAValidReserveToken d

def txFees (b : Bond) (values : DecCoins) : Result Coins := Fee.ofValues values b.txFee

/-- The further fees on selling for values. -/
def exitFees (b : Bond) (values : DecCoins) : Result Coins := Fee.ofValues values b.exitFee

def violatesSanity (b : Bond) (reserve : Coins) : Result Bool :=
  Pool.reservesViolateRate reserve (sortedTexts b.reserveTokens) b.sanityRate b.sanityMargin

/-- The price that the reserve of an augmented bond implies by itself. -/
def spotPriceOfReserve (b : Bond) (reserve : Coins) (steps : Int) : Result Dec := do
  if !b.isAugmented then reject .functionNotAvailableForFunctionType b.functionType.text
  else if b.inHatch then b.parameters.value "p0"
  else
    let held := Dec.ofInt (reserve.amountOf (b.reserveTokens.headD ""))
    let kappa := (← b.parameters.value "kappa").truncInt
    ValueFunction.spotPrice held kappa (← b.parameters.value "V0") steps

end BondMarket.Bond
