import BondMarket.Coins.Decimal

/-!
Rounding between decimal values and coins. What the market receives, prices and fees, rounds up;
what it pays out rounds down. A fee is a percentage of a value, computed without rounding the rate
first, so that a positive rate on a positive value never gives a fee of zero.
-/

namespace BondMarket.Fee

/-- A percentage of a value, rounded up. -/
def ofValue (value percentage : Dec) : Result Int :=
  if percentage.isNegative then (Fault.negativeFeeRate percentage).fail
  else if value.isNegative then (Fault.negativeFeeBase value).fail
  else .ok (ceilDiv (value.raw * percentage.raw) (100 * Dec.scale * Dec.scale))

def ofValues (values : DecCoins) (percentage : Dec) : Result Coins := do
  Coins.normalize (← Table.traverse (fun _ v => ofValue v percentage) values)

/-- Each fee, but no more than what there is of its denomination. -/
def cap (fees available : Coins) : Result Coins :=
  Coins.normalize (Table.mapValues (fun d f => min f (Coins.amountOf available d)) fees)

def share (value percentage : Dec) : Result Dec :=
  if percentage.isZero then .ok Dec.zero
  else do return value * (← percentage.div Dec.hundred)

end Fee

namespace DecCoins

/-- What is received for values: every amount rounded up. -/
def roundUp (c : DecCoins) : Result Coins :=
  Coins.normalize (Table.mapValues (fun _ x => x.ceilInt) c)

/-- What is paid out for values: every amount rounded down. -/
def roundDown (c : DecCoins) : Result Coins :=
  Coins.normalize (Table.mapValues (fun _ x => x.floorInt) c)

end BondMarket.DecCoins
