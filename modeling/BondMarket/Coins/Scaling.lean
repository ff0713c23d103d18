import BondMarket.Coins.Decimal
import BondMarket.Field

/-!
Decimal amounts scaled by values of a kind that is not yet known. An integer scales on the raw
value; what is no number is refused at the first amount.
-/

namespace BondMarket.DecCoins

def scale (c : DecCoins) (factor : Field) : Result DecCoins :=
  Table.traverse (fun _ x => (Field.dec x).mul factor) (Table.sorted c)

def divide (c : DecCoins) (divisor : Field) : Result DecCoins :=
  Table.traverse (fun _ x => (Field.dec x).div divisor) (Table.sorted c)

/-- The same amount of every denomination of a list, given as a decimal, an integer or text. -/
def ofField (denoms : List Denom) (amount : Field) : Result DecCoins := do
  return uniform denoms (← amount.toDec)

end BondMarket.DecCoins
