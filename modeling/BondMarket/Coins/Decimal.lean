import BondMarket.Coins.Basic
import BondMarket.Decimal.Division

/-!
Decimal amounts of several denominations, such as the price of one bond token in each reserve
token. The results have their denominations in increasing order.
-/

namespace BondMarket

abbrev DecCoins := Table Denom Dec

namespace DecCoins

def amountOf (c : DecCoins) (d : Denom) : Dec := (Table.get? c d).getD Dec.zero

/-- A table with a value for each denomination of a list, computed in increasing order. -/
def tabulate (denoms : List Denom) (f : Denom → Result Dec) : Result DecCoins :=
  Table.traverse (fun d _ => f d) (Table.ofKeys (sortedTexts denoms) fun _ => ())

def uniform (denoms : List Denom) (amount : Dec) : DecCoins :=
  Table.ofKeys (sortedTexts denoms) fun _ => amount

def add (a b : DecCoins) : DecCoins :=
  Table.sorted (b.foldl (fun c p => Table.set c p.1 (amountOf c p.1 + p.2)) a)

def times (c : DecCoins) (n : Int) : DecCoins :=
  Table.mapValues (fun _ x => x.times n) (Table.sorted c)

def divInt (c : DecCoins) (n : Int) : Result DecCoins :=
  Table.traverse (fun _ x => x.divInt n) (Table.sorted c)

def isZero (c : DecCoins) : Bool := c.all fun p => p.2.isZero

def text (c : DecCoins) : String :=
  String.intercalate "," ((Table.sorted c).map fun p => s!"{p.2}{p.1}")

/-- The integer parts and what is left over, each without its zero amounts. -/
def truncate (c : DecCoins) : Result (Coins × DecCoins) := do
  let parts ← Table.traverse split (Table.sorted c)
  let whole : Coins := Table.mapValues (fun _ p => p.1) parts
  let change : DecCoins := Table.mapValues (fun _ p => p.2) parts
  return (whole.dropZeros, change.filter fun p => !p.2.isZero)
where
  split (d : Denom) (x : Dec) : Result (Int × Dec) :=
    if x.isNegative then (Fault.negativeDecimalAmount d x).fail
    else .ok (x.truncInt, x - .ofInt x.truncInt)

end DecCoins
end BondMarket
