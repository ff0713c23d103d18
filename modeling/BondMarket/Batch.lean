import BondMarket.Coins.Decimal
import BondMarket.Field
import BondMarket.Order

/-!
Batches. A batch gathers the orders for one bond, in the order of their arrival, until its blocks
have run down. It carries the totals of its open buys and sells and the prices that those totals
imply. The coins in escrow for it are the most that its open buys may pay and the inputs of its
open swaps.
-/

namespace BondMarket

/-- The orders for one bond that are settled together. -/
structure Batch where
  token : Denom
  blocksRemaining : Nat
  totalBuy : Int := 0
  totalSell : Int := 0
  buyPrices : DecCoins := []
  sellPrices : DecCoins := []
  buys : List BuyOrder := []
  sells : List SellOrder := []
  swaps : List SwapOrder := []
deriving DecidableEq, Repr

namespace Batch

def new (token : Denom) (blocks : Int) : Result Batch :=
  if blocks < 0 then (Fault.badBlocks (toString blocks)).fail
  else .ok { token, blocksRemaining := blocks.toNat }

/-- An empty batch whose number of blocks may be of any kind; a flag counts as zero or one. -/
def ofField (token : Denom) (blocks : Field) : Result Batch :=
  match blocks with
  | .int n => new token n
  | .flag b => new token (if b then 1 else 0)
  | f => (Fault.badBlocks f.asText).fail

def moreBuys (b : Batch) : Bool := b.totalSell < b.totalBuy

def moreSells (b : Batch) : Bool := b.totalBuy < b.totalSell

def balanced (b : Batch) : Bool := b.totalBuy == b.totalSell

def addBuy (b : Batch) (o : BuyOrder) (buyPrices sellPrices : DecCoins) : Batch :=
  { b with totalBuy := b.totalBuy + o.size, buyPrices, sellPrices, buys := b.buys ++ [o] }

def addSell (b : Batch) (o : SellOrder) (buyPrices sellPrices : DecCoins) : Batch :=
  { b with totalSell := b.totalSell + o.size, buyPrices, sellPrices, sells := b.sells ++ [o] }

def addSwap (b : Batch) (o : SwapOrder) : Batch := { b with swaps := b.swaps ++ [o] }

def orderAt {α : Type} (orders : List α) (index : Nat) : Result α :=
  match orders[index]? with
  | some o => .ok o
  | none => (Fault.noSuchOrder index).fail

/-- Cancels a buy and takes it out of the total. -/
def cancelBuy (b : Batch) (index : Nat) (reason : String) : Result (BuyOrder × Batch) := do
  let o ← (← orderAt b.buys index).cancel reason
  return (o, { b with buys := b.buys.set index o, totalBuy := b.totalBuy - o.size })

/-- Cancels a buy and leaves the total as it is. -/
def markBuy (b : Batch) (index : Nat) (reason : String) : Result Batch := do
  return { b with buys := b.buys.set index (← (← orderAt b.buys index).cancel reason) }

def markSell (b : Batch) (index : Nat) (reason : String) : Result Batch := do
  return { b with sells := b.sells.set index (← (← orderAt b.sells index).cancel reason) }

def markSwap (b : Batch) (index : Nat) (reason : String) : Result Batch := do
  return { b with swaps := b.swaps.set index (← (← orderAt b.swaps index).cancel reason) }

def openBuys (b : Batch) : List BuyOrder := b.buys.filter (·.isOpen)

def openSells (b : Batch) : List SellOrder := b.sells.filter (·.isOpen)

def openSwaps (b : Batch) : List SwapOrder := b.swaps.filter (·.isOpen)

def hasOpenOrders (b : Batch) : Bool :=
  !b.openBuys.isEmpty || !b.openSells.isEmpty || !b.openSwaps.isEmpty

def sumCoins (total : Coins) : List Coins → Result Coins
  | [] => .ok total
  | c :: cs => do sumCoins (← total.add c) cs

/-- The coins in escrow for the open buys and swaps. -/
def escrow (b : Batch) : Result Coins :=
  sumCoins [] (b.openBuys.map (·.maxPrices) ++ b.openSwaps.map (·.amount.toCoins))

def sumSizes : List Order → Int
  | [] => 0
  | o :: os => o.size + sumSizes os

def violations (b : Batch) : List String :=
  (if b.totalBuy ≠ sumSizes (b.openBuys.map (·.toOrder)) then
    ["total_buy_amount out of sync with uncancelled buys"] else []) ++
  (if b.totalSell ≠ sumSizes b.openSells then
    ["total_sell_amount out of sync with uncancelled sells"] else []) ++
  (if b.totalBuy < 0 ∨ b.totalSell < 0 then ["negative batch total"] else [])

end Batch
end BondMarket
