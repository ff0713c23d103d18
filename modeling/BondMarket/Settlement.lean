import BondMarket.Batch

/-!
Settlements: what became of a batch when it was closed. An outcome says for one order whether it
was filled or cancelled, what it was charged and what went back to its owner. A settlement lists
the outcomes, the cancelled buys first and then the others in the order in which they were
executed.
-/

namespace BondMarket

inductive OrderKind where
  | buy
  | sell
  | swap
deriving DecidableEq, Repr

def OrderKind.text : OrderKind → String
  | buy => "buy"
  | sell => "sell"
  | swap => "swap"

inductive Phase where
  | hatch
  | opened
  | settled
deriving DecidableEq, Repr

namespace Phase

def text : Phase → String
  | hatch => "HATCH"
  | opened => "OPEN"
  | settled => "SETTLE"

def ofText? (s : String) : Option Phase := [hatch, opened, settled].find? fun p => p.text == s

end Phase

/-- What became of one order. An order that was cancelled has a reason. -/
structure Outcome where
  kind : OrderKind
  address : Account
  amount : Coins
  cancelReason : Option String := none
  /-- The reserve that a buyer paid. -/
  prices : Coins := []
  fees : Coins := []
  /-- What went to the owner: a refund, the proceeds of a sale or the output of a swap. -/
  returned : Coins := []
  /-- The part of a payment that funds a bond in its hatch. -/
  funding : Coins := []
deriving DecidableEq, Repr

namespace Outcome

def isFill (o : Outcome) : Bool := o.cancelReason.isNone

def actionText (o : Outcome) : String := if o.isFill then "FILL" else "CANCEL"

/-- The outcome of a cancelled buy, which gets back all it had put into escrow. -/
def ofCancelledBuy (o : BuyOrder) : Outcome where
  kind := .buy
  address := o.address
  amount := o.amount.toCoins
  cancelReason := some (o.cancelReason.getD "")
  returned := o.maxPrices

end Outcome

/-- What became of a batch. -/
structure Settlement where
  token : Denom
  buyPrices : DecCoins
  sellPrices : DecCoins
  outcomes : List Outcome := []
  /-- The phase that the bond entered when the batch was closed, if it did. -/
  newPhase : Option Phase := none
deriving DecidableEq, Repr

namespace Settlement

def fills (s : Settlement) : List Outcome := s.outcomes.filter (·.isFill)

def cancellations (s : Settlement) : List Outcome := s.outcomes.filter fun o => !o.isFill

def totalFees (s : Settlement) : Coins := s.fills.foldl (fun c o => c.addEntries o.fees) []

end Settlement
end BondMarket
