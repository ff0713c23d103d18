import BondMarket.Coins.Basic

/-!
Orders. An order is open until it is cancelled, and is cancelled at most once; nothing else about
it changes. A buy names the most it will pay, in every reserve token, for all its bond tokens
together; a swap names the reserve token it wants for its input.
-/

namespace BondMarket

/-- An order for an amount, with the reason it was cancelled for, if it was. -/
structure Order where
  address : Account
  amount : Coin
  cancelReason : Option String := none
deriving DecidableEq, Repr

structure BuyOrder extends Order where
  maxPrices : Coins
deriving DecidableEq, Repr

/-- An order that gives bond tokens back. -/
abbrev SellOrder := Order

/-- An order that gives one reserve token for the other. -/
structure SwapOrder extends Order where
  toToken : Denom
deriving DecidableEq, Repr

namespace Order

def isOpen (o : Order) : Bool := o.cancelReason.isNone

def size (o : Order) : Int := o.amount.amount

def cancel (o : Order) (reason : String) : Result Order :=
  if o.isOpen then .ok { o with cancelReason := some reason }
  else (Fault.alreadyCancelled o.address o.amount.text).fail

end Order

def BuyOrder.ofEntries (address : Account) (amount : Coin) (maxPrices : CoinEntries) :
    Result BuyOrder := do
  return { address, amount, maxPrices := ← Coins.ofEntries maxPrices }

def BuyOrder.cancel (o : BuyOrder) (reason : String) : Result BuyOrder := do
  return { o with toOrder := ← o.toOrder.cancel reason }

def SwapOrder.cancel (o : SwapOrder) (reason : String) : Result SwapOrder := do
  return { o with toOrder := ← o.toOrder.cancel reason }

end BondMarket
