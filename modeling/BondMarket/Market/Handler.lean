import BondMarket.Market.Admission
import BondMarket.Market.Lifecycle

/-!
One entry point for everything that a market can be asked to do.
-/

namespace BondMarket

inductive Request where
  | create (r : CreateBond)
  | edit (r : EditBond)
  | buy (r : BuyRequest)
  | sell (r : SellRequest)
  | swap (r : SwapRequest)
  | pay (r : PayOutcome)
  | withdraw (r : WithdrawShare)
  /-- A cycle has elapsed for one bond. -/
  | cycle (token : Denom)
  /-- A cycle has elapsed for all bonds. -/
  | endCycle
deriving DecidableEq, Repr

inductive Response where
  | bond (b : Bond)
  | buy (o : BuyOrder)
  | sell (o : SellOrder)
  | swap (o : SwapOrder)
  | coins (c : Coins)
  | cycle (s : Option Settlement)
  | settlements (ss : List Settlement)
deriving DecidableEq, Repr

def Market.handle (cfg : Config) : Request → Action Response
  | .create r => .bond <$> createBond cfg r
  | .edit r => .bond <$> editBond cfg r
  | .buy r => .buy <$> submitBuy cfg r
  | .sell r => .sell <$> submitSell cfg r
  | .swap r => .swap <$> submitSwap cfg r
  | .pay r => .coins <$> payOutcome r
  | .withdraw r => .coins <$> withdrawShare cfg r
  | .cycle token => .cycle <$> elapseCycle cfg token
  | .endCycle => .settlements <$> endCycle cfg

end BondMarket
