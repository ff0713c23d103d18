import BondMarket.Bond.Basic

/-!
The store: the bonds of a market, the batch that gathers orders for each of them, and the batch
that was closed last. All are kept by bond token, and walking over the bonds goes in increasing
order of the tokens.
-/

namespace BondMarket

/-- Bonds and batches by bond token. -/
structure Store where
  bonds : Table Denom Bond := []
  batches : Table Denom Batch := []
  lastBatches : Table Denom Batch := []
deriving DecidableEq, Repr

namespace Store

def require {α : Type} (kind : String) (t : Table Denom α) (token : Denom) : Result α :=
  match Table.get? t token with
  | some r => .ok r
  | none => .error (.missingRecord kind token)

def bond? (s : Store) (token : Denom) : Option Bond := Table.get? s.bonds token

def bond (s : Store) (token : Denom) : Result Bond := require "bond" s.bonds token

def batch (s : Store) (token : Denom) : Result Batch := require "batch" s.batches token

def lastBatch (s : Store) (token : Denom) : Result Batch := require "last batch" s.lastBatches token

def setBond (s : Store) (b : Bond) : Store := { s with bonds := Table.set s.bonds b.token b }

def setBatch (s : Store) (token : Denom) (b : Batch) : Store :=
  { s with batches := Table.set s.batches token b }

def setLastBatch (s : Store) (token : Denom) (b : Batch) : Store :=
  { s with lastBatches := Table.set s.lastBatches token b }

def tokens (s : Store) : List Denom := sortedTexts (Table.keys s.bonds)

/-- Records the supply of a bond, which cannot be negative. -/
def setSupply (s : Store) (token : Denom) (supply : Int) : Result Store :=
  if supply < 0 then
    .error (.violated [s!"current supply of {token} would be negative ({supply})"])
  else do
    let b ← s.bond token
    return { s with bonds := Table.set s.bonds token { b with supply } }

/-- The supply of a bond if all pending buys are filled. -/
def supplyWithBuys (s : Store) (token : Denom) : Result Int := do
  return (← s.bond token).supply + (← s.batch token).totalBuy

/-- The supply of a bond if all pending sells are filled. -/
def supplyWithoutSells (s : Store) (token : Denom) : Result Int := do
  return (← s.bond token).supply - (← s.batch token).totalSell

def summary (s : Store) : String := s!"BondStore({s.bonds.length} bonds)"

end Store
end BondMarket
