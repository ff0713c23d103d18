import BondMarket.Field

/-!
The value function of an augmented curve. A state of reserve `r` and supply `s` has the value
`s ^ kappa / r`, and minting and withdrawing along the curve keep it at a constant `v0`. Fractional
exponents are roots, which may fail to converge within the number of steps allowed.
-/

namespace BondMarket.ValueFunction

def invariant (reserve supply : Dec) (kappa : Int) : Result Dec := do
  (← supply.powerInt kappa).div reserve

def supply (reserve : Dec) (kappa : Int) (v0 : Dec) (steps : Int) : Result Dec :=
  (v0 * reserve).approxRoot kappa steps

def reserve (supply : Dec) (kappa : Int) (v0 : Dec) : Result Dec := do
  (← supply.powerInt kappa).div v0

def spotPrice (reserve : Dec) (kappa : Int) (v0 : Dec) (steps : Int) : Result Dec := do
  let root ← (← reserve.powerInt (kappa - 1)).approxRoot kappa steps
  (root.times kappa).div (← v0.approxRoot kappa steps)

/-- The tokens that a deposit mints, and the price that was paid for one. -/
def mint (deposit reserve supplyBefore : Dec) (kappa : Int) (v0 : Dec) (steps : Int) :
    Result (Dec × Dec) := do
  let minted := (← supply (reserve + deposit) kappa v0 steps) - supplyBefore
  return (minted, ← deposit.div minted)

/-- The deposit that minting an amount asks for, and the price of one token. -/
def depositFor (minted reserveBefore supply : Dec) (kappa : Int) (v0 : Dec) :
    Result (Dec × Dec) := do
  let deposit := (← reserve (supply + minted) kappa v0) - reserveBefore
  return (deposit, ← deposit.div minted)

/-- What burning an amount withdraws, and the price of one token. -/
def withdraw (burned reserveBefore supply : Dec) (kappa : Int) (v0 : Dec) :
    Result (Dec × Dec) := do
  let withdrawn := reserveBefore - (← reserve (supply - burned) kappa v0)
  return (withdrawn, ← withdrawn.div burned)

end BondMarket.ValueFunction
