import BondMarket.Curve.Kind

/-!
Bonding curves. A curve gives for every supply `s` the price of one token and the reserve that
backs the supply, which is the integral of the price from nothing to `s`.

* Power: price `m * s ^ n + c`, reserve `m / (n + 1) * s ^ (n + 1) + c * s`.
* Sigmoid: price `a * ((s - b) / sqrt ((s - b) ^ 2 + c) + 1)`,
  reserve `a * (sqrt ((s - b) ^ 2 + c) - sqrt (b ^ 2 + c) + s)`.
* Augmented: reserve `s ^ kappa / v0`, price `kappa * s ^ (kappa - 1) / v0`.

All arithmetic is that of decimals, in the order written here: a multiplication comes before the
division that follows it, so that whole results stay exact.
-/

namespace BondMarket

inductive Curve where
  | power (m : Dec) (n : Int) (c : Dec)
  | sigmoid (a b c : Dec)
  | augmented (kappa : Int) (v0 : Dec)
deriving DecidableEq, Repr

/-- What follows from the parameters of an augmented curve: the reserve and the supply at which
its hatch ends, and the value `v0 = s0 ^ kappa / r0` that the open curve keeps. -/
structure HatchConstants where
  r0 : Dec
  s0 : Dec
  v0 : Dec
deriving DecidableEq, Repr

namespace HatchConstants

def names : List String := ["R0", "S0", "V0"]

/-- The constants that follow from the parameters: `r0 = d0 * (1 - theta)` and `s0 = d0 / p0`. -/
def ofParams (ps : Params) : Result HatchConstants := do
  let d0 ← ps.value "d0"
  let p0 ← ps.value "p0"
  let theta ← ps.value "theta"
  let kappa := (← ps.value "kappa").truncInt
  let r0 := d0 * (Dec.one - theta)
  let s0 ← d0.div p0
  let v0 ← (← s0.powerInt kappa).div r0
  return ⟨r0, s0, v0⟩

def toParams (h : HatchConstants) : Params := [("R0", h.r0), ("S0", h.s0), ("V0", h.v0)]

def addTo (h : HatchConstants) (ps : Params) : Params :=
  h.toParams.foldl (fun ps p => Table.set ps p.1 p.2) ps

end HatchConstants

namespace Curve

def ofSigmoid (a b c : Dec) : Result Curve :=
  if c.isZero then Fault.sigmoidConstantZero.fail else .ok (.sigmoid a b c)

/-- The augmented curve, from parameters with or without their constants. -/
def ofAugmented (ps : Params) : Result Curve := do
  let v0 ← match Table.get? ps "V0" with
    | some v0 => pure v0
    | none => pure (← HatchConstants.ofParams ps).v0
  return .augmented (← ps.value "kappa").truncInt v0

def ofParams (t : FunctionType) (ps : Params) : Result Curve :=
  match t with
  | .power => do
    return .power (← ps.value "m") (← ps.value "n").truncInt (← ps.value "c")
  | .sigmoid => do ofSigmoid (← ps.value "a") (← ps.value "b") (← ps.value "c")
  | .augmented => ofAugmented ps
  | .swapper => reject .functionNotAvailableForFunctionType s!"{t.text} has no supply curve"

def priceAt (curve : Curve) (supply : Int) : Result Dec :=
  let s := Dec.ofInt supply
  match curve with
  | .power m n c => do return m * (← s.powerInt n) + c
  | .sigmoid a b c => do
    let x := s - b
    let root ← (x * x + c).approxSqrt
    return a * ((← x.div root) + Dec.one)
  | .augmented kappa v0 => do ((← s.powerInt (kappa - 1)).times kappa).div v0

def reserveAt (curve : Curve) (supply : Int) : Result Dec :=
  let s := Dec.ofInt supply
  match curve with
  | .power m n c => do
    let integral ← (m * (← s.powerInt (n + 1))).divInt (n + 1)
    return integral + c * s
  | .sigmoid a b c => do
    let x := s - b
    let first ← (x * x + c).approxSqrt
    let constant ← (b * b + c).approxSqrt
    return a * (first - constant + s)
  | .augmented kappa v0 => do (← s.powerInt kappa).div v0

/-- What the reserve gains when an amount is minted on top of a supply. -/
def mintCost (curve : Curve) (amount supply : Int) : Result Dec :=
  if amount < 0 ∨ supply < 0 then (Fault.negativeSupply amount supply).fail
  else if amount = 0 then .ok Dec.zero
  else do return (← curve.reserveAt (supply + amount)) - (← curve.reserveAt supply)

/-- What the reserve loses when an amount of a supply is burned. -/
def burnReturn (curve : Curve) (amount supply : Int) : Result Dec :=
  if amount < 0 then (Fault.negativeBurn amount).fail
  else if supply < amount then (Fault.burnExceedsSupply amount supply).fail
  else if amount = 0 then .ok Dec.zero
  else do return (← curve.reserveAt supply) - (← curve.reserveAt (supply - amount))

end Curve
end BondMarket
