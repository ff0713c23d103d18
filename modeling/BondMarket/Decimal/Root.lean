import BondMarket.Error

/-!
Roots of decimals, rounded to the nearest unit. The root of the raw value, brought to the scale
of the result, is a root of a natural number: its floor is found by Newton's descent from a power
of two that is not below it, and the half above the floor decides which way to round. The square
root has a way of its own, two bits at a time.
-/

namespace BondMarket

/-- The greatest natural number whose square is not above `n`; the fuel is at least half the
number of bits of `n`. -/
def sqrtLoop : Nat → Nat → Nat
  | 0, _ => 0
  | fuel + 1, n =>
    if n = 0 then 0
    else
      -- The root of a quarter of `n` has all bits of the root but the last.
      let r := 2 * sqrtLoop fuel (n / 4)
      if (r + 1) * (r + 1) ≤ n then r + 1 else r

def floorSqrt (n : Nat) : Nat := sqrtLoop (n.log2 + 1) n

/-- Newton's descent to the floor of the `k`-th root of `n`: stops at the first step that does
not decrease. Nothing if that takes more steps than allowed. -/
def rootDescent (k n : Nat) : Nat → Nat → Option Nat
  | 0, _ => none
  | steps + 1, x =>
    let y := ((k - 1) * x + n / x.pow (k - 1)) / k
    if x ≤ y then some x else rootDescent k n steps y

/-- A power of two that is not below the `k`-th root of `n`. -/
def rootStart (k n : Nat) : Nat := Nat.pow 2 ((n.log2 + 1 + (k - 1)) / k)

/-- The floor of the `k`-th root of `n`, if the descent comes to rest within a number of steps. -/
def floorRoot (k n steps : Nat) : Option Nat :=
  if n < 2 then some n else rootDescent k n steps (rootStart k n)

namespace Dec

def rootSteps : Int := 300

def rootOfMagnitude (d : Dec) (k : Nat) (steps : Int) : Result Dec :=
  let n := d.raw.toNat * scale.toNat.pow (k - 1)
  match floorRoot k n steps.toNat with
  | none => .error (.noConvergence
      s!"approx_root({d}, {k}) did not converge in {steps} iterations")
  | some r => .ok ⟨if (2 * r + 1).pow k < n * Nat.pow 2 k then r + 1 else r⟩

/-- The `k`-th root of a decimal; that of a negative one is the negative of its magnitude's. Zero
and one are their own roots, and the zeroth root of any other decimal is one. -/
def approxRoot (d : Dec) (k : Int) (steps : Int) : Result Dec :=
  if k < 0 then (Fault.badRoot (toString k)).fail
  else if d.raw < 0 then (magnitudeRoot (-d) k.toNat steps).map Neg.neg
  else magnitudeRoot d k.toNat steps
where
  magnitudeRoot (d : Dec) (k : Nat) (steps : Int) : Result Dec :=
    if k = 1 ∨ d = zero ∨ d = one then .ok d
    else if k = 0 then .ok one
    else rootOfMagnitude d k steps

def approxSqrt (d : Dec) : Result Dec :=
  if d.raw < 0 then (Fault.squareRootOfNegative d).fail
  else
    -- As `n` is whole, it is above the square of `r` and a half where `n - r * r` is above `r`.
    let n := (d.raw * scale).toNat
    let r := floorSqrt n
    .ok ⟨if r < n - r * r then r + 1 else r⟩

end Dec
end BondMarket
