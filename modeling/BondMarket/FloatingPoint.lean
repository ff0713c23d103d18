import BondMarket.Decimal.Parser
import BondMarket.Text.Numeral

/-!
Binary floating-point numbers, as requests write them. No amount or price is ever one: such a
number is only recognised, shown in a refusal and told apart from others. So it is held as the
shortest decimal that stands for it, and the binary number itself is computed where a comparison
with an integer asks for it.
-/

namespace BondMarket

/-- A floating-point number by its shortest decimal: digits that do not end in a zero, scaled by
a power of ten. Zero has digits and scale zero, and keeps its sign. -/
structure FloatingPoint where
  negative : Bool
  digits : Nat
  scale : Int
deriving DecidableEq, Repr

namespace FloatingPoint

/-! ### Reading -/

def splitExponent (cs : List Char) : List Char × List Char :=
  let other (c : Char) : Bool := c ≠ 'e' && c ≠ 'E'
  (cs.takeWhile other, (cs.dropWhile other).drop 1)

/-- The number that a sign, digits with a point among them and the exponent of a power of ten
write. Sign, point and exponent may be missing. -/
def read? (cs : List Char) : Option FloatingPoint := do
  let (negative, body) := Dec.splitSign cs
  let (mantissa, power) := splitExponent body
  let (whole, fraction) := Dec.splitPoint mantissa
  let all := whole ++ fraction
  let kept := (all.reverse.dropWhile (· == '0')).reverse
  let digits ← Text.readDigits kept
  let exponent ← if power = [] then some 0 else Text.readInteger power
  let dropped := all.length - kept.length
  return ⟨negative, digits, if kept = [] then 0 else exponent - fraction.length + dropped⟩

/-! ### Showing -/

def leading (x : FloatingPoint) : Int := x.scale + (Nat.toDigits 10 x.digits).length - 1

def positional (digits : Nat) : Int → String
  | .ofNat n => s!"{digits * Nat.pow 10 n}.0"
  | .negSucc n =>
    let fraction := String.ofList (Text.lastDigits (n + 1) digits)
    s!"{digits / Nat.pow 10 (n + 1)}.{fraction}"

def exponentText (e : Int) : String :=
  let sign := if e < 0 then "-" else "+"
  if e.natAbs < 10 then s!"{sign}0{e.natAbs}" else s!"{sign}{e.natAbs}"

def scientific (digits : Nat) (exponent : Int) : String :=
  match Nat.toDigits 10 digits with
  | [] => ""
  | [d] => s!"{d}e{exponentText exponent}"
  | d :: rest => s!"{d}.{String.ofList rest}e{exponentText exponent}"

/-- A floating-point number as refusals show it. Numbers from a ten-thousandth up to, but
without, ten to the sixteenth are written out; others have an exponent. -/
def text (x : FloatingPoint) : String :=
  let body :=
    if -4 ≤ x.leading ∧ x.leading < 16 then positional x.digits x.scale
    else scientific x.digits x.leading
  if x.negative then "-" ++ body else body

/-! ### Comparing -/

/-- The binary number of fifty-three significant bits that is nearest to a natural number, a half
going to the even neighbour. -/
def nearest (n : Nat) : Int :=
  let unit := Nat.pow 2 (Nat.log2 n - 52)
  roundHalfEven n unit * unit

def int? (x : FloatingPoint) : Option Int :=
  match x.scale with
  | .ofNat n =>
    let value := nearest (x.digits * Nat.pow 10 n)
    some (if x.negative then -value else value)
  | .negSucc _ => none

example : (read? "1e-05".toList).map text = some "1e-05" := by decide +kernel
example : (read? "0.00010".toList).map text = some "0.0001" := by decide +kernel
example : (read? "1e16".toList).map text = some "1e+16" := by decide +kernel
example : (read? "-9999999999999998".toList).map text = some "-9999999999999998.0" := by
  decide +kernel
example : (read? "-0.0".toList).map text = some "-0.0" := by decide +kernel
example : (read? "1e23".toList).bind int? = some 99999999999999991611392 := by decide +kernel

end FloatingPoint
end BondMarket
