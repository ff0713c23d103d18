import BondMarket.Error
import BondMarket.Text.Blank
import BondMarket.Text.Digit

/-!
Reading a decimal. Blanks at the ends are ignored. What is left is an optional minus sign, digits
of any script, and at most one point with at most eighteen digits behind it. Either side of the
point may be empty and then counts as zero; a sign needs something behind it.

It is assumed that any number of digits before the point can be read; no limit on the length of a
written integer is modelled.
-/

namespace BondMarket.Dec

def splitSign : List Char → Bool × List Char
  | '-' :: r => (true, r)
  | cs => (false, cs)

/-- What stands before the first point and what stands behind it. -/
def splitPoint (cs : List Char) : List Char × List Char :=
  (cs.takeWhile (· ≠ '.'), (cs.dropWhile (· ≠ '.')).drop 1)

/-- The number that digits write; digits outside decimal notation have no value. -/
def digitsValue (cs : List Char) : Result Nat :=
  match Text.readDigits cs with
  | some n => .ok n
  | none => Fault.digitWithoutValue.fail

def parse (text : String) : Result Dec :=
  match Text.trim text with
  | [] => Fault.emptyDecimal.fail
  | cs =>
    let (negative, body) := splitSign cs
    if body = [] then (Fault.malformedDecimal text).fail
    else
      let (before, frac) := splitPoint body
      let whole := if before = [] then ['0'] else before
      if !whole.all Text.isDigit || !frac.all Text.isDigit then
        (Fault.malformedDecimal text).fail
      else if places < frac.length then (Fault.tooManyPlaces text).fail
      else do
        -- A digit without a value passes as a digit and fails only here.
        let units ← digitsValue whole
        let parts ← digitsValue (frac ++ List.replicate (places - frac.length) '0')
        let magnitude : Int := units * scale + parts
        return ⟨if negative then -magnitude else magnitude⟩

end BondMarket.Dec
