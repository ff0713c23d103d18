import BondMarket.Decimal.Basic
import BondMarket.Text.Digit

/-!
The written form of a decimal: a minus sign before a negative one, the integer part without
leading zeros, a point and exactly eighteen places. It is assumed that any number of digits can be
written: the arithmetic has no bound on its integers, and no limit on the length of a written
integer is modelled.
-/

namespace BondMarket.Dec

/-- The integer part and the places of a magnitude. -/
def magnitudeChars (n : Nat) : List Char :=
  (Nat.repr (n / scale.toNat)).toList ++ '.' :: Text.lastDigits places (n % scale.toNat)

def chars (d : Dec) : List Char :=
  if d.raw < 0 then '-' :: magnitudeChars d.raw.natAbs else magnitudeChars d.raw.natAbs

def text (d : Dec) : String := String.ofList d.chars

instance : ToString Dec := ⟨text⟩

example : text ⟨-500000000000000000⟩ = "-0.500000000000000000" := by decide +kernel

end BondMarket.Dec
