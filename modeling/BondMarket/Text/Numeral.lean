import BondMarket.Text.Digit

/-!
Whole numbers as settings write them: an optional sign and decimal digits of any script, with
single underscores allowed between two digits.
-/

namespace BondMarket.Text

/-- The digits of a number without the underscores between them. -/
def joinDigits : List Char → Option (List Char)
  | [] => none
  | [c] => if c = '_' then none else some [c]
  | c :: '_' :: r => if c = '_' then none else (joinDigits r).map (c :: ·)
  | c :: r => if c = '_' then none else (joinDigits r).map (c :: ·)

def readNatural (cs : List Char) : Option Nat := (joinDigits cs).bind readDigits

def readInteger : List Char → Option Int
  | '-' :: cs => (readNatural cs).map fun n => -(n : Int)
  | '+' :: cs => (readNatural cs).map fun n => (n : Int)
  | cs => (readNatural cs).map fun n => (n : Int)

example : readInteger "-1_000".toList = some (-1000) := by decide +kernel
example : readInteger "1__0".toList = none := by decide +kernel
example : readInteger "_1".toList = none := by decide +kernel

end BondMarket.Text
