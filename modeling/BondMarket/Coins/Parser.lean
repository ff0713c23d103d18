import BondMarket.Coins.Basic
import BondMarket.Text.Blank

/-!
Reading coins. The expressions are divided by commas, with blanks around each; an expression is
an amount in ASCII digits and a denomination, with nothing between. A text of nothing but blanks
holds no coins, and no denomination may occur twice.

It is assumed that an amount of any number of digits can be read; no limit on the length of a
written integer is modelled.
-/

namespace BondMarket.Coins

def splitCommas : List Char → List (List Char)
  | [] => [[]]
  | c :: r =>
    if c = ',' then [] :: splitCommas r
    else match splitCommas r with
      | [] => [[c]]
      | p :: ps => (c :: p) :: ps

def asciiValue (cs : List Char) : Nat := cs.foldl (fun n c => 10 * n + (c.toNat - '0'.toNat)) 0

/-- One expression, blanks around it being cut off. -/
def parseCoin? (part : List Char) : Option (Denom × Int) :=
  let cs := Text.trimBoth Text.isBlank part
  let digits := cs.takeWhile Denom.isAsciiDigit
  let denom := cs.dropWhile Denom.isAsciiDigit
  if digits ≠ [] ∧ Denom.isBody denom then some (String.ofList denom, asciiValue digits) else none

def parseParts (c : Coins) : List (List Char) → Result Coins
  | [] => .ok c
  | part :: parts =>
    match parseCoin? part with
    | none => (Fault.malformedCoin (String.ofList part)).fail
    | some (d, n) =>
      if Table.contains c d then (Fault.duplicateDenom d).fail
      else parseParts (Table.set c d n) parts

/-- Reads coins, giving their normal form. -/
def parse (text : String) : Result Coins :=
  match Text.trim text with
  | [] => .ok []
  | cs => do normalize (← parseParts [] (splitCommas cs))

end BondMarket.Coins
