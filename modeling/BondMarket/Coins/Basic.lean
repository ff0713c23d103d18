import BondMarket.Coins.Denom
import BondMarket.Error
import BondMarket.Table

/-!
Amounts of several denominations. `Coins` are integers under denominations; in *normal form* the
denominations are in increasing order and no amount is zero or negative, so that equal amounts
are equal tables. Sums and differences are normal forms; the operations that only look accept any
table.

A `Coin` is a single amount that is not negative.
-/

namespace BondMarket

/-- Integer amounts by denomination. -/
abbrev Coins := Table Denom Int

/-- Amounts of a request, where `none` stands for what is no integer. -/
abbrev CoinEntries := Table Denom (Option Int)

namespace Coins

def amountOf (c : Coins) (d : Denom) : Int := (Table.get? c d).getD 0

def checkAmount (d : Denom) : Option Int → Result Int
  | none => (Fault.amountNotInteger d).fail
  | some n => if n < 0 then (Fault.negativeAmount d n).fail else .ok n

def dropZeros (c : Coins) : Coins := c.filter fun p => p.2 ≠ 0

/-- The normal form of the amounts of a request, checked in the order of the denominations. -/
def ofEntries (entries : CoinEntries) : Result Coins :=
  (Table.traverse checkAmount (Table.sorted entries)).map dropZeros

def entries (c : Coins) : CoinEntries := Table.mapValues (fun _ n => some n) c

def normalize (c : Coins) : Result Coins := ofEntries c.entries

def addEntries (a : Coins) : Coins → Coins
  | [] => a
  | (d, n) :: b => addEntries (Table.set a d (amountOf a d + n)) b

def add (a b : Coins) : Result Coins := normalize (addEntries a b)

def subEntries (a : Coins) : Coins → Result Coins
  | [] => .ok a
  | (d, n) :: b =>
    let rest := amountOf a d - n
    if rest < 0 then (Fault.negativeDifference d rest).fail
    else subEntries (Table.set a d rest) b

/-- The difference, where no denomination falls below zero. -/
def sub (a b : Coins) : Result Coins := do normalize (← subEntries a b)

def anyAbove (a b : Coins) : Bool := a.any fun p => amountOf b p.1 < p.2

def isZero (c : Coins) : Bool := c.all fun p => p.2 == 0

/-- Whether an amount is above a limit that is set for its denomination. A limit of zero is
none. -/
def exceeds (c limits : Coins) : Bool :=
  c.any fun p => amountOf limits p.1 != 0 && amountOf limits p.1 < p.2

/-- The written form: amounts and denominations in the order of the denominations. -/
def text (c : Coins) : String :=
  String.intercalate "," ((Table.sorted c).map fun p => s!"{p.2}{p.1}")

theorem amountOf_set (c : Coins) (d d' : Denom) (n : Int) :
    amountOf (Table.set c d n) d' = if d = d' then n else amountOf c d' := by
  simp only [amountOf, Table.get?_set]
  split <;> rfl

theorem amountOf_addEntries (a b : Coins) (d : Denom) (h : (Table.keys b).Nodup) :
    amountOf (addEntries a b) d = amountOf a d + amountOf b d := by
  induction b generalizing a with
  | nil => simp [addEntries, amountOf, Table.get?]
  | cons p b ih =>
    obtain ⟨hp, hb⟩ : p.1 ∉ Table.keys b ∧ (Table.keys b).Nodup := by
      simpa [Table.keys] using h
    rw [addEntries, ih _ hb, amountOf_set]
    by_cases e : p.1 = d
    · have : Table.get? b d = none := Table.get?_eq_none_iff.2 (e ▸ hp)
      simp [e, amountOf, Table.get?, this]
    · simp [e, amountOf, Table.get?]

end Coins

structure Coin where
  denom : Denom
  amount : Nat
deriving DecidableEq, Repr

namespace Coin

def ofEntry (denom : Denom) (amount : Option Int) : Result Coin :=
  if denom = "" then Fault.emptyDenom.fail
  else match amount with
    | none => Fault.coinNotInteger.fail
    | some n => if n < 0 then (Fault.negativeCoin n).fail else .ok ⟨denom, n.toNat⟩

def ofInt (denom : Denom) (amount : Int) : Result Coin := ofEntry denom (some amount)

def toCoins (c : Coin) : Coins := if c.amount = 0 then [] else [(c.denom, c.amount)]

def text (c : Coin) : String := s!"{c.amount}{c.denom}"

instance : ToString Coin := ⟨text⟩

end Coin
end BondMarket
