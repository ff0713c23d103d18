import BondMarket.Coins.Basic

/-!
The ledger: what every account holds of every denomination, and how much of each denomination has
been made and not destroyed. Only balances that are not zero have an entry.

Minting, burning and transferring take coins in any form, check their amounts, and are all or
nothing: where the debited account cannot cover a denomination, nothing moves. The first such
denomination in increasing order is reported.
-/

namespace BondMarket

/-- Balances by account and denomination, and the total of each denomination. -/
structure Ledger where
  entries : Table (Account × Denom) Int := []
  totals : Coins := []
deriving DecidableEq, Repr

namespace Ledger

def balanceOf (l : Ledger) (a : Account) (d : Denom) : Int := (Table.get? l.entries (a, d)).getD 0

/-- What has been minted of a denomination and not burned. -/
def totalSupply (l : Ledger) (d : Denom) : Int := l.totals.amountOf d

/-- The entries of an account, in the order of their arrival. -/
def holdings (l : Ledger) (a : Account) : Coins :=
  l.entries.filterMap fun p => if p.1.1 = a then some (p.1.2, p.2) else none

def balances (l : Ledger) (a : Account) : Result Coins := Coins.normalize (l.holdings a)

/-- Records a balance; one of zero has no entry. -/
def put (l : Ledger) (a : Account) (d : Denom) (n : Int) : Ledger :=
  { l with entries := if n = 0 then Table.erase l.entries (a, d) else Table.set l.entries (a, d) n }

def setBalance (l : Ledger) (a : Account) (d : Denom) (n : Int) : Result Ledger :=
  if n < 0 then (Fault.negativeBalance n).fail else .ok (l.put a d n)

def credit (l : Ledger) (a : Account) (c : Coins) : Ledger :=
  c.foldl (fun l p => l.put a p.1 (l.balanceOf a p.1 + p.2)) l

def debit (l : Ledger) (a : Account) (c : Coins) : Ledger :=
  c.foldl (fun l p => l.put a p.1 (l.balanceOf a p.1 - p.2)) l

def raiseTotals (l : Ledger) (c : Coins) : Ledger := { l with totals := l.totals.addEntries c }

def lowerTotals (l : Ledger) (c : Coins) : Ledger :=
  { l with totals := l.totals.addEntries (Table.mapValues (fun _ n => -n) c) }

/-- The account covers the coins; otherwise the first denomination that falls short is
reported. -/
def covers (l : Ledger) (a : Account) : Coins → Result Unit
  | [] => .ok ()
  | (d, n) :: c =>
    if l.balanceOf a d < n then .error (.insufficientFunds a d (l.balanceOf a d) n)
    else covers l a c

def mint (l : Ledger) (a : Account) (c : CoinEntries) : Result Ledger := do
  let c ← Coins.ofEntries c
  return (l.credit a c).raiseTotals c

def burn (l : Ledger) (a : Account) (c : CoinEntries) : Result Ledger := do
  let c ← Coins.ofEntries c
  l.covers a c
  return (l.debit a c).lowerTotals c

def transfer (l : Ledger) (sender recipient : Account) (c : CoinEntries) : Result Ledger := do
  let c ← Coins.ofEntries c
  l.covers sender c
  -- The credit is made on what the debit leaves, as both may be the same account.
  return (l.debit sender c).credit recipient c

def nonNegative (l : Ledger) : Bool := l.entries.all fun p => 0 ≤ p.2

def summary (l : Ledger) : String := s!"InMemoryLedger({l.entries.length} entries)"

def accounts (l : Ledger) : List Account := (l.entries.map fun p => p.1.1).eraseDups

theorem balanceOf_put (l : Ledger) (a a' : Account) (d d' : Denom) (n : Int) :
    (l.put a d n).balanceOf a' d' = if a = a' ∧ d = d' then n else l.balanceOf a' d' := by
  simp only [put, balanceOf]
  split
  · simp only [Table.get?_erase, Prod.mk.injEq]
    split <;> simp_all
  · simp only [Table.get?_set, Prod.mk.injEq]
    split <;> rfl

theorem totalSupply_put (l : Ledger) (a : Account) (d d' : Denom) (n : Int) :
    (l.put a d n).totalSupply d' = l.totalSupply d' := rfl

theorem covers_eq_ok_iff {l : Ledger} {a : Account} {c : Coins} :
    l.covers a c = .ok () ↔ ∀ p ∈ c, p.2 ≤ l.balanceOf a p.1 := by
  induction c with
  | nil => simp [covers]
  | cons p c ih =>
    simp only [covers, List.mem_cons, forall_eq_or_imp]
    split
    · simp; omega
    · simp [ih]; omega

end Ledger
end BondMarket
