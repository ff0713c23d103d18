import BondMarket.Clearing
import BondMarket.Config
import BondMarket.Ledger
import BondMarket.Store

/-!
The state of a market and the actions on it. An action takes a state to a result and a new state,
or to an error and the state in which it was raised: an action that fails keeps what it had done
before.

Coins move only through calls of the ledger. A call may be made as a *move*, for which earlier
checks leave no reason to fail; if it is refused all the same, the bookkeeping is at fault and the
refusal becomes a fatal error that names the move.

For trying out what a refusal does, a market can be told to refuse one call of a method after a
number of further calls of it. A market that was not told so never refuses by itself.
-/

namespace BondMarket

inductive LedgerMethod where
  | mint
  | burn
  | transfer
deriving DecidableEq, Repr

inductive LedgerCall where
  | mint (account : Account) (coins : CoinEntries)
  | burn (account : Account) (coins : CoinEntries)
  | transfer (sender recipient : Account) (coins : CoinEntries)
deriving DecidableEq, Repr

def LedgerCall.method : LedgerCall → LedgerMethod
  | mint _ _ => .mint
  | burn _ _ => .burn
  | transfer _ _ _ => .transfer

def Ledger.run (l : Ledger) : LedgerCall → Result Ledger
  | .mint a c => l.mint a c
  | .burn a c => l.burn a c
  | .transfer a b c => l.transfer a b c

/-- How many more calls of each method are carried out before one is refused. -/
structure Refusals where
  mint : Option Nat := none
  burn : Option Nat := none
  transfer : Option Nat := none
deriving DecidableEq, Repr

namespace Refusals

def countOf (r : Refusals) : LedgerMethod → Option Nat
  | .mint => r.mint
  | .burn => r.burn
  | .transfer => r.transfer

def setCount (r : Refusals) (m : LedgerMethod) (n : Option Nat) : Refusals :=
  match m with
  | .mint => { r with mint := n }
  | .burn => { r with burn := n }
  | .transfer => { r with transfer := n }

def error : Error := .insufficientFunds "fault" "fault" 0 0

/-- Counts a call of a method: whether it is refused, and what is left to count. -/
def count (r : Refusals) (m : LedgerMethod) : Bool × Refusals :=
  match r.countOf m with
  | none => (false, r)
  | some 0 => (true, r.setCount m none)
  | some (n + 1) => (false, r.setCount m (some n))

end Refusals

structure Market where
  store : Store := {}
  ledger : Ledger := {}
  refusals : Refusals := {}
deriving DecidableEq, Repr

/-- An action on a market, which keeps the state it has reached when it fails. -/
abbrev Action := EStateM Error Market

def Action.ofResult {α : Type} : Result α → Action α
  | .ok a => fun m => .ok a m
  | .error e => fun m => .error e m

instance : MonadLift Result Action := ⟨Action.ofResult⟩

inductive Purpose where
  | mintTokens
  | sendTokens
  | depositReserve
  | withdrawReserve
  | releaseEscrow
  | burnSold
  | burnWithdrawn
  | payShare
deriving DecidableEq, Repr

def Purpose.text : Purpose → String
  | mintTokens => "mint bond tokens"
  | sendTokens => "send bond tokens"
  | depositReserve => "deposit to reserve"
  | withdrawReserve => "withdraw from reserve"
  | releaseEscrow => "release from escrow"
  | burnSold => "burn sold tokens"
  | burnWithdrawn => "burn withdrawn tokens"
  | payShare => "pay withdrawn share"

/-- A call of the ledger that has no reason to fail. -/
structure Move where
  purpose : Purpose
  call : LedgerCall
deriving DecidableEq, Repr

namespace Move

def transferIfAny (purpose : Purpose) (sender recipient : Account) (c : Coins) : List Move :=
  if c = [] then [] else [⟨purpose, .transfer sender recipient c.entries⟩]

end Move

/-- A rejection as the fatal error of what it made fail. -/
def Error.escalate (e : Error) (what : String) : Error :=
  if e.isRejection then .violated [s!"{what} failed: {e.message}"] else e

namespace Market

def call (c : LedgerCall) : Action Unit := fun m =>
  let (refused, refusals) := m.refusals.count c.method
  let m := { m with refusals }
  if refused then .error Refusals.error m
  else match m.ledger.run c with
    | .ok ledger => .ok () { m with ledger }
    | .error e => .error e m

def carryOut (v : Move) : Action Unit := fun m =>
  match call v.call m with
  | .ok () m => .ok () m
  | .error e m => .error (e.escalate v.purpose.text) m

/-- Carries out moves one after another, up to the first that fails. -/
def carryOutAll : List Move → Action Unit
  | [] => pure ()
  | v :: vs => do
    carryOut v
    carryOutAll vs

/-- Refuses a call of a method after a number of further calls of it. -/
def refuseAfter (method : LedgerMethod) (skip : Nat) : Action Unit :=
  modify fun m => { m with refusals := m.refusals.setCount method (some skip) }

def bondFor (m : Market) (token : Denom) : Result Bond :=
  match m.store.bond? token with
  | some b => .ok b
  | none => reject .bondDoesNotExist token

def reserveOf (m : Market) (b : Bond) : Coins :=
  Table.ofKeys (sortedTexts b.reserveTokens) fun d => m.ledger.balanceOf b.reserveAddress d

def setBond (token : Denom) (b : Bond) : Action Unit :=
  modify fun m => { m with store := { m.store with bonds := Table.set m.store.bonds token b } }

def setBatch (token : Denom) (b : Batch) : Action Unit :=
  modify fun m => { m with store := m.store.setBatch token b }

def setSupply (token : Denom) (supply : Int) : Action Unit := do
  let m ← get
  let store ← m.store.setSupply token supply
  set { m with store }

/-- Records the reserve of a bond as the ledger has it. -/
def syncReserve (token : Denom) : Action Unit := do
  let m ← get
  let b ← m.store.bond token
  setBond token { b with reserve := (m.reserveOf b).dropZeros }

end Market
end BondMarket
