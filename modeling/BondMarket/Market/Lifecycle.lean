import BondMarket.Market.Execution
import BondMarket.Request

/-!
The life of a bond: hatch, open, settled. An augmented bond leaves its hatch when a batch is
closed with the supply at the end of the hatch. An open bond is settled by depositing its outcome
payment into the reserve; from then on a holder can only withdraw the share of the reserve that
falls to all the tokens held, rounded down, and the tokens are burned. What rounding leaves stays
for those who withdraw later.

A batch is closed when its blocks have run down. It is settled, kept as the last batch, and
followed by an empty one.
-/

namespace BondMarket.Market

/-- Opens a bond whose hatch has come to its end; the new phase, if there is one. -/
def openIfHatched (token : Denom) : Action (Option Phase) := do
  let m ← get
  let b ← m.store.bond token
  if !b.inHatch then return none
  else if b.supply < (← b.hatchLimit) then return none
  else
    setBond token { b with phase := .opened, allowSells := true }
    return some .opened

def checkPhase (b : Bond) (phase : Phase) : Result Unit :=
  rejectIf (b.phase ≠ phase) .invalidStateForAction s!"{b.token} is {b.phase.text}"

def decidePayment (m : Market) (r : PayOutcome) : Result (Bond × Coins) := do
  r.check
  let b ← m.bondFor r.bondToken
  checkPhase b .opened
  let payment ← b.outcomePayment.normalize
  rejectIf (payment = []) .cannotMakeZeroOutcomePayment b.token
  rejectIf (← m.store.batch r.bondToken).hasOpenOrders .invalidStateForAction
    s!"{b.token} has orders pending in its batch"
  return (b, payment)

def payOutcome (r : PayOutcome) : Action Coins := do
  let (b, payment) ← decidePayment (← get) r
  call (.transfer r.sender b.reserveAddress payment.entries)
  setBond r.bondToken { b with phase := .settled }
  syncReserve r.bondToken
  return payment

/-- The share of a reserve that falls to the tokens held, out of a supply. -/
def shareOf (reserve : Coins) (held supply : Int) : Result Coins :=
  if supply = 0 ∧ reserve ≠ [] then Fault.shareOfNothing.fail
  else Coins.normalize (Table.mapValues (fun _ n => (n * held).fdiv supply) reserve)

structure Withdrawal where
  bond : Bond
  held : Int
  owed : Coins
deriving DecidableEq, Repr

def decideWithdrawal (m : Market) (r : WithdrawShare) : Result Withdrawal := do
  r.check
  let b ← m.bondFor r.bondToken
  checkPhase b .settled
  let held := m.ledger.balanceOf r.recipient r.bondToken
  rejectIf (held = 0) .noBondTokensOwned r.recipient
  return ⟨b, held, ← shareOf (m.reserveOf b) held b.supply⟩

/-- Burns all bond tokens of a holder and pays out their share. -/
def withdrawShare (cfg : Config) (r : WithdrawShare) : Action Coins := do
  let w ← decideWithdrawal (← get) r
  let burned : CoinEntries := [(r.bondToken, some w.held)]
  call (.transfer r.recipient cfg.mintBurnAccount burned)
  -- The holder has given up the tokens: from here on, what fails is fatal.
  carryOutAll [
    ⟨.burnWithdrawn, .burn cfg.mintBurnAccount burned⟩,
    ⟨.payShare, .transfer w.bond.reserveAddress r.recipient w.owed.entries⟩]
  setSupply r.bondToken (w.bond.supply - w.held)
  syncReserve r.bondToken
  return w.owed

/-- Settles a batch, keeps it as the last one and begins an empty batch. -/
def closeBatch (cfg : Config) (token : Denom) : Action Settlement := do
  let settlement ← settle cfg token
  let newPhase ← openIfHatched token
  let m ← get
  let batch ← m.store.batch token
  set { m with store := m.store.setLastBatch token batch }
  setBatch token (← Batch.new token (← m.store.bond token).batchBlocks)
  return { settlement with newPhase }

def elapseCycle (cfg : Config) (token : Denom) : Action (Option Settlement) := do
  let m ← get
  let _ ← m.store.bond token
  let batch ← m.store.batch token
  let blocksRemaining := batch.blocksRemaining - 1
  setBatch token { batch with blocksRemaining }
  if 0 < blocksRemaining then return none
  else return some (← closeBatch cfg token)

/-- Counts down a block for every bond, in increasing order of the tokens. -/
def endCycle (cfg : Config) : Action (List Settlement) := do
  let m ← get
  gather (elapseCycle cfg) m.store.tokens

end BondMarket.Market
