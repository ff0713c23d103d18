import BondMarket.Curve.Basic
import BondMarket.Fee
import BondMarket.Settlement

/-!
Bonds. A bond is a token whose supply is priced against a reserve, by the pricing function it was
created with. Its market state is the supply in circulation, the reserve as last seen in the
ledger, and its phase: an augmented bond hatches at a flat price until its supply reaches the one
its parameters imply, every bond trades while it is open, and once settled it only pays out.
-/

namespace BondMarket

/-- The account that holds the reserve of a bond unless another is named. -/
def reserveAccountFor (token : Denom) : Account := s!"bonds/{token}/reserveAddress"

/-- A bond and the state of its market. -/
structure Bond where
  token : Denom
  name : String
  description : String
  creator : Account
  functionType : FunctionType
  /-- The parameters; those of an augmented bond include the constants that follow from them. -/
  parameters : Params
  reserveTokens : List Denom
  txFee : Dec
  exitFee : Dec
  feeAddress : Account
  maxSupply : Int
  reserveAddress : Account
  /-- The most one order may be for, by denomination; none or zero is no limit. -/
  orderLimits : Coins := []
  /-- The ratio of the reserves around which swaps are allowed; zero allows all. -/
  sanityRate : Dec := Dec.zero
  /-- How far the ratio may be from the rate, in percent. -/
  sanityMargin : Dec := Dec.zero
  allowSells : Bool := true
  /-- The accounts that together may edit the bond. -/
  signers : List String := []
  batchBlocks : Int := 1
  /-- What has to be paid into the reserve to settle the bond. -/
  outcomePayment : Coins := []
  phase : Phase := .opened
  supply : Int := 0
  reserve : Coins := []
deriving DecidableEq, Repr

namespace Bond

def isAugmented (b : Bond) : Bool := b.functionType == .augmented

def isSwapper (b : Bond) : Bool := b.functionType == .swapper

def inHatch (b : Bond) : Bool := b.isAugmented && b.phase == .hatch

/-- The supply at which an augmented bond leaves its hatch. -/
def hatchLimit (b : Bond) : Result Int := do return (← b.parameters.value "S0").ceilInt

def creationParameters (b : Bond) : Params :=
  b.parameters.filter fun p => !HatchConstants.names.contains p.1

def violations (b : Bond) : Result (List String) := do
  let general :=
    (if b.supply < 0 then ["current_supply < 0"] else []) ++
    (if b.maxSupply < b.supply then ["current_supply > max_supply"] else []) ++
    (if b.reserve.any fun p => p.2 < 0 then ["current_reserve has a negative entry"] else [])
  if b.inHatch then
    let limit ← b.hatchLimit
    return general ++
      (if b.allowSells then ["allow_sells during HATCH"] else []) ++
      (if limit < b.supply then ["current_supply > ceil(S0) during HATCH"] else [])
  else return general

/-- A bond with its coins brought into normal form, if its market state is consistent. Without a
reserve account it gets the one named for its token. -/
def make (b : Bond) (orderLimits outcomePayment reserve : CoinEntries) : Result Bond := do
  let reserveAddress :=
    if b.reserveAddress = "" then reserveAccountFor b.token else b.reserveAddress
  let orderLimits ← Coins.ofEntries orderLimits
  let outcomePayment ← Coins.ofEntries outcomePayment
  let reserve ← Coins.ofEntries reserve
  let b := { b with reserveAddress, orderLimits, outcomePayment, reserve }
  match ← b.violations with
  | [] => return b
  | vs => (Fault.inconsistentBond b.token vs).fail

/-- Whether denominations are the reserve tokens, in any order. -/
def hasReserveTokens (b : Bond) (denoms : List Denom) : Bool :=
  denoms.length == b.reserveTokens.length &&
    denoms.all b.reserveTokens.contains && b.reserveTokens.all denoms.contains

def limitsExceeded (b : Bond) (c : Coins) : Bool := c.exceeds b.orderLimits

def coinsTable (c : Coins) : String :=
  "\x7b" ++ String.intercalate ", " (c.map fun p => s!"{Text.quoted p.1}: {p.2}") ++ "\x7d"

def summary (b : Bond) : String :=
  s!"Bond(token={b.token}, type={b.functionType.text}, state={b.phase.text}, " ++
    s!"supply={b.supply}/{b.maxSupply}, reserve={coinsTable b.reserve})"

end Bond
end BondMarket
