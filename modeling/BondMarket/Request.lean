import BondMarket.Batch
import BondMarket.Curve.Kind

/-!
Requests, and the checks on them that need no knowledge of the market. The checks of a request are
made in a fixed order and the first that fails is reported. Amounts of several denominations are
taken as they come; they are checked where they are used.
-/

namespace BondMarket

/-- The text by which an edit leaves a field alone, unless the settings name another. -/
def doNotModify : String := "[do-not-modify]"

structure CreateBond where
  token : Denom
  name : String
  description : String
  creator : Account
  functionType : String
  parameters : Params
  reserveTokens : List Denom
  txFee : Dec
  exitFee : Dec
  feeAddress : Account
  maxSupply : Coin
  orderLimits : CoinEntries := []
  sanityRate : Dec := Dec.zero
  sanityMargin : Dec := Dec.zero
  allowSells : Bool := true
  signers : List String := []
  /-- The length of a batch; where it is left out, the settings decide. -/
  batchBlocks : Option Int := none
  outcomePayment : CoinEntries := []
deriving DecidableEq, Repr

/-- A request to edit a bond. Fields that hold the text of the settings keep their value, and an
empty sanity rate clears both sanity fields. -/
structure EditBond where
  token : Denom
  editor : Account
  signers : List String
  name : String := doNotModify
  description : String := doNotModify
  orderLimits : String := doNotModify
  sanityRate : String := doNotModify
  sanityMargin : String := doNotModify
deriving DecidableEq, Repr

structure BuyRequest where
  buyer : Account
  amount : Coin
  maxPrices : CoinEntries
deriving DecidableEq, Repr

structure SellRequest where
  seller : Account
  amount : Coin
deriving DecidableEq, Repr

structure SwapRequest where
  swapper : Account
  bondToken : Denom
  source : Coin
  toToken : Denom
deriving DecidableEq, Repr

structure PayOutcome where
  sender : Account
  bondToken : Denom
deriving DecidableEq, Repr

structure WithdrawShare where
  recipient : Account
  bondToken : Denom
deriving DecidableEq, Repr

namespace Check

def notBlank (value name : String) : Result Unit :=
  rejectIf (Text.allBlank value) .argumentCannotBeEmpty name

def denom (d : Denom) : Result Unit :=
  rejectIf (!Denom.isValid d) .invalidCoinDenomination (Text.quoted d)

def denoms : List Denom → Result Unit
  | [] => .ok ()
  | d :: ds => do
    denom d
    denoms ds

def notNegative (value : Dec) (name : String) : Result Unit :=
  rejectIf value.isNegative .argumentCannotBeNegative name

def positive (amount : Int) (name : String) : Result Unit :=
  rejectIf (amount ≤ 0) .argumentMustBePositive name

def notEmpty (items : List String) (name : String) : Result Unit :=
  rejectIf (items = []) .argumentCannotBeEmpty name

def reserveTokens (token : Denom) (seen : List Denom) : List Denom → Result Unit
  | [] => .ok ()
  | d :: ds => do
    rejectIf (d = token) .bondTokenCannotAlsoBeReserveToken d
    rejectIf (d ∈ seen) .duplicateReserveToken d
    denom d
    reserveTokens token (d :: seen) ds

def decimal (text name : String) : Result Dec :=
  match Dec.parse text with
  | .ok d => .ok d
  | .error _ => reject .argumentMissingOrNonDecimal name

/-- Reads a decimal from a field that has to hold text. -/
def decimalField (field : Field) (name : String) : Result Dec :=
  match field with
  | .text s => decimal s name
  | _ => Fault.expectedText.fail

def parameters (fields : Table String Field) : Result Params :=
  Table.traverse (fun name field => decimalField field name) fields

end Check

def CreateBond.check (r : CreateBond) : Result FunctionType := do
  Check.notBlank r.token "token"
  Check.notBlank r.name "name"
  Check.notBlank r.description "description"
  Check.notBlank r.creator "creator"
  Check.notEmpty r.reserveTokens "reserve tokens"
  Check.notBlank r.feeAddress "fee address"
  Check.denom r.token
  let functionType ← FunctionType.parse r.functionType
  functionType.validate r.parameters
  Check.reserveTokens r.token [] r.reserveTokens
  rejectIf (r.reserveTokens.length ≠ functionType.reserveTokenCount)
    .incorrectNumberOfReserveTokens
    s!"{functionType.text} requires {functionType.reserveTokenCount}"
  rejectIf (r.maxSupply.denom ≠ r.token) .maxSupplyDenomDoesNotMatchTokenDenom ""
  Check.notNegative r.sanityRate "sanity rate"
  Check.notNegative r.sanityMargin "sanity margin percentage"
  Check.notNegative r.txFee "tx fee percentage"
  Check.notNegative r.exitFee "exit fee percentage"
  rejectIf (Dec.hundred ≤ r.txFee + r.exitFee) .feesCannotBeOrExceed100Percent ""
  Check.positive (r.batchBlocks.getD 1) "batch blocks"
  Check.positive r.maxSupply.amount "max supply"
  Check.notEmpty r.signers "signers"
  return functionType

def EditBond.check (r : EditBond) (keep : String) : Result Unit := do
  Check.notBlank r.token "token"
  Check.notBlank r.name "name"
  Check.notBlank r.description "description"
  Check.notBlank r.editor "editor"
  rejectIf (r.sanityRate ≠ "" ∧ r.sanityRate ≠ keep ∧ Text.allBlank r.sanityMargin)
    .argumentCannotBeEmpty "sanity margin percentage"
  rejectIf ([r.name, r.description, r.orderLimits, r.sanityRate, r.sanityMargin].all (· == keep))
    .didNotEditAnything ""

def BuyRequest.check (r : BuyRequest) : Result Unit := do
  Check.notBlank r.buyer "buyer"
  Check.positive r.amount.amount "amount"
  Check.denoms (Table.keys r.maxPrices)

def SellRequest.check (r : SellRequest) : Result Unit := do
  Check.notBlank r.seller "seller"
  Check.positive r.amount.amount "amount"

def SwapRequest.check (r : SwapRequest) : Result Unit := do
  Check.notBlank r.swapper "swapper"
  Check.notBlank r.bondToken "bond token"
  Check.notBlank r.toToken "to token"
  Check.denom r.toToken
  rejectIf (r.source.denom = r.toToken) .fromAndToCannotBeTheSameToken ""
  Check.positive r.source.amount "from amount"

def PayOutcome.check (r : PayOutcome) : Result Unit := do
  Check.notBlank r.sender "sender"
  Check.notBlank r.bondToken "bond token"

def WithdrawShare.check (r : WithdrawShare) : Result Unit := do
  Check.notBlank r.recipient "recipient"
  Check.notBlank r.bondToken "bond token"

end BondMarket
