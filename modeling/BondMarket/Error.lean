import BondMarket.Decimal.Printer
import BondMarket.Text.Quoted

/-!
Why an operation fails. There are three families.

A *rejection* turns a request down: it carries one of a closed set of codes and a detail, or says
which account cannot cover a debit. It is reported to whoever made the request.

A *fatal* error means that pricing or bookkeeping went wrong where earlier checks should have
prevented it; processing has to stop.

A *fault* is a value no operation is defined on: an amount below zero, a text that is no
decimal, a division by zero.

The wording of each is in one function, `Error.message`. The amounts that it shows may have any
number of digits, as in `Decimal/Printer`.
-/

namespace BondMarket

/-- The grounds on which a request is turned down. -/
inductive Code where
  | bondDoesNotExist
  | bondAlreadyExists
  | argumentCannotBeEmpty
  | argumentMustBePositive
  | argumentCannotBeNegative
  | argumentMissingOrNonDecimal
  | invalidCoinDenomination
  | unrecognizedFunctionType
  | invalidFunctionParameter
  | incorrectNumberOfReserveTokens
  | duplicateReserveToken
  | bondTokenCannotAlsoBeReserveToken
  | maxSupplyDenomDoesNotMatchTokenDenom
  | feesCannotBeOrExceed100Percent
  | didNotEditAnything
  | signersMismatch
  | fromAndToCannotBeTheSameToken
  | reserveDenomsMismatch
  | orderQuantityLimitExceeded
  | cannotMintMoreThanMaxSupply
  | cannotBurnMoreThanSupply
  | exceedsHatchSupply
  | maxPriceExceeded
  | insufficientFunds
  | insufficientReserveToBuy
  | bondDoesNotAllowSelling
  | valuesViolateSanityRate
  | curveUnavailable
  | functionNotAvailableForFunctionType
  | tokenIsNotAValidReserveToken
  | swapAmountTooSmallToGiveAnyReturn
  | swapAmountCausesReserveDepletion
  | invalidStateForAction
  | cannotMakeZeroOutcomePayment
  | noBondTokensOwned
deriving DecidableEq, Repr

def Code.text : Code → String
  | bondDoesNotExist => "BondDoesNotExist"
  | bondAlreadyExists => "BondAlreadyExists"
  | argumentCannotBeEmpty => "ArgumentCannotBeEmpty"
  | argumentMustBePositive => "ArgumentMustBePositive"
  | argumentCannotBeNegative => "ArgumentCannotBeNegative"
  | argumentMissingOrNonDecimal => "ArgumentMissingOrNonDecimal"
  | invalidCoinDenomination => "InvalidCoinDenomination"
  | unrecognizedFunctionType => "UnrecognizedFunctionType"
  | invalidFunctionParameter => "InvalidFunctionParameter"
  | incorrectNumberOfReserveTokens => "IncorrectNumberOfReserveTokens"
  | duplicateReserveToken => "DuplicateReserveToken"
  | bondTokenCannotAlsoBeReserveToken => "BondTokenCannotAlsoBeReserveToken"
  | maxSupplyDenomDoesNotMatchTokenDenom => "MaxSupplyDenomDoesNotMatchTokenDenom"
  | feesCannotBeOrExceed100Percent => "FeesCannotBeOrExceed100Percent"
  | didNotEditAnything => "DidNotEditAnything"
  | signersMismatch => "SignersMismatch"
  | fromAndToCannotBeTheSameToken => "FromAndToCannotBeTheSameToken"
  | reserveDenomsMismatch => "ReserveDenomsMismatch"
  | orderQuantityLimitExceeded => "OrderQuantityLimitExceeded"
  | cannotMintMoreThanMaxSupply => "CannotMintMoreThanMaxSupply"
  | cannotBurnMoreThanSupply => "CannotBurnMoreThanSupply"
  | exceedsHatchSupply => "ExceedsHatchSupply"
  | maxPriceExceeded => "MaxPriceExceeded"
  | insufficientFunds => "InsufficientFunds"
  | insufficientReserveToBuy => "InsufficientReserveToBuy"
  | bondDoesNotAllowSelling => "BondDoesNotAllowSelling"
  | valuesViolateSanityRate => "ValuesViolateSanityRate"
  | curveUnavailable => "CurveUnavailable"
  | functionNotAvailableForFunctionType => "FunctionNotAvailableForFunctionType"
  | tokenIsNotAValidReserveToken => "TokenIsNotAValidReserveToken"
  | swapAmountTooSmallToGiveAnyReturn => "SwapAmountTooSmallToGiveAnyReturn"
  | swapAmountCausesReserveDepletion => "SwapAmountCausesReserveDepletion"
  | invalidStateForAction => "InvalidStateForAction"
  | cannotMakeZeroOutcomePayment => "CannotMakeZeroOutcomePayment"
  | noBondTokensOwned => "NoBondTokensOwned"

def Code.all : List Code := [
  bondDoesNotExist, bondAlreadyExists, argumentCannotBeEmpty, argumentMustBePositive,
  argumentCannotBeNegative, argumentMissingOrNonDecimal, invalidCoinDenomination,
  unrecognizedFunctionType, invalidFunctionParameter, incorrectNumberOfReserveTokens,
  duplicateReserveToken, bondTokenCannotAlsoBeReserveToken,
  maxSupplyDenomDoesNotMatchTokenDenom, feesCannotBeOrExceed100Percent, didNotEditAnything,
  signersMismatch, fromAndToCannotBeTheSameToken, reserveDenomsMismatch,
  orderQuantityLimitExceeded, cannotMintMoreThanMaxSupply, cannotBurnMoreThanSupply,
  exceedsHatchSupply, maxPriceExceeded, insufficientFunds, insufficientReserveToBuy,
  bondDoesNotAllowSelling, valuesViolateSanityRate, curveUnavailable,
  functionNotAvailableForFunctionType, tokenIsNotAValidReserveToken,
  swapAmountTooSmallToGiveAnyReturn, swapAmountCausesReserveDepletion, invalidStateForAction,
  cannotMakeZeroOutcomePayment, noBondTokensOwned]

def Code.ofText? (s : String) : Option Code := Code.all.find? fun c => c.text == s

/-- A value that an operation is not defined on. -/
inductive Fault where
  /-- A divisor is zero. -/
  | divisionByZero
  /-- A share of a supply of zero is asked for. -/
  | shareOfNothing
  | rawNotInteger
  | expectedInteger (kind : String)
  | expectedText
  | notADecimal (kind : String)
  | emptyDecimal
  | malformedDecimal (text : String)
  | tooManyPlaces (text : String)
  /-- A digit that has no place in decimal notation. -/
  | digitWithoutValue
  | badExponent (shown : String)
  | badRoot (shown : String)
  | squareRootOfNegative (d : Dec)
  | emptyDenom
  | coinNotInteger
  | negativeCoin (amount : Int)
  | amountNotInteger (denom : String)
  | negativeAmount (denom : String) (amount : Int)
  | negativeDifference (denom : String) (amount : Int)
  | negativeDecimalAmount (denom : String) (amount : Dec)
  | malformedCoin (text : String)
  | duplicateDenom (denom : String)
  | negativeFeeRate (percentage : Dec)
  | negativeFeeBase (amount : Dec)
  | parameterNotDecimal (name : String)
  | missingParameter (name : String)
  | sigmoidConstantZero
  | negativeSupply (amount supply : Int)
  | negativeBurn (amount : Int)
  | burnExceedsSupply (amount supply : Int)
  | negativeReserves (first second : Int)
  | negativeInput (amount : Int)
  | productLowered (after before : Int)
  | reserveOverdrawn (denom : String)
  | tooFewReserveTokens
  | negativeBalance (amount : Int)
  | badBlocks (shown : String)
  | alreadyCancelled (address coin : String)
  | noSuchOrder (index : Nat)
  | inconsistentBond (token : String) (violations : List String)
  | emptySetting (name : String)
  | sameAccounts
  | settingNotPositive (name : String)
  | unknownCode
deriving DecidableEq, Repr

/-- What a fault is about: a value out of its range, a value of the wrong kind, a division by
zero, a name that is not in a table, or a place that is not in a list. -/
inductive Fault.Kind where
  | value
  | kind
  | division
  | key
  | index
deriving DecidableEq, Repr

def Fault.kind : Fault → Fault.Kind
  | divisionByZero | shareOfNothing => .division
  | rawNotInteger | expectedInteger _ | expectedText | notADecimal _ | coinNotInteger
  | amountNotInteger _ | parameterNotDecimal _ | unknownCode => .kind
  | missingParameter _ => .key
  | tooFewReserveTokens | noSuchOrder _ => .index
  | _ => .value

/-- The wording of a fault. A fault that is not worded has the empty text. -/
def Fault.message : Fault → String
  | divisionByZero => "division by zero"
  | shareOfNothing => ""
  | rawNotInteger => "Dec.raw must be an int"
  | expectedInteger kind => s!"expected int, got {kind}"
  | expectedText => "expected str"
  | notADecimal kind => s!"cannot use {kind} as Dec"
  | emptyDecimal => "empty decimal string"
  | malformedDecimal text => s!"invalid decimal string: {Text.quoted text}"
  | tooManyPlaces text => s!"too many decimal places in {Text.quoted text} (max {Dec.places})"
  | digitWithoutValue => ""
  | badExponent shown => s!"exponent must be a non-negative int: {shown}"
  | badRoot shown => s!"root must be a non-negative int: {shown}"
  | squareRootOfNegative d => s!"cannot take square root of negative value {d}"
  | emptyDenom => "denom must be a non-empty string"
  | coinNotInteger => "amount must be an int"
  | negativeCoin amount => s!"amount must be non-negative: {amount}"
  | amountNotInteger denom => s!"amount for {denom} must be an int"
  | negativeAmount denom amount => s!"amount for {denom} must be non-negative: {amount}"
  | negativeDifference denom amount => s!"negative coin amount for {denom}: {amount}"
  | negativeDecimalAmount denom amount => s!"negative dec coin amount for {denom}: {amount}"
  | malformedCoin text => s!"invalid coin expression: {Text.quoted text}"
  | duplicateDenom denom => s!"duplicate denom in coins: {denom}"
  | negativeFeeRate percentage => s!"fee percentage must be non-negative: {percentage}"
  | negativeFeeBase amount => s!"fee base must be non-negative: {amount}"
  | parameterNotDecimal name => s!"parameter {name} must be a Dec"
  | missingParameter _ => ""
  | sigmoidConstantZero => "sigmoid c cannot be zero"
  | negativeSupply amount supply =>
    s!"amount and supply must be non-negative: ({amount}, {supply})"
  | negativeBurn amount => s!"amount must be non-negative: {amount}"
  | burnExceedsSupply amount supply => s!"cannot burn {amount} from supply {supply}"
  | negativeReserves first second => s!"Reserves must be non-negative: ({first}, {second})"
  | negativeInput amount => s!"amount_in must be non-negative: {amount}"
  | productLowered after before =>
    s!"Invariant violation: new_k ({after}) < old_k ({before})"
  | reserveOverdrawn denom => s!"reserve of {denom} would go negative"
  | tooFewReserveTokens => ""
  | negativeBalance amount => s!"Balance cannot be negative: {amount}"
  | badBlocks shown => s!"blocks_remaining must be a non-negative int: {shown}"
  | alreadyCancelled address coin => s!"order from {address} for {coin} is already cancelled"
  | noSuchOrder _ => ""
  | inconsistentBond token violations =>
    s!"invalid bond {token}: " ++ String.intercalate ", " violations
  | emptySetting name => s!"{name} must be a non-empty string"
  | sameAccounts => "mint_burn_account and batches_intermediary_account must differ"
  | settingNotPositive name => s!"{name} must be a positive int"
  | unknownCode => "code must be an ErrorCode"

inductive Error where
  /-- The request is turned down on the ground of a code. -/
  | rejected (code : Code) (detail : String)
  /-- An account cannot cover a debit. -/
  | insufficientFunds (account denom : String) (balance amount : Int)
  /-- The state contradicts what earlier checks established. -/
  | violated (violations : List String)
  /-- A record that has to be there is missing. -/
  | missingRecord (kind key : String)
  /-- An iteration did not come to rest within its cap. -/
  | noConvergence (report : String)
  /-- An operation was given a value it is not defined on. -/
  | fault (f : Fault)
deriving DecidableEq, Repr

namespace Error

def isRejection : Error → Bool
  | rejected _ _ | insufficientFunds _ _ _ _ => true
  | _ => false

/-- Whether processing has to stop. -/
def isFatal : Error → Bool
  | violated _ | missingRecord _ _ | noConvergence _ => true
  | _ => false

def withDetail (code : Code) (detail : String) : String :=
  if detail = "" then code.text else s!"{code.text}: {detail}"

def message : Error → String
  | rejected code detail => withDetail code detail
  | insufficientFunds account denom balance amount =>
    withDetail .insufficientFunds
      s!"{account} has {balance}{denom}, needs {amount}{denom}"
  | violated violations => "invariant violations: " ++ String.intercalate ", " violations
  | missingRecord kind key => s!"{kind} not found for {key}"
  | noConvergence report => report
  | fault f => f.message

end Error

abbrev Result (α : Type) := Except Error α

def reject {α : Type} (code : Code) (detail : String) : Result α :=
  .error (.rejected code detail)

def rejectIf (p : Prop) [Decidable p] (code : Code) (detail : String) : Result Unit :=
  if p then reject code detail else .ok ()

def Fault.fail {α : Type} (f : Fault) : Result α := .error (.fault f)

theorem rejectIf_eq_ok_iff {p : Prop} [Decidable p] {code : Code} {detail : String} :
    rejectIf p code detail = .ok () ↔ ¬p := by
  by_cases h : p <;> simp [rejectIf, reject, h]

end BondMarket
