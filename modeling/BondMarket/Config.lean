import BondMarket.Decimal.Root
import BondMarket.Text.Blank
import BondMarket.Text.Numeral
import BondMarket.Table

/-!
The settings of a market: the account where bond tokens are made and destroyed, the account that
holds what is in escrow, the text by which an edit leaves a field alone, the cap on the steps of a
root and the length of a batch. Each has a default and may be set from the environment, where
numbers are brought into their range and anything unreadable counts as not set.
-/

namespace BondMarket

structure Config where
  mintBurnAccount : String := "bonds_mint_burn_account"
  escrowAccount : String := "batches_intermediary_account"
  doNotModify : String := "[do-not-modify]"
  rootSteps : Int := Dec.rootSteps
  defaultBlocks : Int := 1
deriving DecidableEq, Repr, Inhabited

namespace Config

def requireText (name value : String) : Result Unit :=
  if value = "" then (Fault.emptySetting name).fail else .ok ()

/-- A setting that has to be an integer above zero; `none` stands for what is no integer. -/
def requirePositive (name : String) : Option Int → Result Int
  | some n => if n ≤ 0 then (Fault.settingNotPositive name).fail else .ok n
  | none => (Fault.settingNotPositive name).fail

def make (mintBurnAccount escrowAccount doNotModify : String)
    (rootSteps defaultBlocks : Option Int) : Result Config := do
  requireText "mint_burn_account" mintBurnAccount
  requireText "batches_intermediary_account" escrowAccount
  requireText "do_not_modify" doNotModify
  if mintBurnAccount = escrowAccount then Fault.sameAccounts.fail
  else
    let rootSteps ← requirePositive "max_approx_root_iterations" rootSteps
    let defaultBlocks ← requirePositive "default_batch_blocks" defaultBlocks
    return { mintBurnAccount, escrowAccount, doNotModify, rootSteps, defaultBlocks }

/-- A text of the environment without the blanks at its ends, unless nothing is left. -/
def textSetting (env : Table String String) (name default : String) : String :=
  match Table.get? env name with
  | none => default
  | some raw => if Text.allBlank raw then default else String.ofList (Text.trim raw)

/-- A number of the environment, brought into its range. -/
def numberSetting (env : Table String String) (name : String) (default lo hi : Int) : Int :=
  match (Table.get? env name).bind fun raw => Text.readInteger (Text.trim raw) with
  | none => default
  | some n => if n < lo then lo else if hi < n then hi else n

def ofEnvironment (env : Table String String) : Result Config :=
  let d : Config := {}
  make (textSetting env "BATCHBONDS_MINT_BURN_ACCOUNT" d.mintBurnAccount)
    (textSetting env "BATCHBONDS_BATCHES_INTERMEDIARY_ACCOUNT" d.escrowAccount)
    (textSetting env "BATCHBONDS_DO_NOT_MODIFY" d.doNotModify)
    (some (numberSetting env "BATCHBONDS_MAX_APPROX_ROOT_ITERATIONS" d.rootSteps 1 10000))
    (some (numberSetting env "BATCHBONDS_DEFAULT_BATCH_BLOCKS" d.defaultBlocks 1 1000000))

end Config
end BondMarket
