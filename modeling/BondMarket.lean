import BondMarket.Table
import BondMarket.Text.Blank
import BondMarket.Text.Digit
import BondMarket.Text.Numeral
import BondMarket.Text.Printable
import BondMarket.Text.Quoted
import BondMarket.Decimal.Basic
import BondMarket.Decimal.Division
import BondMarket.Decimal.Parser
import BondMarket.Decimal.Printer
import BondMarket.Decimal.Root
import BondMarket.Error
import BondMarket.FloatingPoint
import BondMarket.Field
import BondMarket.Coins.Denom
import BondMarket.Coins.Basic
import BondMarket.Coins.Decimal
import BondMarket.Coins.Parser
import BondMarket.Coins.Scaling
import BondMarket.Fee
import BondMarket.Curve.Kind
import BondMarket.Curve.Basic
import BondMarket.Curve.ValueFunction
import BondMarket.Pool
import BondMarket.Ledger
import BondMarket.Order
import BondMarket.Batch
import BondMarket.Settlement
import BondMarket.Bond.Basic
import BondMarket.Bond.Pricing
import BondMarket.Clearing
import BondMarket.Config
import BondMarket.Request
import BondMarket.Store
import BondMarket.Market.Basic
import BondMarket.Market.Execution
import BondMarket.Market.Admission
import BondMarket.Market.Lifecycle
import BondMarket.Market.Query
import BondMarket.Market.Handler
import BondMarket.Proofs.Action
import BondMarket.Proofs.NearestEven
import BondMarket.Proofs.Rounding
import BondMarket.Proofs.Table
import BondMarket.Proofs.Coins
import BondMarket.Proofs.Prices
import BondMarket.Proofs.SquareRoot
import BondMarket.Proofs.Curve
import BondMarket.Proofs.Pricing
import BondMarket.Proofs.Plans
import BondMarket.Proofs.Postings
import BondMarket.Proofs.Accounts
import BondMarket.Proofs.Invariant
import BondMarket.Proofs.Cancellation
import BondMarket.Proofs.Reports
import BondMarket.Proofs.Execution
import BondMarket.Proofs.Swaps
import BondMarket.Proofs.Backing
import BondMarket.Proofs.Liquidity
import BondMarket.Proofs.Closing
import BondMarket.Proofs.Creation
import BondMarket.Proofs.Admission
import BondMarket.Proofs.Lifecycle
import BondMarket.Proofs.Withdrawal
import BondMarket.Proofs.Run
import BondMarket.Proofs.Dilution
import BondMarket.Proofs.Escrow
import BondMarket.Proofs.Books
import BondMarket.Proofs.Affordability
import BondMarket.Proofs.Limits
import BondMarket.Proofs.Reconciliation
import BondMarket.Proofs.Solvency
import BondMarket.Proofs.Rejection
import BondMarket.Proofs.Quotation
import BondMarket.Proofs.Hatch
import BondMarket.Proofs.Opening
import BondMarket.Proofs.Phases
import BondMarket.Proofs.Shares
import BondMarket.Proofs.Payment
import BondMarket.Proofs.Displacement
import BondMarket.Proofs.Independence
import BondMarket.Proofs.Trading
import BondMarket.Proofs.Conservation
import BondMarket.Proofs.Monotone
import BondMarket.Proofs.Arrival
import BondMarket.Proofs.Acceptance
import BondMarket.Proofs.RoundTrip
import BondMarket.Proofs.Spread
import BondMarket.Proofs.Completion
import BondMarket.Proofs.Descent
import BondMarket.Proofs.Output
import BondMarket.Proofs.Founding
import BondMarket.Proofs.Constants
import BondMarket.Proofs.PowerCurve
import BondMarket.Proofs.SigmoidCurve
import BondMarket.Proofs.ValueFunction
import BondMarket.Proofs.Proceeds
import BondMarket.Proofs.Costs
import BondMarket.Proofs.SanityBand
import BondMarket.Proofs.Edits
import BondMarket.Proofs.DecimalText
import BondMarket.Proofs.CoinText
import BondMarket.Proofs.CoinAlgebra
