import BondMarket.Fee

/-!
The pool of a swapper bond: two reserve tokens whose amounts `x` and `y` trade against each other
so that `x * y` does not fall. Bond tokens are shares of the pool: minting and burning an amount
moves every reserve by `reserve * amount / supply`.

A fee is taken from the input of a swap before it is priced and leaves the pool; the output is
rounded down.
-/

namespace BondMarket.Pool

def requireSupply (supply : Int) : Result Unit :=
  rejectIf (supply ≤ 0) .curveUnavailable "swapper pricing requires a nonzero current supply"

def pricesPerToken (reserve : Coins) (denoms : List Denom) (supply : Int) : Result DecCoins := do
  requireSupply supply
  DecCoins.tabulate denoms fun d => Dec.ofRatio (reserve.amountOf d) supply

/-- The part of each reserve that falls to an amount of tokens: what minting them costs and what
burning them returns. -/
def sharesOf (reserve : Coins) (denoms : List Denom) (amount supply : Int) : Result DecCoins := do
  requireSupply supply
  DecCoins.tabulate denoms fun d => Dec.ofRatio (reserve.amountOf d * amount) supply

structure Swap where
  output : Int
  fee : Int
  reserveIn : Int
  reserveOut : Int
deriving DecidableEq, Repr

/-- The swap of an exact input. The output is `y - x * y / (x + net)` rounded down, where `net` is
the input without its fee. -/
def swapExactIn (reserveIn reserveOut input : Int) (feePercentage : Dec) : Result Swap :=
  if reserveIn < 0 ∨ reserveOut < 0 then (Fault.negativeReserves reserveIn reserveOut).fail
  else if input < 0 then (Fault.negativeInput input).fail
  else do
    let fee ← Fee.ofValue (.ofInt input) feePercentage
    let net := input - fee
    if net ≤ 0 then reject .swapAmountTooSmallToGiveAnyReturn s!"input {input}"
    else
      let after := reserveIn + net
      -- What stays in the pool is rounded up.
      let output := reserveOut - (reserveIn * reserveOut + after - 1) / after
      if output ≤ 0 then reject .swapAmountTooSmallToGiveAnyReturn s!"input {input}"
      else if reserveOut ≤ output then
        reject .swapAmountCausesReserveDepletion s!"output {output}"
      else
        let left := reserveOut - output
        if after * left < reserveIn * reserveOut then
          (Fault.productLowered (after * left) (reserveIn * reserveOut)).fail
        else return ⟨output, fee, after, left⟩

/-- The last check of a swap always passes. -/
theorem product_le_of_rounded (x y : Int) {after : Int} (h : 0 < after) :
    x * y ≤ after * (y - (y - (x * y + after - 1) / after)) := by
  have hup := Int.lt_ediv_add_one_mul_self (x * y + after - 1) h
  rw [Int.add_mul, Int.mul_comm _ after] at hup
  rw [Int.sub_sub_self]
  omega

theorem swapExactIn_of_fee {reserveIn reserveOut input fee : Int} {feePercentage : Dec}
    (hin : 0 ≤ reserveIn) (hout : 0 ≤ reserveOut) (hinput : 0 ≤ input)
    (hfee : Fee.ofValue (.ofInt input) feePercentage = .ok fee) :
    swapExactIn reserveIn reserveOut input feePercentage =
      if input - fee ≤ 0 then reject .swapAmountTooSmallToGiveAnyReturn s!"input {input}"
      else
        let after := reserveIn + (input - fee)
        let output := reserveOut - (reserveIn * reserveOut + after - 1) / after
        if output ≤ 0 then reject .swapAmountTooSmallToGiveAnyReturn s!"input {input}"
        else if reserveOut ≤ output then
          reject .swapAmountCausesReserveDepletion s!"output {output}"
        else .ok ⟨output, fee, after, reserveOut - output⟩ := by
  have hreserves : ¬ (reserveIn < 0 ∨ reserveOut < 0) := by omega
  simp only [swapExactIn, hreserves, Int.not_lt.2 hinput, if_false, hfee, bind, Except.bind]
  split
  · rfl
  · have hkept := product_le_of_rounded reserveIn reserveOut
      (show 0 < reserveIn + (input - fee) by omega)
    simp only [Int.not_lt.2 hkept, if_false]
    rfl

/-- Whether the ratio of the first reserve to the second leaves the band of a margin, in percent,
around a rate. The band does not go below zero. A rate of zero sets no band, and an empty second
reserve leaves every band. -/
def violatesRate (first second : Int) (rate margin : Dec) : Result Bool :=
  if rate.isZero then .ok false
  else if second = 0 then .ok true
  else do
    let ratio ← Dec.ofRatio first second
    let width ← margin.div Dec.hundred
    let upper := rate * (Dec.one + width)
    let lower := (rate * (Dec.one - width)).clamped
    return decide (ratio < lower) || decide (upper < ratio)

def reservesViolateRate (reserve : Coins) (denoms : List Denom) (rate margin : Dec) :
    Result Bool :=
  match denoms with
  | first :: second :: _ =>
    violatesRate (reserve.amountOf first) (reserve.amountOf second) rate margin
  | _ => if rate.isZero then .ok false else Fault.tooFewReserveTokens.fail

/-- The reserves after a swap, in increasing order of the denominations. -/
def applySwap (reserve : Coins) (source : Denom) (netIn : Int) (target : Denom) (output : Int) :
    Result Coins :=
  let deposited := Table.set reserve source (reserve.amountOf source + netIn)
  let left := Coins.amountOf deposited target - output
  if left < 0 then (Fault.reserveOverdrawn target).fail
  else .ok (Coins.dropZeros (Table.sorted (Table.set deposited target left)))

end BondMarket.Pool
