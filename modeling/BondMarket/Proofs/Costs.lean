import BondMarket.Proofs.Proceeds
import Mathlib.Algebra.Order.BigOperators.Group.List

/-!
What a buy costs against what it is worth. The exact value of the tokens in a denomination is the
price times the amount, and the exact cost is the value with the fee on it. The buyer owes the value
rounded up and the fee rounded up, that is at most two units more than the exact cost. Every order
is rounded on its own, so that an order in parts is rounded more often, and always up: it never
costs less than the order as a whole.
-/

namespace BondMarket

/-! ### Rounded costs of exact values -/

namespace Fee

variable {rate value value' : ℚ}

/-- A value and the percentage `rate` of it, each rounded up. -/
def roundedCost (rate value : ℚ) : Int := ⌈value⌉ + ⌈value * rate / 100⌉

theorem le_roundedCost (rate value : ℚ) :
    value + value * rate / 100 ≤ roundedCost rate value := by
  rw [roundedCost, Int.cast_add]
  exact add_le_add (Int.le_ceil _) (Int.le_ceil _)

theorem roundedCost_lt (rate value : ℚ) :
    (roundedCost rate value : ℚ) < value + value * rate / 100 + 2 := by
  have hvalue := Int.ceil_lt_add_one value
  have hfee := Int.ceil_lt_add_one (value * rate / 100)
  rw [roundedCost, Int.cast_add]
  linarith

theorem roundedCost_mono (hrate : 0 ≤ rate) (h : value ≤ value') :
    roundedCost rate value ≤ roundedCost rate value' := by
  have hfee : value * rate / 100 ≤ value' * rate / 100 := by gcongr
  exact add_le_add (Int.ceil_mono h) (Int.ceil_mono hfee)

/-- Two values are rounded once together and twice apart. -/
theorem roundedCost_add_le (rate value value' : ℚ) :
    roundedCost rate (value + value') ≤ roundedCost rate value + roundedCost rate value' := by
  have hfee : (value + value') * rate / 100 = value * rate / 100 + value' * rate / 100 := by ring
  have hvalues := Int.ceil_add_le value value'
  have hfees := Int.ceil_add_le (value * rate / 100) (value' * rate / 100)
  rw [roundedCost, roundedCost, roundedCost, hfee]
  linarith

theorem roundedCost_sum_le (rate price : ℚ) (sizes : List Int) :
    roundedCost rate (price * sizes.sum) ≤
      (sizes.map fun n : Int => roundedCost rate (price * n)).sum := by
  induction sizes with
  | nil => simp [roundedCost]
  | cons n sizes ih =>
      have hsplit : price * ((n :: sizes).sum : Int) = price * n + price * sizes.sum := by
        rw [List.sum_cons]
        push_cast
        ring
      rw [hsplit, List.map_cons, List.sum_cons]
      exact (roundedCost_add_le rate _ _).trans (by gcongr)

end Fee

namespace Bond

variable {b : Bond} {prices : DecCoins}

theorem exists_buyCost (htx : 0 ≤ b.txFee.raw) (hp : prices.Proper) {n : Int} (hn : 0 ≤ n) :
    ∃ cost, b.buyCost n prices = .ok cost ∧
      ∀ d, cost.total.amountOf d =
        Fee.roundedCost b.txFee.toRat ((prices.amountOf d).toRat * n) := by
  obtain ⟨cost, hok, -, -, -, hsum, hprices, hfees⟩ := buyCost_spec htx hp hn
  refine ⟨cost, hok, fun d => ?_⟩
  rw [hsum, hprices, hfees, Dec.ceilInt_eq_ceil, Fee.due, Dec.ceilDiv_percentage,
    DecCoins.toRat_amountOf_times, Fee.roundedCost]

theorem exists_buyCosts_of_sizes (htx : 0 ≤ b.txFee.raw) (hp : prices.Proper) {sizes : List Int}
    (hsizes : ∀ n ∈ sizes, 0 < n) :
    ∃ parts, List.Forall₂ (fun n cost => b.buyCost n prices = .ok cost) sizes parts ∧
      ∀ d, (parts.map fun cost => cost.total.amountOf d).sum =
        (sizes.map fun n : Int =>
          Fee.roundedCost b.txFee.toRat ((prices.amountOf d).toRat * n)).sum := by
  induction sizes with
  | nil => exact ⟨[], .nil, fun _ => rfl⟩
  | cons n sizes ih =>
      obtain ⟨hn, hrest⟩ := List.forall_mem_cons.1 hsizes
      obtain ⟨cost, hcost, htotal⟩ := exists_buyCost htx hp hn.le
      obtain ⟨parts, hparts, hsum⟩ := ih hrest
      refine ⟨cost :: parts, .cons hcost hparts, fun d => ?_⟩
      rw [List.map_cons, List.sum_cons, List.map_cons, List.sum_cons, htotal, hsum]

/-- Splitting a buy never makes it cheaper. At proper prices an order and its parts have costs; in
every denomination the total of the order is at most the sum of the totals of the parts, at least
its exact value with the exact fee, and less than two above that. And an order for more never costs
less. -/
theorem buyCost_split (htx : 0 ≤ b.txFee.raw) (hp : prices.Proper) :
    (∀ sizes : List Int, (∀ n ∈ sizes, 0 < n) →
      ∃ whole parts, b.buyCost sizes.sum prices = .ok whole ∧
        List.Forall₂ (fun n cost => b.buyCost n prices = .ok cost) sizes parts ∧
        ∀ (d : Denom) (value : ℚ), value = (prices.amountOf d).toRat * sizes.sum →
          whole.total.amountOf d ≤ (parts.map fun cost => cost.total.amountOf d).sum ∧
          value + value * b.txFee.toRat / 100 ≤ whole.total.amountOf d ∧
          whole.total.amountOf d < value + value * b.txFee.toRat / 100 + 2) ∧
    ∀ m n : Int, 0 ≤ m → m ≤ n →
      ∃ less more, b.buyCost m prices = .ok less ∧ b.buyCost n prices = .ok more ∧
        ∀ d, less.total.amountOf d ≤ more.total.amountOf d := by
  constructor
  · intro sizes hsizes
    have hnonneg : 0 ≤ sizes.sum := List.sum_nonneg fun n hn => (hsizes n hn).le
    obtain ⟨whole, hwhole, htotal⟩ := exists_buyCost htx hp hnonneg
    obtain ⟨parts, hparts, hsum⟩ := exists_buyCosts_of_sizes htx hp hsizes
    refine ⟨whole, parts, hwhole, hparts, fun d value hvalue => ?_⟩
    subst hvalue
    rw [hsum, htotal]
    exact ⟨Fee.roundedCost_sum_le _ _ sizes, Fee.le_roundedCost _ _,
      Fee.roundedCost_lt _ _⟩
  · intro m n hm hle
    obtain ⟨less, hless, hlow⟩ := exists_buyCost htx hp hm
    obtain ⟨more, hmore, hhigh⟩ := exists_buyCost htx hp (hm.trans hle)
    refine ⟨less, more, hless, hmore, fun d => ?_⟩
    rw [hlow, hhigh]
    have hprice := Dec.toRat_nonneg (hp.amountOf_nonneg d)
    have hle : (m : ℚ) ≤ n := by exact_mod_cast hle
    exact Fee.roundedCost_mono (Dec.toRat_nonneg htx) (mul_le_mul_of_nonneg_left hle hprice)

def costOfThree : BuyCost :=
  ⟨[("one", 1), ("two", 300)], [("one", 1), ("two", 3)], [("one", 2), ("two", 303)]⟩

def costOfOne : BuyCost :=
  ⟨[("one", 1), ("two", 100)], [("one", 1), ("two", 1)], [("one", 2), ("two", 101)]⟩

/-- Three tokens at three tenths each, and a percent of it: two as one order, and two for each of
three orders. -/
theorem buyCost_split_thirds :
    percentCharging.buyCost 3 twoPrices = .ok costOfThree ∧
      percentCharging.buyCost 1 twoPrices = .ok costOfOne ∧
      costOfThree.total.amountOf "one" ≤
        ([costOfOne, costOfOne, costOfOne].map fun cost => cost.total.amountOf "one").sum ∧
      (9 / 10 + 9 / 10 * Dec.one.toRat / 100 : ℚ) ≤ costOfThree.total.amountOf "one" ∧
      costOfThree.total.amountOf "one" < (9 / 10 + 9 / 10 * Dec.one.toRat / 100 + 2 : ℚ) ∧
      costOfOne.total.amountOf "one" ≤ costOfThree.total.amountOf "one" := by
  obtain ⟨hsplit, hmono⟩ := buyCost_split (b := percentCharging) (by decide) proper_twoPrices
  have hone : percentCharging.buyCost 1 twoPrices = .ok costOfOne := by decide +kernel
  have hthree : percentCharging.buyCost 3 twoPrices = .ok costOfThree := by decide +kernel
  obtain ⟨whole, parts, hwhole, hparts, hcosts⟩ := hsplit [1, 1, 1] (by decide)
  obtain ⟨less, more, hless, hmore, hle⟩ := hmono 1 3 (by decide) (by decide)
  cases hone.symm.trans hless
  cases hthree.symm.trans hmore
  cases hthree.symm.trans hwhole
  obtain _ | ⟨h₁, _ | ⟨h₂, _ | ⟨h₃, _ | _⟩⟩⟩ := hparts
  cases hone.symm.trans h₁
  cases hone.symm.trans h₂
  cases hone.symm.trans h₃
  have hprice : twoPrices.amountOf "one" = ⟨300000000000000000⟩ := rfl
  have hvalue : (9 / 10 : ℚ) = (twoPrices.amountOf "one").toRat * ([1, 1, 1] : List Int).sum := by
    rw [hprice]
    norm_num [Dec.toRat, Dec.scale]
  obtain ⟨hsum, hlow, hhigh⟩ := hcosts "one" (9 / 10) hvalue
  exact ⟨hthree, hone, hsum, hlow, hhigh, hle "one"⟩

end Bond
end BondMarket
