import BondMarket.Proofs.Acceptance
import BondMarket.Proofs.Plans
import Mathlib.Algebra.Order.BigOperators.Group.List

/-!
What one clearing pays out against what it takes in. Every buyer is charged the clearing price
rounded up and every seller gets it rounded down, so that the only loss comes of the price of one
token on the larger side, which is rounded to the last place: over all tokens of that side it is at
most half a unit of the last place each. The excess of the sells is in the reserve.
-/

namespace BondMarket
namespace Bond

variable {b : Bond} {reserve : Coins} {prices : DecCoins} {p : ClearingPrices}

/-- The clearing prices in one denomination: what is matched trades at `spot` on both sides, and
the larger side has an excess, which takes no more from the reserve than there is. -/
theorem clearingPrices_bounds (hf : b.Priceable) (hr : ∀ d, 0 ≤ reserve.amountOf d)
    {totalBuy totalSell : Int} (hb : 0 ≤ totalBuy) (hsell : 0 ≤ totalSell)
    (hle : totalSell ≤ b.supply) (h : b.clearingPrices reserve totalBuy totalSell = .ok p)
    (d : Denom) :
    ∃ spot minted burned, 0 ≤ minted ∧ burned ≤ reserve.amountOf d * Dec.scale ∧
      Cleared totalBuy totalSell spot minted burned (p.buy.amountOf d).raw
        (p.sell.amountOf d).raw := by
  obtain ⟨spot, hspot, hcases⟩ := clearingPrices_eq_ok h
  have hreserve : 0 ≤ reserve.amountOf d * Dec.scale := mul_nonneg (hr d) Dec.scale_pos.le
  rcases hcases with ⟨heq, rfl⟩ | ⟨hlt, hpsell, e, he, hdiv⟩ | ⟨hlt, hpbuy, e, he, hdiv⟩
  · exact ⟨_, 0, 0, le_rfl, hreserve, .matched heq rfl rfl⟩
  · obtain ⟨e', he', heproper⟩ := exists_mintPrices hf hr hspot (sub_nonneg.2 hlt.le)
    cases he.symm.trans he'
    exact ⟨_, _, 0, heproper.amountOf_nonneg d, hreserve, .moreBuys hlt (by rw [hpsell])
      (averaged_amount heproper.distinct (by omega) hdiv d)⟩
  · obtain ⟨heproper, hbound⟩ := burnReturns_le hf hr (sub_nonneg.2 hlt.le) (by omega) he
    exact ⟨_, 0, _, le_rfl, hbound d, .moreSells hlt (by rw [hpbuy])
      (averaged_amount heproper.distinct (by omega) hdiv d)⟩

/-- The buys are charged `charged` whole units for `totalBuy` tokens, the sells are paid `paid` for
`totalSell`, and `bal` is in the reserve; the prices are counted in units of the last place, of
which `scale` are a whole one. Twice what the reserve is short of comes to at most one unit of the
last place for every token of the larger side. -/
theorem Cleared.payout_le {totalBuy totalSell spot minted burned buy sell scale bal charged
      paid : Int}
    (h : Cleared totalBuy totalSell spot minted burned buy sell) (hb : 0 ≤ totalBuy)
    (hsell : 0 ≤ totalSell) (hscale : 0 < scale) (hbal : 0 ≤ bal) (hminted : 0 ≤ minted)
    (hburned : burned ≤ bal * scale)
    (hcharged : buy * totalBuy ≤ charged * scale) (hpaid : paid * scale ≤ sell * totalSell) :
    2 * scale * (paid - charged - bal) ≤ max totalBuy totalSell := by
  have hshort : 2 * scale * (paid - charged - bal) =
      2 * (paid * scale) - 2 * (charged * scale) - 2 * (bal * scale) := by ring
  have hbal := mul_nonneg hbal hscale.le
  rw [hshort]
  rcases h with ⟨rfl, rfl, rfl⟩ | ⟨hlt, rfl, rfl⟩ | ⟨hlt, rfl, rfl⟩
  · have := le_max_left totalBuy totalBuy
    linarith
  · -- The buys pay for what is matched, less what rounding took from their price.
    have hround := (roundHalfEven_bounds (hsell.trans_lt hlt) (sell * totalSell + minted)).1
    have := le_max_left totalBuy totalSell
    linarith
  · have hround := (roundHalfEven_bounds (hb.trans_lt hlt) (buy * totalBuy + burned)).2
    have := le_max_right totalBuy totalSell
    linarith

/-! ### Charges and proceeds -/

theorem exists_buyCosts (htx : 0 ≤ b.txFee.raw) (hp : prices.Proper) {amounts : List Int}
    (hpos : ∀ n ∈ amounts, 0 < n) :
    ∃ costs, List.Forall₂ (fun n cost => b.buyCost n prices = .ok cost) amounts costs ∧
      ∀ d, (prices.amountOf d).raw * amounts.sum ≤
        (costs.map fun cost => cost.prices.amountOf d).sum * Dec.scale := by
  induction amounts with
  | nil => exact ⟨[], .nil, fun d => by simp⟩
  | cons n amounts ih =>
      rw [List.forall_mem_cons] at hpos
      obtain ⟨costs, hcosts, hrest⟩ := ih hpos.2
      obtain ⟨cost, hcost, -, -, -, -, hceil, -⟩ := buyCost_spec htx hp hpos.1.le
      refine ⟨cost :: costs, .cons hcost hcosts, fun d => ?_⟩
      have hhead := Dec.raw_le_ceilInt ((prices.times n).amountOf d)
      rw [DecCoins.amountOf_times, ← hceil] at hhead
      simp only [List.map_cons, List.sum_cons, mul_add, add_mul]
      linarith [hrest d]

/-- Every sell gets its proceeds, and together they take at most the price of all their tokens. -/
theorem exists_sellProceeds (htx : 0 ≤ b.txFee.raw) (hexit : 0 ≤ b.exitFee.raw)
    (hp : prices.Proper) {amounts : List Int} (hpos : ∀ n ∈ amounts, 0 < n) :
    ∃ proceeds, List.Forall₂ (fun n s => b.sellProceeds n prices = .ok s) amounts proceeds ∧
      ∀ d, (proceeds.map fun s => s.returned.amountOf d + s.fees.amountOf d).sum * Dec.scale ≤
        (prices.amountOf d).raw * amounts.sum := by
  induction amounts with
  | nil => exact ⟨[], .nil, fun d => by simp⟩
  | cons n amounts ih =>
      rw [List.forall_mem_cons] at hpos
      obtain ⟨proceeds, hproceeds, hrest⟩ := ih hpos.2
      obtain ⟨s, hs, -, -, hfloor, -⟩ := sellProceeds_spec htx hexit hp hpos.1.le
      refine ⟨s :: proceeds, .cons hs hproceeds, fun d => ?_⟩
      have hhead := Dec.floorInt_le_raw ((prices.times n).amountOf d)
      rw [DecCoins.amountOf_times, ← hfloor] at hhead
      simp only [List.map_cons, List.sum_cons, mul_add, add_mul] at hhead ⊢
      linarith [hrest d]

/-- One clearing pays out no more than it takes in and the reserve holds, up to what the rounding of
one price comes to over all tokens of the larger side. Every buy is charged and every sell is paid,
however the totals are divided into orders, and where both totals are below `2 * 10 ^ 18 - 1` the
reserve is never short. -/
theorem payout_bounded (hb : b.Accepted) (htx : 0 ≤ b.txFee.raw) (hexit : 0 ≤ b.exitFee.raw)
    (hr : ∀ d, 0 ≤ reserve.amountOf d) {buys sells : List Int} (hbuys : ∀ n ∈ buys, 0 < n)
    (hsells : ∀ n ∈ sells, 0 < n) (hle : sells.sum ≤ b.supply)
    (h : b.clearingPrices reserve buys.sum sells.sum = .ok p) :
    ∃ costs proceeds,
      List.Forall₂ (fun n cost => b.buyCost n p.buy = .ok cost) buys costs ∧
      List.Forall₂ (fun n s => b.sellProceeds n p.sell = .ok s) sells proceeds ∧
      ∀ d,
        let pay := (costs.map fun cost => cost.prices.amountOf d).sum
        let ret := (proceeds.map fun s => s.returned.amountOf d + s.fees.amountOf d).sum
        2 * 10 ^ 18 * (ret - pay - reserve.amountOf d) ≤ max buys.sum sells.sum + 1 ∧
          (buys.sum < 2 * 10 ^ 18 - 1 → sells.sum < 2 * 10 ^ 18 - 1 →
            ret ≤ pay + reserve.amountOf d) := by
  have hbuy : 0 ≤ buys.sum := List.sum_nonneg fun n hn => (hbuys n hn).le
  have hsell : 0 ≤ sells.sum := List.sum_nonneg fun n hn => (hsells n hn).le
  obtain ⟨hpbuy, hpsell⟩ :=
    clearingPrices_proper hb.priceable hr (hsell.trans hle) hbuy hsell hle h
  obtain ⟨costs, hcosts, hcharged⟩ := exists_buyCosts htx hpbuy hbuys
  obtain ⟨proceeds, hproceeds, hpaid⟩ := exists_sellProceeds htx hexit hpsell hsells
  refine ⟨costs, proceeds, hcosts, hproceeds, fun d => ?_⟩
  obtain ⟨spot, minted, burned, hminted, hburned, hcleared⟩ :=
    clearingPrices_bounds hb.priceable hr hbuy hsell hle h d
  have hbound := hcleared.payout_le hbuy hsell Dec.scale_pos (hr d) hminted hburned (hcharged d)
    (hpaid d)
  have hscale : Dec.scale = 10 ^ 18 := by decide
  rw [hscale] at hbound
  constructor <;> omega

def flatPriced (price : Dec) (supply : Int) : Bond where
  token := "abc"
  name := "n"
  description := "d"
  creator := "z"
  functionType := .power
  parameters := [("m", Dec.zero), ("n", Dec.zero), ("c", price)]
  reserveTokens := ["res"]
  txFee := Dec.zero
  exitFee := Dec.zero
  feeAddress := "fees"
  maxSupply := 10 ^ 19
  reserveAddress := reserveAccountFor "abc"
  supply

/-- The bound is reached at the least price there is, a unit of the last place. Three units of the
reserve come to one and a half at the last place for each of `2 * 10 ^ 18` tokens, which is rounded
up to two, so that selling them all pays four. -/
theorem payout_bounded_leastPrice :
    ∃ p s, (flatPriced ⟨1⟩ (2 * 10 ^ 18)).clearingPrices [("res", 3)] 0 (2 * 10 ^ 18) = .ok p ∧
      (flatPriced ⟨1⟩ (2 * 10 ^ 18)).sellProceeds (2 * 10 ^ 18) p.sell = .ok s ∧
      s.returned.amountOf "res" + s.fees.amountOf "res" - 3 = 1 ∧
      2 * 10 ^ 18 * (s.returned.amountOf "res" + s.fees.amountOf "res" - 3) ≤
        2 * 10 ^ 18 + 1 := by
  have haccepted : (flatPriced ⟨1⟩ (2 * 10 ^ 18)).Accepted := ⟨rfl, fun h => by cases h⟩
  have hprices : (flatPriced ⟨1⟩ (2 * 10 ^ 18)).clearingPrices [("res", 3)] [].sum
      [2 * 10 ^ 18].sum = .ok ⟨[("res", ⟨1⟩)], [("res", ⟨2⟩)]⟩ := by decide +kernel
  have hpaid : (flatPriced ⟨1⟩ (2 * 10 ^ 18)).sellProceeds (2 * 10 ^ 18) [("res", ⟨2⟩)] =
      .ok ⟨[("res", 4)], []⟩ := by decide +kernel
  have hheld (d : Denom) : 0 ≤ Coins.amountOf [("res", 3)] d := by
    rw [Coins.amountOf_cons]
    split
    · decide
    · exact le_rfl
  obtain ⟨costs, proceeds, hcosts, hproceeds, hbound⟩ :=
    payout_bounded haccepted (by decide) (by decide) hheld (by simp) (by simp) (by decide) hprices
  cases hcosts
  obtain ⟨s, _, hs, hnone, rfl⟩ := List.forall₂_cons_left_iff.1 hproceeds
  cases hnone
  cases hpaid.symm.trans hs
  have hreserve : Coins.amountOf [("res", 3)] "res" = 3 := rfl
  exact ⟨_, _, hprices, hs, rfl, by simpa [hreserve] using (hbound "res").1⟩

end Bond
end BondMarket
