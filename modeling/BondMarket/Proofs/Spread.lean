import BondMarket.Proofs.Acceptance
import BondMarket.Proofs.PowerCurve

/-!
Buyers against sellers. The reserve of a power or an augmented curve is convex in the supply, so
that it lies above its tangents, whose slope is the price: minting costs at least the spot price of
every token, and burning returns at most that. On the rounded values the tangent is kept up to half
a unit of the last place for every token and one more. A reserve that does not exceed the curve adds
to what the buys pay and takes from what the sells get, and averaging costs another half unit for
every token, so that in the price of one token all of it comes to less than three units.
-/

namespace BondMarket
namespace Curve

/-- Curves whose reserve is a polynomial of the supply, divided by one number. The values of a
sigmoid curve are multiples of rounded roots, whose error grows with the parameters. -/
def IsPolynomial : Curve → Prop
  | power _ _ _ | augmented _ _ => True
  | sigmoid _ _ _ => False

variable {curve : Curve} {s s' : Int}

/-- The rounded reserve of such a curve lies above its rounded tangents, up to half a unit of the
last place for every token and one more. -/
theorem tangent_le (hc : curve.Regular) (hpoly : curve.IsPolynomial) (hs : 0 ≤ s) (hs' : 0 ≤ s')
    {p r r' : Dec} (hp : curve.priceAt s = .ok p) (hr : curve.reserveAt s = .ok r)
    (hr' : curve.reserveAt s' = .ok r') :
    2 * (p.raw * (s' - s)) ≤ 2 * (r'.raw - r.raw) + |s' - s| + 2 := by
  have habs := abs_nonneg (s' - s)
  cases curve with
  | power m n c =>
      obtain ⟨hm, hn, -⟩ := hc
      obtain ⟨n, rfl⟩ := Int.eq_ofNat_of_zero_le hn
      have := power_tangent_le hm hs hs' hp hr hr'
      linarith
  | sigmoid a b c => exact hpoly.elim
  | augmented kappa v0 =>
      obtain ⟨hk, hv⟩ := hc
      obtain ⟨k, rfl⟩ : ∃ k : Nat, kappa = k + 1 := ⟨(kappa - 1).toNat, by omega⟩
      rw [priceAt_augmented k hv.ne'] at hp
      rw [← Nat.cast_add_one, reserveAt_augmented (k + 1) hv.ne'] at hr hr'
      cases hp
      cases hr
      cases hr'
      have hscale := mul_nonneg Dec.scale_pos.le Dec.scale_pos.le
      -- Three values are rounded: the price, and the reserve before and after.
      have hlow := (roundHalfEven_bounds hv (s' ^ (k + 1) * Dec.scale * Dec.scale)).1
      have hhigh := (roundHalfEven_bounds hv (s ^ (k + 1) * Dec.scale * Dec.scale)).2
      have htangent := mul_le_mul_of_nonneg_right (pow_tangent_le hs hs' k) hscale
      have hprice := roundHalfEven_mul_le hv (s ^ k * Dec.scale * (k + 1) * Dec.scale) (s' - s)
      set price := roundHalfEven (s ^ k * Dec.scale * (k + 1) * Dec.scale) v0.raw
      set before := roundHalfEven (s ^ (k + 1) * Dec.scale * Dec.scale) v0.raw
      set after := roundHalfEven (s' ^ (k + 1) * Dec.scale * Dec.scale) v0.raw
      have hround : 2 * (price * (s' - s)) * v0.raw ≤
          (2 * (after - before) + |s' - s| + 2) * v0.raw := by linarith
      exact le_of_mul_le_mul_right hround hv

end Curve

namespace Bond

variable {b : Bond} {reserve : Coins}

/-- Where minting costs about the spot price of every token or more, and burning returns about that
or less, buyers pay at least what sellers get, up to two units of the last place. -/
theorem Cleared.sell_le_buy {totalBuy totalSell spot minted burned buy sell : Int}
    (h : Cleared totalBuy totalSell spot minted burned buy sell) (hb : 0 ≤ totalBuy)
    (hsell : 0 ≤ totalSell)
    (hmint : totalSell < totalBuy →
      2 * (spot * (totalBuy - totalSell)) ≤ 2 * minted + (totalBuy - totalSell) + 2)
    (hburn : totalBuy < totalSell →
      2 * burned ≤ 2 * (spot * (totalSell - totalBuy)) + (totalSell - totalBuy) + 2) :
    sell - 2 ≤ buy := by
  rcases h with ⟨-, rfl, rfl⟩ | ⟨hlt, rfl, rfl⟩ | ⟨hlt, rfl, rfl⟩
  · omega
  · have hpos : 0 < totalBuy := by omega
    have hround := (roundHalfEven_bounds hpos (sell * totalSell + minted)).1
    have hmint := hmint hlt
    set buy := roundHalfEven (sell * totalSell + minted) totalBuy
    have hless : (sell - 3) * totalBuy < buy * totalBuy := by linarith
    have := lt_of_mul_lt_mul_right hless hpos.le
    omega
  · have hpos : 0 < totalSell := by omega
    have hround := (roundHalfEven_bounds hpos (buy * totalBuy + burned)).2
    have hburn := hburn hlt
    set sell := roundHalfEven (buy * totalBuy + burned) totalSell
    have hless : (sell - 3) * totalSell < buy * totalSell := by linarith
    have := lt_of_mul_lt_mul_right hless hpos.le
    omega

/-- The spot price of some shares of a pool, where each is rounded, against the price of all of them
at once. -/
theorem spot_share_bounds (x scale : Int) {supply n : Int} (hs : 0 < supply) (hn : 0 ≤ n) :
    2 * (roundHalfEven (x * scale) supply * n) ≤
        2 * roundHalfEven (x * n * scale) supply + n + 1 ∧
      2 * roundHalfEven (x * n * scale) supply ≤
        2 * (roundHalfEven (x * scale) supply * n) + n + 1 := by
  obtain ⟨hlow, hhigh⟩ := roundHalfEven_bounds hs (x * n * scale)
  obtain ⟨hone, hone'⟩ := roundHalfEven_bounds hs (x * scale)
  have hone := mul_le_mul_of_nonneg_right hone hn
  have hone' := mul_le_mul_of_nonneg_right hone' hn
  set spot := roundHalfEven (x * scale) supply
  set all := roundHalfEven (x * n * scale) supply
  have hbelow : 2 * (spot * n) * supply ≤ (2 * all + n + 1) * supply := by linarith
  have habove : 2 * all * supply ≤ (2 * (spot * n) + n + 1) * supply := by linarith
  exact ⟨le_of_mul_le_mul_right hbelow hs, le_of_mul_le_mul_right habove hs⟩

theorem isPolynomial_of_curve (hsigmoid : b.functionType ≠ .sigmoid) {c : Curve}
    (hc : b.curve = .ok c) : c.IsPolynomial := by
  cases c with
  | power m n c => trivial
  | augmented kappa v0 => trivial
  | sigmoid x y z =>
      unfold curve at hc
      cases ht : b.functionType with
      | power => simp [ht, Curve.ofParams, Result.bind_eq_ok] at hc
      | sigmoid => exact absurd ht hsigmoid
      | augmented =>
          simp only [ht, Curve.ofParams, Curve.ofAugmented] at hc
          split at hc <;> simp [Result.bind_eq_ok] at hc
      | swapper => simp [ht, Curve.ofParams, reject] at hc

theorem sell_le_buy_of_curve (hb : b.Accepted) (hswap : b.isSwapper = false)
    (hsigmoid : b.functionType ≠ .sigmoid) (hopen : b.inHatch = false)
    {totalBuy totalSell : Int} (hbuy : 0 ≤ totalBuy) (hsell : 0 ≤ totalSell)
    (hle : totalSell ≤ b.supply) {p : ClearingPrices}
    (hp : b.clearingPrices reserve totalBuy totalSell = .ok p) {backing : Dec}
    (hbacking : b.reserveAt b.supply = .ok backing) {d : Denom} (hd : d ∈ b.reserveTokens)
    (hheld : reserve.amountOf d * Dec.scale ≤ backing.raw) :
    (p.sell.amountOf d).raw - 2 ≤ (p.buy.amountOf d).raw := by
  obtain ⟨c, hc, hregular⟩ := hb.exists_regular hswap
  have hpoly := isPolynomial_of_curve hsigmoid hc
  rw [reserveAt_of_curve hc] at hbacking
  have hs := hsell.trans hle
  obtain ⟨price, hprice⟩ := Curve.exists_priceAt hregular b.supply
  obtain ⟨target, htarget⟩ :=
    Curve.exists_reserveAt_of_regular hregular (b.supply + totalBuy - totalSell)
  have hnonneg := Curve.priceAt_nonneg hregular.proper hs hprice
  have htangent := Curve.tangent_le hregular hpoly hs (by omega) hprice hbacking htarget
  rw [add_sub_assoc, add_sub_cancel_left] at htangent
  refine (cleared_of_curve hswap hopen hc hprice hbuy hsell hle htarget hp hd).sell_le_buy hbuy
    hsell (fun hlt => ?_) fun hlt => ?_
  · rw [abs_of_pos (sub_pos.2 hlt)] at htangent
    have := le_max_left (target.raw - reserve.amountOf d * Dec.scale) 0
    omega
  · rw [abs_of_neg (sub_neg.2 hlt)] at htangent
    have hturned : price.raw * (totalBuy - totalSell) = -(price.raw * (totalSell - totalBuy)) := by
      ring
    have hmatched := mul_nonneg hnonneg (sub_nonneg.2 hlt.le)
    omega

theorem sell_le_buy_of_pool (hswap : b.isSwapper = true) (hpos : 0 < b.supply)
    {totalBuy totalSell : Int} (hbuy : 0 ≤ totalBuy) (hsell : 0 ≤ totalSell) {p : ClearingPrices}
    (hp : b.clearingPrices reserve totalBuy totalSell = .ok p) {d : Denom}
    (hd : d ∈ b.reserveTokens) : (p.sell.amountOf d).raw - 2 ≤ (p.buy.amountOf d).raw := by
  obtain ⟨p', hp', hcleared⟩ := exists_clearingPrices_pool reserve hswap hpos hbuy hsell
  cases hp.symm.trans hp'
  refine (hcleared d hd).sell_le_buy hbuy hsell (fun hlt => ?_) fun hlt => ?_
  · have := (spot_share_bounds (reserve.amountOf d) Dec.scale hpos (sub_nonneg.2 hlt.le)).1
    omega
  · have := (spot_share_bounds (reserve.amountOf d) Dec.scale hpos (sub_nonneg.2 hlt.le)).2
    omega

/-- Buyers pay no less for a token than sellers get, up to two units of the last place: on a power
curve or an open augmented one, where the reserve does not exceed the curve, and in a pool whatever
is in it. -/
theorem spread_bounded (reserve : Coins) (hb : b.Accepted) (hsigmoid : b.functionType ≠ .sigmoid)
    (hopen : b.inHatch = false) (hpos : b.isSwapper = true → 0 < b.supply)
    (hbacked : b.isSwapper = false → ∃ backing, b.reserveAt b.supply = .ok backing ∧
      ∀ d ∈ b.reserveTokens, reserve.amountOf d * 10 ^ 18 ≤ backing.raw)
    {totalBuy totalSell : Int} (hbuy : 0 ≤ totalBuy) (hsell : 0 ≤ totalSell)
    (hle : totalSell ≤ b.supply) :
    ∃ p, b.clearingPrices reserve totalBuy totalSell = .ok p ∧ ∀ d ∈ b.reserveTokens,
      (p.sell.amountOf d).raw - 2 ≤ (p.buy.amountOf d).raw := by
  obtain ⟨p, hp⟩ := hb.exists_clearingPrices reserve hopen hpos hbuy hsell hle
  refine ⟨p, hp, fun d hd => ?_⟩
  cases hswap : b.isSwapper with
  | true => exact sell_le_buy_of_pool hswap (hpos hswap) hbuy hsell hp hd
  | false =>
      obtain ⟨backing, hbacking, hheld⟩ := hbacked hswap
      exact sell_le_buy_of_curve hb hswap hsigmoid hopen hbuy hsell hle hp hbacking hd (hheld d hd)

def threeShares : Bond where
  token := "abc"
  name := "n"
  description := "d"
  creator := "z"
  functionType := .swapper
  parameters := []
  reserveTokens := ["one", "two"]
  txFee := Dec.zero
  exitFee := Dec.zero
  feeAddress := "fees"
  maxSupply := 10
  reserveAddress := reserveAccountFor "abc"
  supply := 3

/-- With one unit in the pool a third of it is rounded down and two thirds are rounded up, so that
two shares that are sold get more each than a buyer pays, by a unit of the last place. -/
theorem spread_bounded_thirds :
    ∃ p, threeShares.clearingPrices [("one", 1), ("two", 1)] 0 2 = .ok p ∧
      (p.sell.amountOf "one").raw = (p.buy.amountOf "one").raw + 1 ∧
      (p.sell.amountOf "one").raw - 2 ≤ (p.buy.amountOf "one").raw := by
  have haccepted : threeShares.Accepted := ⟨rfl, fun h => by cases h⟩
  obtain ⟨p, hp, hspread⟩ := spread_bounded [("one", 1), ("two", 1)] haccepted
    (by decide) (by decide) (by decide) (fun h => by cases h) (le_refl (0 : Int))
    (by decide : (0 : Int) ≤ 2) (by decide)
  have hprices : threeShares.clearingPrices [("one", 1), ("two", 1)] 0 2 =
      .ok ⟨[("one", ⟨333333333333333333⟩), ("two", ⟨333333333333333333⟩)],
        [("one", ⟨333333333333333334⟩), ("two", ⟨333333333333333334⟩)]⟩ := by decide +kernel
  cases hprices.symm.trans hp
  exact ⟨_, hp, rfl, hspread "one" (by decide)⟩

end Bond
end BondMarket
