import BondMarket.Proofs.Backing
import BondMarket.Proofs.Swaps

/-!
What a settlement does to the pool of a swapper bond, of which every token is a share. The clearing
prices are rounded to the last place, several times over, but as long as the supply is small enough
this never comes to a whole unit of the reserve. Orders pay and get whole units, so that the buys of
a batch put in at least their share of either reserve and the sells take out at most theirs. The
swaps that follow do not let the product of the reserves fall.
-/

namespace BondMarket

/-! ### Shares at rounded prices

A pool holds `x` of a reserve token, of which `s` shares are out, so that the exact price of a share
is `x * scale / s`. A rounded price is off from it by half a unit of the last place for every time
that it was rounded. -/

section Shares

variable {scale x s spot price e n matched excess k units : Int}

theorem matched_share (hs : 0 < s) (hspot : spot = roundHalfEven (x * scale) s) (hn : 0 ≤ n) :
    2 * (x * scale * n) ≤ 2 * (spot * n * s) + s * n ∧
      2 * (spot * n * s) ≤ 2 * (x * scale * n) + s * n := by
  obtain ⟨hlow, hhigh⟩ := roundHalfEven_bounds hs (x * scale)
  rw [← hspot] at hlow hhigh
  have hlow := mul_le_mul_of_nonneg_right hlow hn
  have hhigh := mul_le_mul_of_nonneg_right hhigh hn
  constructor <;> linarith

/-- The average of the spot price for the shares that are matched and the price of the excess. -/
theorem averaged_share (hs : 0 < s) (hspot : spot = roundHalfEven (x * scale) s)
    (he : e = roundHalfEven (x * excess * scale) s) (hm : 0 ≤ matched) (ht : 0 < n)
    (hn : matched + excess = n) (hprice : price = roundHalfEven (spot * matched + e) n) :
    2 * (x * scale * n) ≤ 2 * (price * n * s) + s * (matched + n + 1) ∧
      2 * (price * n * s) ≤ 2 * (x * scale * n) + s * (matched + n + 1) := by
  obtain ⟨hlow, hhigh⟩ := matched_share hs hspot hm
  obtain ⟨helow, hehigh⟩ := roundHalfEven_bounds hs (x * excess * scale)
  obtain ⟨hplow, hphigh⟩ := roundHalfEven_bounds ht (spot * matched + e)
  rw [← he] at helow hehigh
  rw [← hprice] at hplow hphigh
  have hplow := mul_le_mul_of_nonneg_right hplow hs.le
  have hphigh := mul_le_mul_of_nonneg_right hphigh hs.le
  have hexact : x * scale * n = x * scale * matched + x * excess * scale := by
    rw [← hn]
    ring
  rw [hexact]
  constructor <;> linarith

theorem share_le_charged (hscale : 0 < scale)
    (hprice : 2 * (x * scale * n) ≤ 2 * (price * n * s) + s * k) (hk : s * k < 2 * scale)
    (hs : 0 ≤ s) (hcharged : price * n ≤ units * scale) : x * n ≤ units * s := by
  have hcovers := mul_le_mul_of_nonneg_right hcharged hs
  refine Int.lt_add_one_iff.1 (lt_of_mul_lt_mul_right (a := 2 * scale) ?_ (by omega))
  linarith

theorem paid_le_share (hscale : 0 < scale)
    (hprice : 2 * (price * n * s) ≤ 2 * (x * scale * n) + s * k) (hk : s * k < 2 * scale)
    (hs : 0 ≤ s) (hpaid : units * scale ≤ price * n) : units * s ≤ x * n := by
  have hcovers := mul_le_mul_of_nonneg_right hpaid hs
  refine Int.lt_add_one_iff.1 (lt_of_mul_lt_mul_right (a := 2 * scale) ?_ (by omega))
  linarith

/-- Where either reserve has kept its shares and the product has not fallen since, the product for
the square of a share has not fallen. -/
theorem product_undiluted {x y x₁ y₁ x' y' s s' : Int} (hx₁ : 0 ≤ x₁) (hy : 0 ≤ y) (hs : 0 ≤ s)
    (hs' : 0 ≤ s') (hxs : x * s' ≤ x₁ * s) (hys : y * s' ≤ y₁ * s)
    (hgrown : x₁ * y₁ ≤ x' * y') : x * y * s' ^ 2 ≤ x' * y' * s ^ 2 :=
  calc x * y * s' ^ 2 = (x * s') * (y * s') := by ring
    _ ≤ (x₁ * s) * (y₁ * s) := mul_le_mul hxs hys (mul_nonneg hy hs') (mul_nonneg hx₁ hs)
    _ = x₁ * y₁ * s ^ 2 := by ring
    _ ≤ x' * y' * s ^ 2 := mul_le_mul_of_nonneg_right hgrown (sq_nonneg s)

theorem product_undiluted_trans {p p₁ p' s s₁ s' : Int} (hs₁ : 0 < s₁)
    (h : p * s₁ ^ 2 ≤ p₁ * s ^ 2) (h' : p₁ * s' ^ 2 ≤ p' * s₁ ^ 2) : p * s' ^ 2 ≤ p' * s ^ 2 := by
  refine le_of_mul_le_mul_right ?_ (pow_pos hs₁ 2)
  calc p * s' ^ 2 * s₁ ^ 2 = p * s₁ ^ 2 * s' ^ 2 := by ring
    _ ≤ p₁ * s ^ 2 * s' ^ 2 := mul_le_mul_of_nonneg_right h (sq_nonneg s')
    _ = p₁ * s' ^ 2 * s ^ 2 := by ring
    _ ≤ p' * s₁ ^ 2 * s ^ 2 := mul_le_mul_of_nonneg_right h' (sq_nonneg s)
    _ = p' * s ^ 2 * s₁ ^ 2 := by ring

end Shares

namespace Bond

variable {b : Bond} {reserve : Coins}

/-- The clearing prices of a pool are those of a share, up to half a unit of the last place for
every token of a batch and one more. -/
theorem clearingPrices_pool (hswap : b.isSwapper = true) {totalBuy totalSell : Int}
    (hb : 0 ≤ totalBuy) (hsell : 0 ≤ totalSell) {p : ClearingPrices}
    (h : b.clearingPrices reserve totalBuy totalSell = .ok p) {d : Denom}
    (hd : d ∈ b.reserveTokens) :
    2 * (reserve.amountOf d * Dec.scale * totalBuy) ≤
        2 * ((p.buy.amountOf d).raw * totalBuy * b.supply) +
          b.supply * (totalBuy + totalSell + 1) ∧
      2 * ((p.sell.amountOf d).raw * totalSell * b.supply) ≤
        2 * (reserve.amountOf d * Dec.scale * totalSell) +
          b.supply * (totalBuy + totalSell + 1) := by
  obtain ⟨spot, hspot, -⟩ := clearingPrices_eq_ok h
  have hs := supply_pos_of_spotPrices hswap hspot
  obtain ⟨p', hp', hcleared⟩ := exists_clearingPrices_pool reserve hswap hs hb hsell
  cases h.symm.trans hp'
  have hslack {n : Int} (hn : n ≤ totalBuy + totalSell) :
      b.supply * n ≤ b.supply * (totalBuy + totalSell + 1) :=
    mul_le_mul_of_nonneg_left (by omega) hs.le
  have hslackBuy := hslack (n := totalBuy) (by omega)
  have hslackSell := hslack (n := totalSell) (by omega)
  rcases hcleared d hd with ⟨-, hpbuy, hpsell⟩ | ⟨hlt, hpsell, hpbuy⟩ | ⟨hlt, hpbuy, hpsell⟩
  · have hbuy := matched_share hs hpbuy hb
    have hsold := matched_share hs hpsell hsell
    constructor <;> linarith
  · have hbuy := averaged_share hs rfl rfl hsell (by omega) (by omega) hpbuy
    have hsold := matched_share hs hpsell hsell
    constructor <;> linarith
  · have hsold := averaged_share hs rfl rfl hb (by omega) (by omega) hpsell
    have hbuy := matched_share hs hpbuy hb
    constructor <;> linarith

end Bond

namespace Market

variable {cfg : Config} {m m' : Market} {token : Denom} {b : Bond} {β : Batch}

def afterOrders (m : Market) (token : Denom) (β : Batch) (d : Denom) : Int :=
  m.balance (reserveAccountFor token) d + β.outlook ⟨β.buyPrices, β.sellPrices⟩ d

/-- Filling the orders of a batch leaves at least as much of a reserve for every share. -/
theorem Held.shares_kept (hheld : Held cfg m token b β) (hc : m.Current b β)
    (hswap : b.isSwapper = true) (hmax : b.maxSupply ≤ 1000000000) {d : Denom}
    (hd : d ∈ b.reserveTokens) :
    m.balance (reserveAccountFor token) d * (b.supply + β.totalBuy - β.totalSell) ≤
      m.afterOrders token β d * b.supply := by
  have hbuy := hheld.orders.totalBuy_nonneg
  have hsell := hheld.orders.totalSell_nonneg
  have hsells := hheld.sells_le
  have hbuys := hheld.buys_le
  have hsupply := hheld.supply_nonneg
  have hscale := Dec.scale_pos
  have hcharged := (Batch.charged_bounds β.buys β.buyPrices d).1
  have hpaid := (Batch.paid_bounds β.sells β.sellPrices d).1
  rw [← hheld.orders.totalBuy] at hcharged
  rw [← hheld.orders.totalSell] at hpaid
  have hamount := amountOf_reserveOf m b d
  rw [if_pos hd, hheld.formed.address] at hamount
  -- Buys are bounded by the room below the largest supply, and sells by the supply.
  have hsmall : b.supply * (β.totalBuy + β.totalSell + 1) < 2 * Dec.scale :=
    calc b.supply * (β.totalBuy + β.totalSell + 1) ≤ 1000000000 * (1000000000 + 1) :=
          mul_le_mul (by omega) (by omega) (by omega) (by omega)
      _ < 2 * Dec.scale := by decide
  obtain ⟨hin, hout⟩ : m.balance (reserveAccountFor token) d * β.totalBuy ≤
        openSum (fun o => o.isOpen)
          (fun o => ((β.buyPrices.times o.size).amountOf d).ceilInt) β.buys * b.supply ∧
      openSum (fun o => o.isOpen)
          (fun o => ((β.sellPrices.times o.size).amountOf d).floorInt) β.sells * b.supply ≤
        m.balance (reserveAccountFor token) d * β.totalSell := by
    rcases (add_nonneg hbuy hsell).eq_or_lt with hnone | hsome
    · obtain ⟨hbuy₀, hsell₀⟩ : β.totalBuy = 0 ∧ β.totalSell = 0 := by omega
      rw [hbuy₀, mul_zero] at hcharged
      rw [hsell₀, mul_zero] at hpaid
      rw [hbuy₀, hsell₀, mul_zero]
      exact ⟨mul_nonneg (nonneg_of_mul_nonneg_left hcharged hscale) hsupply,
        mul_nonpos_of_nonpos_of_nonneg (nonpos_of_mul_nonpos_left hpaid hscale) hsupply⟩
    · obtain ⟨hpbuy, hpsell⟩ := Bond.clearingPrices_pool hswap hbuy hsell (hc hsome) hd
      rw [hamount] at hpbuy hpsell
      exact ⟨share_le_charged hscale hpbuy hsmall hsupply hcharged,
        paid_le_share hscale hpsell hsmall hsupply hpaid⟩
  rw [afterOrders, Batch.outlook]
  linarith

/-- A pool whose supply has changed with its reserves: for the square of a share, the product of the
reserves has not fallen. -/
structure Undiluted (token : Denom) (b : Bond) (supply : Int) (m m' : Market) : Prop where
  founded : 0 < supply → 0 < b.supply
  product : ∀ x y, b.reserveTokens = [x, y] →
    m.balance (reserveAccountFor token) x * m.balance (reserveAccountFor token) y * supply ^ 2 ≤
      m'.balance (reserveAccountFor token) x * m'.balance (reserveAccountFor token) y *
        b.supply ^ 2

theorem Undiluted.of_same
    (hr : ∀ d, m'.balance (reserveAccountFor token) d = m.balance (reserveAccountFor token) d) :
    Undiluted token b b.supply m m' :=
  ⟨id, fun _ _ _ => by rw [hr, hr]⟩

theorem Undiluted.trans {b₁ : Bond} {supply : Int} {m₁ : Market}
    (h : Undiluted token b b₁.supply m m₁) (h' : Undiluted token b₁ supply m₁ m')
    (htokens : b₁.reserveTokens = b.reserveTokens) (hsupply : 0 ≤ supply)
    (hs : m'.ledger.Solvent) : Undiluted token b supply m m' where
  founded hpos := h.founded (h'.founded hpos)
  product x y hxy := by
    rcases hsupply.eq_or_lt with rfl | hpos
    · -- Where all shares are gone, nothing is asked of the reserves.
      rw [zero_pow two_ne_zero, mul_zero]
      exact mul_nonneg (mul_nonneg (hs _ x) (hs _ y)) (sq_nonneg _)
    · refine product_undiluted_trans (h'.founded hpos) (h.product x y hxy) ?_
      exact h'.product x y (htokens.trans hxy)

theorem Undiluted.congr {supply : Int} {m₁ : Market} (h : Undiluted token b supply m₁ m')
    (hr : ∀ d, m₁.balance (reserveAccountFor token) d = m.balance (reserveAccountFor token) d) :
    Undiluted token b supply m m' where
  founded := h.founded
  product := by simpa only [hr] using h.product

theorem Undiluted.positive {supply : Int} (h : Undiluted token b supply m m')
    (hs : m'.ledger.Solvent) (hf : b.Formed token) (hswap : b.isSwapper = true)
    (hbefore : 0 < b.supply → ∀ d ∈ b.reserveTokens, 0 < m.balance b.reserveAddress d)
    (hpos : 0 < supply) : ∀ d ∈ b.reserveTokens, 0 < m'.balance b.reserveAddress d := by
  obtain ⟨x, y, htokens⟩ := hf.exists_pair hswap
  have hbefore := hbefore (h.founded hpos)
  simp only [htokens, List.forall_mem_cons, List.not_mem_nil, false_implies, implies_true,
    and_true, hf.address] at hbefore ⊢
  have hproduct := h.product x y htokens
  have hsome : 0 < m.balance (reserveAccountFor token) x *
      m.balance (reserveAccountFor token) y * supply ^ 2 :=
    mul_pos (mul_pos hbefore.1 hbefore.2) (pow_pos hpos 2)
  have hproduct' := pos_of_mul_pos_left (hsome.trans_le hproduct) (sq_nonneg b.supply)
  exact ⟨pos_of_mul_pos_left hproduct' (hs _ y), pos_of_mul_pos_right hproduct' (hs _ x)⟩

/-- Filling the orders of a batch, and trading the reserves afterwards so that their product does
not fall, leaves a pool undiluted. -/
theorem Held.undiluted (hheld : Held cfg m token b β) (hs : m.ledger.Solvent)
    (hc : m.Current b β) (hcovered : ∀ d, 0 ≤ m.afterOrders token β d) {reserve : Denom → Int}
    (hgrown : b.Grown (m.afterOrders token β) reserve)
    (hafter : ∀ d, m'.balance (reserveAccountFor token) d = reserve d)
    (hswap : b.isSwapper = true) (hmax : b.maxSupply ≤ 1000000000) :
    Undiluted token b (b.supply + β.totalBuy - β.totalSell) m m' where
  founded hpos := by
    have hsupply := hheld.supply_nonneg
    have hsell := hheld.orders.totalSell_nonneg
    by_contra hzero
    have := hc.total_eq_zero hheld hswap (by omega)
    omega
  product x y htokens := by
    have hsells := hheld.sells_le
    have hbuy := hheld.orders.totalBuy_nonneg
    rw [hafter, hafter]
    exact product_undiluted (hcovered x) (hs _ y) hheld.supply_nonneg (by omega)
      (hheld.shares_kept hc hswap hmax (by simp [htokens]))
      (hheld.shares_kept hc hswap hmax (by simp [htokens])) (hgrown x y htokens)

end Market
end BondMarket
