import BondMarket.Proofs.Execution

/-!
What a settlement does to the reserve of a power or a sigmoid bond. The clearing prices are rounded
to the last place, and taken over all tokens of a batch this comes to less than a unit as long as
the supply is small enough; every order adds at most a unit of its own. A reserve that backs the
supply before the settlement therefore backs it afterwards.
-/

namespace BondMarket

def openCount {α : Type} (isOpen : α → Bool) (orders : List α) : Nat :=
  (orders.filter isOpen).length

theorem openCount_cons {α : Type} (isOpen : α → Bool) (o : α) (orders : List α) :
    openCount isOpen (o :: orders) = (if isOpen o then 1 else 0) + openCount isOpen orders := by
  cases h : isOpen o <;> simp [openCount, h, add_comm]

section Orders

variable {α : Type} {isOpen : α → Bool} {size charge : α → Int}

theorem openCount_pos {orders : List α} (h : 0 < openSum isOpen size orders) :
    1 ≤ openCount isOpen orders := by
  unfold openSum at h
  unfold openCount
  refine List.length_pos_of_ne_nil fun hnil => ?_
  simp [hnil] at h

/-- Charges that are rounded up come to at least the exact amount, and to less than a unit more for
each order. -/
theorem openSum_charges (price : Int) (orders : List α)
    (hlow : ∀ o, price * size o ≤ charge o * Dec.scale)
    (hhigh : ∀ o, charge o * Dec.scale ≤ price * size o + Dec.scale) :
    price * openSum isOpen size orders ≤ openSum isOpen charge orders * Dec.scale ∧
      openSum isOpen charge orders * Dec.scale ≤
        price * openSum isOpen size orders + openCount isOpen orders * Dec.scale := by
  induction orders with
  | nil => simp [openCount]
  | cons o orders ih =>
      rw [openSum_cons, openSum_cons, openCount_cons]
      have := hlow o
      have := hhigh o
      split
      · push_cast
        constructor <;> linarith [ih.1, ih.2]
      · simpa using ih

end Orders

/-! ### The three cases of a settlement

Before it the reserve is `bal` and the curve asks for `r`, afterwards for `r'`; all but `bal` are
counted in units of the last place. `spot` is the price of what is matched. The buys pay `charged`
for `totalBuy` tokens, the sells get `paid` for `totalSell`, each order being rounded by itself. -/

section Cases

variable {scale bal r r' spot price totalBuy totalSell charged paid : Int} {n buys sells : Nat}

/-- Where the sides are equal, all orders trade at the same price, and rounding adds to the
reserve. -/
theorem backed_matched {total : Int} (hs : 0 < scale) (hfloor : r / scale ≤ bal)
    (hceil : bal * scale ≤ r + 2 * n * scale) (hlow : spot * total ≤ charged * scale)
    (hhigh : charged * scale ≤ spot * total + buys * scale)
    (hpaid : paid * scale ≤ spot * total) (hpaid' : spot * total ≤ paid * scale + sells * scale) :
    r / scale ≤ bal + charged - paid ∧
      (bal + charged - paid) * scale ≤ r + 2 * (n + (buys + sells)) * scale := by
  have hgain : paid ≤ charged := le_of_mul_le_mul_right (hpaid.trans hlow) hs
  have hbuys : (0 : Int) ≤ buys * scale := by positivity
  have hsells : (0 : Int) ≤ sells * scale := by positivity
  refine ⟨by omega, ?_⟩
  have hscaled : (bal + charged - paid) * scale = bal * scale + charged * scale - paid * scale := by
    ring
  linarith

theorem backed_moreBuys (hs : 0 < scale) (hceil : bal * scale ≤ r + 2 * n * scale)
    (hmono : r ≤ r') (hpos : 0 < totalBuy) (hsmall : totalBuy < 2 * scale) (hsome : 1 ≤ buys)
    (hprice : price =
      roundHalfEven (spot * totalSell + max (r' - bal * scale) 0) totalBuy)
    (hlow : price * totalBuy ≤ charged * scale)
    (hhigh : charged * scale ≤ price * totalBuy + buys * scale)
    (hpaid : paid * scale ≤ spot * totalSell)
    (hpaid' : spot * totalSell ≤ paid * scale + sells * scale) :
    r' / scale ≤ bal + charged - paid ∧
      (bal + charged - paid) * scale ≤ r' + 2 * (n + (buys + sells)) * scale := by
  have hround := roundHalfEven_bounds hpos (spot * totalSell + max (r' - bal * scale) 0)
  rw [← hprice] at hround
  have hscaled : (bal + charged - paid) * scale = bal * scale + charged * scale - paid * scale := by
    ring
  have hcount : (0 : Int) ≤ n * scale := by positivity
  have hsells : (0 : Int) ≤ sells * scale := by positivity
  have hbuys : scale ≤ buys * scale := le_mul_of_one_le_left hs.le (by exact_mod_cast hsome)
  have hmax := le_max_left (r' - bal * scale) 0
  have hmax' : max (r' - bal * scale) 0 ≤ r' - bal * scale + 2 * n * scale :=
    max_le (by linarith) (by linarith)
  constructor
  · refine Int.lt_add_one_iff.1 (Int.ediv_lt_of_lt_mul hs ?_)
    linarith [hround.1]
  · linarith [hround.2]

/-- Where there are more sells, they take from the reserve what it has beyond the curve, or nothing
if it has less. -/
theorem backed_moreSells (hs : 0 < scale) (hfloor : r / scale ≤ bal) (hanti : r' ≤ r)
    (hpos : 0 < totalSell) (hsmall : totalSell < 2 * scale) (hsome : 1 ≤ sells)
    (hprice : price =
      roundHalfEven (spot * totalBuy + max (bal * scale - r') 0) totalSell)
    (hlow : spot * totalBuy ≤ charged * scale)
    (hhigh : charged * scale ≤ spot * totalBuy + buys * scale)
    (hpaid : paid * scale ≤ price * totalSell)
    (hpaid' : price * totalSell ≤ paid * scale + sells * scale) :
    r' / scale ≤ bal + charged - paid ∧
      (bal + charged - paid) * scale ≤ r' + 2 * (n + (buys + sells)) * scale := by
  have hround := roundHalfEven_bounds hpos (spot * totalBuy + max (bal * scale - r') 0)
  rw [← hprice] at hround
  have hscaled : (bal + charged - paid) * scale = bal * scale + charged * scale - paid * scale := by
    ring
  have hcount : (0 : Int) ≤ n * scale := by positivity
  have hbuys : (0 : Int) ≤ buys * scale := by positivity
  have hsells : scale ≤ sells * scale := le_mul_of_one_le_left hs.le (by exact_mod_cast hsome)
  have hmax := le_max_left (bal * scale - r') 0
  constructor
  · rcases le_total r' (bal * scale) with hover | hunder
    · have hmax' : max (bal * scale - r') 0 ≤ bal * scale - r' := max_le le_rfl (by linarith)
      refine Int.lt_add_one_iff.1 (Int.ediv_lt_of_lt_mul hs ?_)
      linarith [hround.2]
    · -- Nothing is paid beyond the spot price, so that only rounding could take from the reserve.
      have hmax' : max (bal * scale - r') 0 ≤ 0 := max_le (by linarith) le_rfl
      have hgain : (bal - 1) * scale < (bal + charged - paid) * scale := by linarith [hround.2]
      have hkeep := lt_of_mul_lt_mul_right hgain hs.le
      have hdown := Int.ediv_le_ediv hs hanti
      omega
  · linarith [hround.1]

end Cases

namespace Batch

variable {β : Batch}

theorem charged_bounds (orders : List BuyOrder) (prices : DecCoins) (d : Denom) :
    (prices.amountOf d).raw * buySizes orders ≤ openSum (fun o => o.isOpen)
        (fun o => ((prices.times o.size).amountOf d).ceilInt) orders * Dec.scale ∧
      openSum (fun o => o.isOpen)
          (fun o => ((prices.times o.size).amountOf d).ceilInt) orders * Dec.scale ≤
        (prices.amountOf d).raw * buySizes orders +
          openCount (fun o => o.isOpen) orders * Dec.scale := by
  refine openSum_charges _ orders (fun o => ?_) fun o => ?_
  · have := Dec.raw_le_ceilInt ((prices.times o.size).amountOf d)
    rwa [DecCoins.amountOf_times] at this
  · have := Dec.ceilInt_lt ((prices.times o.size).amountOf d)
    rw [DecCoins.amountOf_times] at this
    exact this.le

theorem paid_bounds (orders : List SellOrder) (prices : DecCoins) (d : Denom) :
    openSum (fun o => o.isOpen)
        (fun o => ((prices.times o.size).amountOf d).floorInt) orders * Dec.scale ≤
        (prices.amountOf d).raw * sellSizes orders ∧
      (prices.amountOf d).raw * sellSizes orders ≤ openSum (fun o => o.isOpen)
        (fun o => ((prices.times o.size).amountOf d).floorInt) orders * Dec.scale +
          openCount (fun o => o.isOpen) orders * Dec.scale := by
  -- Rounding down is rounding up with the signs turned.
  have hminus (orders : List SellOrder) (f : SellOrder → Int) :
      openSum (fun o => o.isOpen) (fun o => -f o) orders =
        -openSum (fun o => o.isOpen) f orders := by
    induction orders with
    | nil => simp
    | cons o orders ih =>
        rw [openSum_cons, openSum_cons, ih]
        split <;> omega
  obtain ⟨hlow, hhigh⟩ := @openSum_charges SellOrder (fun o => o.isOpen) (fun o => o.size)
    (fun o => -((prices.times o.size).amountOf d).floorInt) (-(prices.amountOf d).raw) orders
    (fun o => by
      have := Dec.floorInt_le_raw ((prices.times o.size).amountOf d)
      rw [DecCoins.amountOf_times] at this
      linarith)
    (fun o => by
      have := Dec.lt_floorInt ((prices.times o.size).amountOf d)
      rw [DecCoins.amountOf_times] at this
      linarith)
  rw [hminus] at hlow hhigh
  constructor
  · linarith
  · linarith

end Batch

/-! ### A settlement -/

namespace Market

variable {cfg : Config} {m m' : Market} {token : Denom} {b : Bond} {β : Batch}

/-- A bond is as well backed after its batch has been settled as it was before, where every order
may add its unit above. -/
theorem Backed.settled (hheld : Held cfg m token b β) (hc : m.Current b β) {n : Nat}
    (h : m.Backed b n)
    (hreserve : b.inHatch = false → b.isSwapper = false → ∀ d,
      m'.balance (reserveAccountFor token) d =
        m.balance (reserveAccountFor token) d + β.outlook ⟨β.buyPrices, β.sellPrices⟩ d)
    (r : Coins) :
    m'.Backed (b.marked (b.supply + β.totalBuy - β.totalSell) r)
      (n + (openCount (fun o => o.isOpen) β.buys + openCount (fun o => o.isOpen) β.sells)) := by
  intro htype hmax hphase
  obtain ⟨hswap, hhatch⟩ := Bond.not_swapper_hatch (b := b) htype
  obtain ⟨c, hcurve, hproper⟩ := hheld.formed.curve hswap
  have hintegral := Bond.isIntegral_of_curve (b := b) htype hcurve
  obtain ⟨before, hbefore, hbal⟩ := h htype hmax hphase
  rw [Bond.reserveAt_of_curve hcurve] at hbefore
  obtain ⟨after, hafter⟩ :=
    Curve.exists_reserveAt_of_integral hproper hintegral (b.supply + β.totalBuy - β.totalSell)
  have hafter' : (b.marked (b.supply + β.totalBuy - β.totalSell) r).reserveAt
      (b.supply + β.totalBuy - β.totalSell) = .ok after :=
    (Bond.reserveAt_of_curve (b := b) hcurve _).trans hafter
  refine ⟨after, hafter', fun d hd => ?_⟩
  have hamount := amountOf_reserveOf m b d
  rw [if_pos (show d ∈ b.reserveTokens from hd)] at hamount
  obtain ⟨hfloor, hceil⟩ := hbal d hd
  have hmaxSupply : b.maxSupply < 2 * Dec.scale := hmax
  have hsells := hheld.sells_le
  have hbuys := hheld.buys_le
  have hbuy := hheld.orders.totalBuy_nonneg
  have hsell := hheld.orders.totalSell_nonneg
  have hsupply := hheld.supply_nonneg
  have hscale := Dec.scale_pos
  have hcharged := Batch.charged_bounds β.buys β.buyPrices d
  have hpaid := Batch.paid_bounds β.sells β.sellPrices d
  rw [← hheld.orders.totalBuy] at hcharged
  rw [← hheld.orders.totalSell] at hpaid
  rw [show (b.marked _ r).reserveAddress = b.reserveAddress from rfl, hheld.formed.address] at *
  rw [hreserve hhatch hswap d, Batch.outlook, ← add_sub_assoc]
  -- Where both sides are equal, the curve asks for the same as before.
  have hsame (heq : β.totalBuy = β.totalSell) : after = before := by
    rw [heq, add_sub_cancel_right] at hafter
    exact Except.ok.inj (hafter.symm.trans hbefore)
  rcases (add_nonneg hbuy hsell).eq_or_lt with hnone | hsome
  · obtain ⟨hbuy₀, hsell₀⟩ : β.totalBuy = 0 ∧ β.totalSell = 0 := by omega
    rw [hsame (by omega)]
    rw [hbuy₀, mul_zero, ← zero_mul (0 : Int)] at hcharged
    rw [hsell₀, mul_zero, ← zero_mul (0 : Int)] at hpaid
    exact backed_matched hscale hfloor hceil hcharged.1 hcharged.2 hpaid.1 hpaid.2
  · obtain ⟨_, hspot, -⟩ := Bond.clearingPrices_eq_ok (hc hsome)
    obtain ⟨spot, hspot, -⟩ := Bond.exists_price hswap hhatch hcurve hspot
    have hnonneg := Curve.priceAt_nonneg hproper hsupply hspot
    have hcleared := Bond.cleared_of_curve hswap hhatch hcurve hspot hbuy hsell hsells hafter
      (hc hsome) hd
    rw [hamount] at hcleared
    rcases hcleared with ⟨heq, hpbuy, hpsell⟩ | ⟨hlt, hpsell, hpbuy⟩ | ⟨hlt, hpbuy, hpsell⟩
    · rw [hsame heq]
      rw [hpbuy] at hcharged
      rw [hpsell, ← heq] at hpaid
      exact backed_matched hscale hfloor hceil hcharged.1 hcharged.2 hpaid.1 hpaid.2
    · have hmono := Curve.reserveAt_mono hproper hintegral hsupply (by omega) hbefore hafter
      rw [hpsell] at hpaid
      have hcount := openCount_pos (hheld.orders.totalBuy ▸ (by omega : 0 < β.totalBuy))
      exact backed_moreBuys hscale hceil hmono (by omega) (by omega) hcount hpbuy hcharged.1
        hcharged.2 hpaid.1 hpaid.2
    · have hanti := Curve.reserveAt_mono hproper hintegral (by omega) (by omega) hafter hbefore
      rw [hpbuy] at hcharged
      have hcount := openCount_pos (hheld.orders.totalSell ▸ (by omega : 0 < β.totalSell))
      exact backed_moreSells hscale hfloor hanti (by omega) (by omega) hcount hpsell hcharged.1
        hcharged.2 hpaid.1 hpaid.2

end Market
end BondMarket
