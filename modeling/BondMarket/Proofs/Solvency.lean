import BondMarket.Proofs.Payout
import BondMarket.Proofs.Run

/-!
Whether the reserve can pay the sells of a batch. No bond promises more than its reserve has: what
is burned returns at most all of it, and what is matched is paid for by the buys, whose charges are
rounded up while the proceeds of the sells are rounded down. What may be missing comes of the price
of one token, which is rounded to the last place. Taken over all tokens of a batch that is less
than a unit as long as the totals are below `2 * 10 ^ 18`. From there on it may be a unit: the sells
then come to more than there is, and the cycle is stopped.
-/

namespace BondMarket

theorem Bond.buySizes_le_of_passed {b : Bond} {prices : DecCoins} {orders orders' : List BuyOrder}
    (h : List.Forall₂ (b.Passed prices) orders orders') (hsize : ∀ o ∈ orders, 0 ≤ o.size) :
    Batch.buySizes orders' ≤ Batch.buySizes orders := by
  induction h with
  | nil => exact le_rfl
  | @cons o o' orders orders' ho _ ih =>
      have hrest := ih fun o ho => hsize o (List.mem_cons_of_mem _ ho)
      have hhead := hsize o List.mem_cons_self
      unfold Batch.buySizes at hrest ⊢
      rw [openSum_cons, openSum_cons]
      cases ho with
      | kept => omega
      | cancelled hopen =>
          rw [if_pos hopen, BuyOrder.isOpen_closed, if_neg Bool.false_ne_true]
          omega

namespace Market

variable {cfg : Config} {bonded : Denom → Prop} {m m' : Market} {token : Denom} {b : Bond}
  {β β' : Batch}

theorem Held.afterOrders_nonneg (h : Held cfg m token b β) (hs : m.ledger.Solvent)
    (hc : m.Current b β) (hbuy : β.totalBuy < 2 * Dec.scale) (hsell : β.totalSell < 2 * Dec.scale)
    (d : Denom) : 0 ≤ m.afterOrders token β d := by
  have hbal : 0 ≤ m.balance (reserveAccountFor token) d := hs _ d
  have hscale := Dec.scale_pos
  have hbuys := h.orders.totalBuy_nonneg
  have hsells := h.orders.totalSell_nonneg
  obtain ⟨hcharged, -⟩ := Batch.charged_bounds β.buys β.buyPrices d
  obtain ⟨hpaid, -⟩ := Batch.paid_bounds β.sells β.sellPrices d
  rw [← h.orders.totalBuy] at hcharged
  rw [← h.orders.totalSell] at hpaid
  have hreserve : (m.reserveOf b).amountOf d ≤ m.balance (reserveAccountFor token) d :=
    h.formed.address ▸ amountOf_reserveOf_le hs b d
  rcases hsells.eq_or_lt with hnone | hsome
  · -- There may be no prices where nothing is ordered.
    exact add_nonneg hbal (h.outlook_nonneg hs hc hnone.symm d)
  · obtain ⟨spot, minted, burned, hminted, hburned, hcleared⟩ :=
      Bond.clearingPrices_bounds h.formed.priceable (proper_reserveOf hs b).amountOf_nonneg
        hbuys hsells h.sells_le (hc (by omega)) d
    have hexcess := hburned.trans (mul_le_mul_of_nonneg_right hreserve hscale.le)
    have hshort := hcleared.payout_le hbuys hsells hscale hbal hminted hexcess hcharged hpaid
    have hunit := lt_of_mul_lt_mul_left
      ((hshort.trans_lt (max_lt hbuy hsell)).trans_eq (mul_one _).symm) (by omega)
    simp only [afterOrders, Batch.outlook]
    omega

theorem Swept.totals_le (h : Swept cfg bonded token b β β' m m') (hβ : β.Formed cfg token) :
    β'.totalBuy ≤ β.totalBuy ∧ β'.totalSell = β.totalSell := by
  have hsell : β'.totalSell = β.totalSell := by
    rw [h.same]
    rfl
  refine ⟨?_, hsell⟩
  rw [(h.kept.held_of_get? h.bond h.batch).orders.totalBuy, hβ.totalBuy]
  exact Bond.buySizes_le_of_passed h.passed fun o ho => (hβ.buys o ho).size_pos.le

end Market

/-- A bond whose price is the least there is. Three buys of one token, each rounded up to a unit,
have been settled, and so has a buy of a given amount, which cost nothing; all tokens are then put
up for sale. -/
def leastPriceEvents (amount : Nat) : List Event :=
  let buy (amount : Nat) : Event := .request (.buy {
    buyer := "alice", amount := ⟨"abc", amount⟩, maxPrices := [("res", some 1)] })
  [.post (.mint "alice" [("res", some 4)]),
    .request (.create {
      token := "abc"
      name := "n"
      description := "d"
      creator := "z"
      functionType := "power_function"
      parameters := [("m", Dec.zero), ("n", Dec.zero), ("c", ⟨1⟩)]
      reserveTokens := ["res"]
      txFee := Dec.zero
      exitFee := Dec.zero
      feeAddress := "fees"
      maxSupply := ⟨"abc", 10 ^ 19⟩
      signers := ["z"] }),
    buy 1, buy 1, buy 1, .request (.cycle "abc"),
    buy amount, .request (.cycle "abc"),
    .request (.sell { seller := "alice", amount := ⟨"abc", amount + 3⟩ })]

/-- The last cycle of a batch begins with the pass over its buys. If then the reserve, with what
the prices of the batch add to it, is short of nothing, the cycle is not stopped by a withdrawal
from the reserve; if it is short of something, the cycle ends in a fatal error. It is short of
nothing where the totals of the batch are below `2 * 10 ^ 18`. -/
theorem CleanRun.sells_covered {cfg : Config} {bonded : Denom → Prop} {log : List Response}
    {m : Market} (h : CleanRun cfg bonded log m) {t : Denom} {b : Bond} {β : Batch}
    (hb : m.store.bond? t = some b) (hβ : m.store.batch t = .ok β)
    (hlast : β.blocksRemaining ≤ 1) :
    ∃ os m' β',
      Market.cancelUnfulfillable cfg t
        (m.withBatch t { β with blocksRemaining := β.blocksRemaining - 1 }) = .ok os m' ∧
      m'.store.batch t = .ok β' ∧
      (β.totalBuy < 2 * 10 ^ 18 → β.totalSell < 2 * 10 ^ 18 → ∀ d, 0 ≤ m'.afterOrders t β' d) ∧
      ((∀ d, 0 ≤ m'.afterOrders t β' d) → ∀ e m'',
        Market.elapseCycle cfg t m = .error e m'' → ¬ Purpose.withdrawReserve.Failed e) ∧
      ((∃ d, m'.afterOrders t β' d < 0) →
        ∃ e m'', Market.elapseCycle cfg t m = .error e m'' ∧ e.isFatal = true) := by
  obtain ⟨hsep, hsound⟩ := h.sound
  obtain ⟨hβ₀, hcounted, os, m', β', hrun, hswept⟩ := h.exists_swept hb hβ
  have hbatch := Market.get?_withBatch m t { β with blocksRemaining := β.blocksRemaining - 1 }
  have hoverdrawn := Market.overdrawn_iff hrun hswept.batch
  refine ⟨os, m', β', hrun, Market.batch_eq_ok hswept.batch, fun hbuy hsell d => ?_,
    fun hcovered e m'' he => ?_, fun hshort => ?_⟩
  · obtain ⟨hless, hsame⟩ := hswept.totals_le (hcounted.kept.held_of_get? hb hbatch).orders
    have hheld' := hswept.kept.held_of_get? hswept.bond hswept.batch
    exact hheld'.afterOrders_nonneg hswept.kept.solvent hswept.current
      (hless.trans_lt hbuy) (hsame.trans_lt hsell) d
  · obtain ⟨hstops, -⟩ := (Market.elapseCycle_sat_of_bond hsep hsound hb hβ₀).of_error he
    refine hstops.not_withdraw fun hover => ?_
    obtain ⟨d, hshort⟩ := hoverdrawn.1 hover
    exact absurd (hcovered d) (not_le.2 hshort)
  · have hclosing := Market.closeBatch_sat hsep hcounted hb hbatch
    exact (Market.elapseCycle_stopped hb hβ₀ hlast (hclosing.mono
      (fun _ _ hclosed => hclosed.2.2.2 (hoverdrawn.2 hshort))
      fun _ _ he => he.1.isFatal)).exists_error

theorem sells_covered_leastPrice :
    ∃ log m b β os m' β', CleanRun {} (· ∈ ["abc"]) log m ∧ m.store.bond? "abc" = some b ∧
      m.store.batch "abc" = .ok β ∧ β.blocksRemaining ≤ 1 ∧ β.totalBuy = 0 ∧ β.totalSell = 8 ∧
      Market.cancelUnfulfillable {} "abc"
        (m.withBatch "abc" { β with blocksRemaining := β.blocksRemaining - 1 }) = .ok os m' ∧
      m'.store.batch "abc" = .ok β' ∧ 0 ≤ m'.afterOrders "abc" β' "res" ∧
      ∀ e m'', Market.elapseCycle {} "abc" m = .error e m'' →
        ¬ Purpose.withdrawReserve.Failed e := by
  obtain ⟨log, m, hrun, hcheck⟩ := CleanRun.exists_of_playClean ["abc"]
    (leastPriceEvents 5)
    (fun m => (Table.get? m.store.bonds "abc").isSome ∧
      (Table.get? m.store.batches "abc").any fun β =>
        β.blocksRemaining ≤ 1 ∧ β.totalBuy = 0 ∧ β.totalSell = 8)
    (by decide +kernel)
  obtain ⟨hbond, hcheck⟩ := of_decide_eq_true hcheck
  obtain ⟨b, hb⟩ := Option.isSome_iff_exists.1 hbond
  obtain ⟨β, hβ, hcheck⟩ := (Option.any_eq_true _ _).1 hcheck
  obtain ⟨hlast, hbuy, hsell⟩ := of_decide_eq_true hcheck
  have hbatch := Market.batch_eq_ok hβ
  obtain ⟨os, m', β', hpass, hβ', hsmall, hpaid, -⟩ := hrun.sells_covered hb hbatch hlast
  have hcovered := hsmall (by rw [hbuy]; decide) (by rw [hsell]; decide)
  exact ⟨log, m, b, β, os, m', β', hrun, hb, hbatch, hlast, hbuy, hsell, hpass, hβ',
    hcovered "res", hpaid hcovered⟩

/-- With `2 * 10 ^ 18` tokens for sale the bound is reached. The three units of the reserve come to
one and a half at the last place for each token, and the price is rounded up to two, so that the
sell takes four. -/
theorem leastPriceEvents_stopped :
    ∃ log m b β m', playClean {} ["abc"] [] {} (leastPriceEvents (2 * 10 ^ 18 - 3)) =
        some (log, m) ∧
      CleanRun {} (· ∈ ["abc"]) log m ∧ m.store.bond? "abc" = some b ∧
      m.store.batch "abc" = .ok β ∧ β.totalBuy = 0 ∧ β.totalSell = 2 * 10 ^ 18 ∧
      m.balance b.reserveAddress "res" = 3 ∧
      Market.elapseCycle {} "abc" m = .error (.violated ["withdraw from reserve failed: " ++
        "InsufficientFunds: bonds/abc/reserveAddress has 3res, needs 4res"]) m' := by
  have hplay : (playClean {} ["abc"] [] {} (leastPriceEvents (2 * 10 ^ 18 - 3))).any (fun s =>
      (Table.get? s.2.store.bonds "abc").any fun b =>
        (Table.get? s.2.store.batches "abc").any fun β =>
          β.totalBuy = 0 ∧ β.totalSell = 2 * 10 ^ 18 ∧ s.2.balance b.reserveAddress "res" = 3 ∧
          (Market.elapseCycle {} "abc").Sat s.2 (fun _ _ => False) fun e _ =>
            e = .violated ["withdraw from reserve failed: " ++
              "InsufficientFunds: bonds/abc/reserveAddress has 3res, needs 4res"]) = true := by
    decide +kernel
  obtain ⟨⟨log, m⟩, hplay, hcheck⟩ := (Option.any_eq_true _ _).1 hplay
  have hrun := (CleanRun.start Config.separate_default).of_playClean hplay
  obtain ⟨b, hb, hcheck⟩ := (Option.any_eq_true _ _).1 hcheck
  obtain ⟨β, hβ, hcheck⟩ := (Option.any_eq_true _ _).1 hcheck
  obtain ⟨hbuy, hsell, hreserve, hcycle⟩ := of_decide_eq_true hcheck
  obtain ⟨e, m', hcycle, rfl⟩ := hcycle.exists_error
  exact ⟨log, m, b, β, m', hplay, hrun, hb, Market.batch_eq_ok hβ, hbuy, hsell, hreserve, hcycle⟩

end BondMarket
