import BondMarket.Proofs.Run

/-!
The prices that a batch carries. They are computed when an order is admitted, before it is taken in,
and a batch is closed at them without another look unless a buy had to be cancelled. In every run
they are what the bond, its reserve and the totals of the batch imply as they stand, so that the
prices at which orders are filled are those of the orders that are filled.
-/

namespace BondMarket
namespace Market

variable {cfg : Config} {bonded : Denom → Prop} {m m' : Market} {token : Denom} {b : Bond}
  {β : Batch}

theorem Current.of_open (h : m.Current b β) (hβ : β.Formed cfg token)
    (hopen : β.openBuys ≠ [] ∨ β.openSells ≠ []) :
    b.clearingPrices (m.reserveOf b) β.totalBuy β.totalSell =
      .ok ⟨β.buyPrices, β.sellPrices⟩ := by
  rcases hopen with hopen | hopen
  · obtain ⟨o, ho⟩ := List.exists_mem_of_ne_nil _ hopen
    exact h (hβ.total_pos_of_buy ho)
  · obtain ⟨o, ho⟩ := List.exists_mem_of_ne_nil _ hopen
    exact h (hβ.total_pos_of_sell ho)

theorem Swept.priced {β' : Batch} (h : Swept cfg bonded token b β β' m m')
    (hopen : β'.openBuys ≠ [] ∨ β'.openSells ≠ []) :
    b.clearingPrices (m.reserveOf b) β'.totalBuy β'.totalSell =
      .ok ⟨β'.buyPrices, β'.sellPrices⟩ := by
  have hheld := h.kept.held_of_get? h.bond h.batch
  have hreserve : m'.reserveOf b = m.reserveOf b :=
    reserveOf_congr (hheld.formed.address ▸ h.reserve)
  rw [← hreserve]
  exact h.current.of_open hheld.orders hopen

end Market

/-- In every run the prices of a batch with an open buy or sell are the clearing prices of its
totals against the reserve as it is. Where a cycle closes the batch, the pass over its buys comes
first: if it cancels none, the batch is closed as it is. Either way the prices of the settlement, at
which every buy is charged and every sell is paid, are the clearing prices of the orders that are
filled. -/
theorem CleanRun.prices_current {cfg : Config} {bonded : Denom → Prop} {log : List Response}
    {m : Market} (h : CleanRun cfg bonded log m) {t : Denom} {b : Bond} {β : Batch}
    (hb : m.store.bond? t = some b) (hβ : m.store.batch t = .ok β) :
    (β.openBuys ≠ [] ∨ β.openSells ≠ [] →
      b.clearingPrices (m.reserveOf b) β.totalBuy β.totalSell =
        .ok ⟨β.buyPrices, β.sellPrices⟩) ∧
    ∀ s m', Market.elapseCycle cfg t m = .ok (some s) m' →
      ∃ os m₁ β₁ outs,
        Market.cancelUnfulfillable cfg t
          (m.withBatch t { β with blocksRemaining := β.blocksRemaining - 1 }) = .ok os m₁ ∧
        m₁.store.batch t = .ok β₁ ∧
        (os = [] → β₁ = { β with blocksRemaining := β.blocksRemaining - 1 }) ∧
        s = { β₁.settlement t outs with newPhase := s.newPhase } ∧ β₁.Performed outs ∧
        (β₁.openBuys ≠ [] ∨ β₁.openSells ≠ [] →
          b.clearingPrices (m.reserveOf b) β₁.totalBuy β₁.totalSell =
            .ok ⟨s.buyPrices, s.sellPrices⟩) := by
  obtain ⟨hsep, hsound⟩ := h.sound
  obtain ⟨-, β₀, hβ₀, hheld⟩ := hsound.kept.held t b hb
  obtain rfl : β₀ = β := Except.ok.inj ((Market.batch_eq_ok hβ₀).symm.trans hβ)
  refine ⟨(hsound.current t b β₀ hb hβ₀).of_open hheld.orders, fun s m' hs => ?_⟩
  obtain ⟨-, hclosed⟩ := Market.elapseCycle_closed hsep hsound hb hβ₀ hs
  obtain ⟨s₀, _, -, hsame, hdrained, -⟩ := hclosed.settled
  obtain ⟨os, m₁, β₁, outs, hpass, hswept, hperformed, rfl⟩ := hdrained.executed
  refine ⟨os, m₁, β₁, outs, hpass, Market.batch_eq_ok hswept.batch, fun hos => ?_, hsame,
    hperformed, fun hopen => ?_⟩
  · -- Without a cancellation the market that the pass leaves is the one it began with.
    subst hos
    rw [Market.cancelUnfulfillable_eq_self hpass] at hswept
    exact Option.some.inj (hswept.batch.symm.trans (Market.get?_withBatch ..))
  · rw [hsame]
    exact hswept.priced hopen

/-- At a flat price: the buy that is priced out by a sell is cancelled by the pass, and the sell
gets the price that follows without it. -/
theorem prices_current_flatPrice :
    ∃ log m b β s m', CleanRun {} (· ∈ ["abc"]) log m ∧ m.store.bond? "abc" = some b ∧
      m.store.batch "abc" = .ok β ∧ β.openBuys ≠ [] ∧
      b.clearingPrices (m.reserveOf b) β.totalBuy β.totalSell =
        .ok ⟨β.buyPrices, β.sellPrices⟩ ∧
      Market.elapseCycle {} "abc" m = .ok (some s) m' ∧ s.sellPrices ≠ β.sellPrices ∧
      ∃ os m₁ β₁, os ≠ [] ∧ Market.cancelUnfulfillable {} "abc"
        (m.withBatch "abc" { β with blocksRemaining := β.blocksRemaining - 1 }) = .ok os m₁ ∧
        m₁.store.batch "abc" = .ok β₁ ∧
        b.clearingPrices (m.reserveOf b) β₁.totalBuy β₁.totalSell =
          .ok ⟨s.buyPrices, s.sellPrices⟩ := by
  obtain ⟨log, m, hrun, hcheck⟩ := CleanRun.exists_of_playClean ["abc"]
    (flatPriceEvents.eraseIdx 12)
    (fun m => (Table.get? m.store.bonds "abc").isSome ∧
      (Table.get? m.store.batches "abc").any fun β => β.openBuys ≠ [] ∧
        (Market.cancelUnfulfillable {} "abc").Sat
          (m.withBatch "abc" { β with blocksRemaining := β.blocksRemaining - 1 })
          (fun os m₁ => os ≠ [] ∧
            (Table.get? m₁.store.batches "abc").any (fun β₁ => β₁.openSells ≠ []) = true)
          (fun _ _ => False) ∧
        (Market.elapseCycle {} "abc").Sat m
          (fun s _ => s.any (fun s => s.sellPrices ≠ β.sellPrices) = true) (fun _ _ => False))
    (by decide +kernel)
  obtain ⟨hbond, hcheck⟩ := of_decide_eq_true hcheck
  obtain ⟨b, hb⟩ := Option.isSome_iff_exists.1 hbond
  obtain ⟨β, hβ, hcheck⟩ := (Option.any_eq_true _ _).1 hcheck
  obtain ⟨hopen, hpass, hcycle⟩ := of_decide_eq_true hcheck
  obtain ⟨_, m', hs, hprices⟩ := hcycle.exists_ok
  obtain ⟨s, rfl, hprices⟩ := (Option.any_eq_true _ _).1 hprices
  have hbatch := Market.batch_eq_ok hβ
  obtain ⟨hcurrent, hclosing⟩ := hrun.prices_current hb hbatch
  obtain ⟨os, m₁, β₁, _, hpassed, hβ₁, -, -, -, hpriced⟩ := hclosing s m' hs
  obtain ⟨hcancelled, hleft⟩ := hpass.of_ok hpassed
  obtain ⟨β₂, hβ₂, hsells⟩ := (Option.any_eq_true _ _).1 hleft
  obtain rfl : β₂ = β₁ := Except.ok.inj ((Market.batch_eq_ok hβ₂).symm.trans hβ₁)
  exact ⟨log, m, b, β, s, m', hrun, hb, hbatch, hopen, hcurrent (.inl hopen), hs,
    of_decide_eq_true hprices, os, m₁, β₂, hcancelled, hpassed, hβ₁,
    hpriced (.inr (of_decide_eq_true hsells))⟩

end BondMarket
