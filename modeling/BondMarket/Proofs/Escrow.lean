import BondMarket.Proofs.Run

/-!
What is in escrow. All bonds share one escrow account, and in every run it holds exactly what the
current batches of all bonds have in escrow: the most that open buys may pay, and the inputs of
open swaps.
-/

namespace BondMarket

namespace Batch

variable {cfg : Config} {token : Denom} {β : Batch}

theorem sumCoins_spec {total : Coins} {cs : List Coins} (ht : total.Proper)
    (hcs : ∀ c ∈ cs, c.Proper) :
    ∃ c, sumCoins total cs = .ok c ∧
      ∀ d, c.amountOf d = total.amountOf d + (cs.map fun c => c.amountOf d).sum := by
  induction cs generalizing total with
  | nil => exact ⟨total, rfl, fun d => by simp⟩
  | cons c cs ih =>
      obtain ⟨next, hnext, hproper, hamount⟩ := Coins.add_spec ht (hcs c List.mem_cons_self)
      obtain ⟨sum, hsum, hall⟩ := ih hproper fun c' hc' => hcs c' (List.mem_cons_of_mem _ hc')
      refine ⟨sum, ?_, fun d => ?_⟩
      · simp only [sumCoins, hnext, Result.ok_bind, hsum]
      · rw [hall, hamount, List.map_cons, List.sum_cons]
        omega

theorem escrow_spec (h : β.Formed cfg token) :
    ∃ c, β.escrow = .ok c ∧ ∀ d, c.amountOf d = β.pledged d := by
  have hproper : ∀ c ∈ β.openBuys.map (·.maxPrices) ++ β.openSwaps.map (·.amount.toCoins),
      c.Proper := by
    intro c hc
    rcases List.mem_append.1 hc with hc | hc
    · obtain ⟨o, ho, rfl⟩ := List.mem_map.1 hc
      exact (h.buys o (List.mem_filter.1 ho).1).maxPrices
    · obtain ⟨o, -, rfl⟩ := List.mem_map.1 hc
      exact Coin.proper_toCoins o.amount
  obtain ⟨c, hc, hamount⟩ := sumCoins_spec Coins.proper_nil hproper
  refine ⟨c, hc, fun d => ?_⟩
  rw [hamount, Coins.amountOf_nil, zero_add, List.map_append, List.sum_append, List.map_map,
    List.map_map]
  rfl

end Batch

namespace Market

def escrows (m : Market) : Result (Table Denom Coins) :=
  Table.traverse (fun token _ => do (← m.store.batch token).escrow) m.store.bonds

/-- Coins that are found for every bond come together to the sum over all bonds. -/
theorem exists_traverse_sum {f : Denom → Bond → Result Coins} {g : Denom → Denom → Int}
    {bonds : Table Denom Bond}
    (h : ∀ p ∈ bonds, ∃ c, f p.1 p.2 = .ok c ∧ ∀ d, c.amountOf d = g p.1 d) :
    ∃ found, Table.traverse f bonds = .ok found ∧
      ∀ d, (found.map fun p => p.2.amountOf d).sum =
        ((Table.keys bonds).map fun t => g t d).sum := by
  induction bonds with
  | nil => exact ⟨[], rfl, fun _ => rfl⟩
  | cons p bonds ih =>
      obtain ⟨c, hc, hamount⟩ := h p List.mem_cons_self
      obtain ⟨found, hfound, hsum⟩ := ih fun q hq => h q (List.mem_cons_of_mem _ hq)
      refine ⟨(p.1, c) :: found, ?_, fun d => ?_⟩
      · simp only [Table.traverse, hc, hfound, Result.ok_bind, Result.pure_eq_ok]
      · simp only [List.map_cons, List.sum_cons, hamount, hsum, Table.keys_cons]

end Market

/-- In every run the escrow account holds exactly what the current batches of all bonds have in
escrow. -/
theorem CleanRun.escrow_covered {cfg : Config} {bonded : Denom → Prop} {log : List Response}
    {m : Market} (h : CleanRun cfg bonded log m) :
    ∃ held, m.escrows = .ok held ∧
      ∀ d, m.ledger.balanceOf cfg.escrowAccount d = (held.map fun p => p.2.amountOf d).sum := by
  have hkept := h.sound.2.kept
  have hbatch : ∀ p ∈ m.store.bonds, ∃ c, (do (← m.store.batch p.1).escrow) = .ok c ∧
      ∀ d, c.amountOf d = m.pledgedBy p.1 d := by
    intro p hp
    obtain ⟨-, β, hβ, hheld⟩ := hkept.held p.1 p.2 (Table.get?_of_mem hkept.distinct hp)
    obtain ⟨c, hc, hamount⟩ := Batch.escrow_spec hheld.orders
    refine ⟨c, ?_, fun d => ?_⟩
    · simp only [Market.batch_eq_ok hβ, Result.ok_bind, hc]
    · rw [hamount, Market.pledgedBy_of_get? hβ]
  obtain ⟨held, hheld, hsum⟩ := Market.exists_traverse_sum
    (f := fun t _ => do (← m.store.batch t).escrow) (g := m.pledgedBy) hbatch
  exact ⟨held, hheld, fun d => (hkept.escrow d).trans (hsum d).symm⟩

theorem escrow_covered_two_buys :
    ∃ log m, CleanRun {} (· ∈ ["abc"]) log m ∧
      m.ledger.balanceOf "batches_intermediary_account" "res" = 2 ∧
      ∃ held, m.escrows = .ok held ∧ (held.map fun p => p.2.amountOf "res").sum = 2 := by
  obtain ⟨log, m, hrun, hcheck⟩ := exists_flatPriceRun
    (fun m => m.ledger.balanceOf "batches_intermediary_account" "res" = 2)
    (by decide +kernel)
  have hbalance := of_decide_eq_true hcheck
  obtain ⟨held, hheld, hsum⟩ := hrun.escrow_covered
  exact ⟨log, m, hrun, hbalance, held, hheld, (hsum "res").symm.trans hbalance⟩

end BondMarket
