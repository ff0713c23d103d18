import BondMarket.Proofs.Run

/-!
The books of a market. The store records the supply and the reserve of every bond, and the ledger
has the total of its token and the balances of its reserve account; in every run the two agree.
Sold tokens are burned when their sell is admitted and leave the supply when it is settled, so that
between the two the ledger is behind by what the batch is to sell.

The reserve account of a power or a sigmoid bond also backs the supply: it holds what the curve
asks for, up to the rounding of the orders that were filled.
-/

namespace BondMarket

namespace Market

theorem get?_reserveOf (m : Market) (b : Bond) (d : Denom) :
    Table.get? (m.reserveOf b) d =
      if d ∈ b.reserveTokens then some (m.balance b.reserveAddress d) else none := by
  rw [reserveOf, Table.get?_ofKeys]
  simp only [mem_sortedTexts]

theorem get?_dropZeros_reserveOf (m : Market) (b : Bond) (d : Denom) (n : Int) :
    Table.get? (m.reserveOf b).dropZeros d = some n ↔
      d ∈ b.reserveTokens ∧ m.balance b.reserveAddress d = n ∧ n ≠ 0 := by
  rw [Coins.dropZeros, Table.get?_filter (nodup_keys_reserveOf m b), get?_reserveOf]
  by_cases hd : d ∈ b.reserveTokens
  · simp only [hd, if_true, Option.filter_eq_some_iff, Option.some.injEq, decide_eq_true_eq,
      true_and]
  · simp [hd]

end Market

variable {cfg : Config} {bonded : Denom → Prop} {log : List Response} {m : Market}

/-- Store and ledger agree on every bond: the total of its token is the supply less what is about
to be sold, and its reserve is what the reserve account has. No request, whether it is accepted or
turned down, changes the total of a denomination that is no bond token. -/
theorem CleanRun.books_agree (h : CleanRun cfg bonded log m) :
    (∀ t b, m.store.bond? t = some b → ∃ β, m.store.batch t = .ok β ∧
      m.ledger.totalSupply t = b.supply - β.totalSell ∧
      ∀ d n, Table.get? b.reserve d = some n ↔
        d ∈ b.reserveTokens ∧ m.ledger.balanceOf b.reserveAddress d = n ∧ n ≠ 0) ∧
    ∀ r : Request, r.Clean cfg → ∀ d, m.store.bond? d = none →
      (Market.handle cfg r).Sat m
        (fun _ m' => m'.ledger.totalSupply d = m.ledger.totalSupply d)
        (fun _ m' => m'.ledger.totalSupply d = m.ledger.totalSupply d) := by
  obtain ⟨hsep, hsound⟩ := h.sound
  refine ⟨fun t b hb => ?_, fun r hr d hd => ?_⟩
  · obtain ⟨-, β, hβ, hheld⟩ := hsound.kept.held t b hb
    refine ⟨β, Market.batch_eq_ok hβ, hheld.minted, fun d n => ?_⟩
    rw [hheld.synced]
    exact Market.get?_dropZeros_reserveOf m b d n
  · exact (Market.handle_sat hsep hsound hr).mono (fun _ _ hm => hm.2.1 d hd)
      fun _ _ hm => hm.2 d hd

/-- All tokens of a bond are about to be sold and no longer in the ledger, whose reserve account has
six units. -/
theorem books_agree_pending_sell :
    ∃ log m b β, CleanRun {} (· ∈ ["abc"]) log m ∧ m.store.bond? "abc" = some b ∧
      m.store.batch "abc" = .ok β ∧ b.supply - β.totalSell = 0 ∧
      Table.get? b.reserve "res" = some 6 ∧
      (Market.handle {} (.cycle "abc")).Sat m (fun _ m' => m'.ledger.totalSupply "res" = 8)
        (fun _ m' => m'.ledger.totalSupply "res" = 8) := by
  obtain ⟨log, m, hrun, hcheck⟩ := exists_flatPriceRun
    (fun m => m.store.bond? "res" = none ∧ m.ledger.totalSupply "res" = 8 ∧
      m.ledger.totalSupply "abc" = 0 ∧ (m.store.bond? "abc").any fun b =>
        "res" ∈ b.reserveTokens ∧ m.ledger.balanceOf b.reserveAddress "res" = 6)
    (by decide +kernel)
  obtain ⟨hnone, hres, habc, hbond⟩ := of_decide_eq_true hcheck
  obtain ⟨b, hb, hbalance⟩ := (Option.any_eq_true _ _).1 hbond
  obtain ⟨htoken, hbalance⟩ := of_decide_eq_true hbalance
  obtain ⟨hbooks, hspared⟩ := hrun.books_agree
  obtain ⟨β, hβ, htotal, hreserve⟩ := hbooks "abc" b hb
  have hspared := hspared (.cycle "abc") trivial "res" hnone
  rw [hres] at hspared
  exact ⟨log, m, b, β, hrun, hb, hβ, htotal.symm.trans habc,
    (hreserve "res" 6).2 ⟨htoken, hbalance, by decide⟩, hspared⟩

/-- The reserve of an open power or sigmoid bond is that of its curve at the supply, up to less than
one unit below, and two units for every order that was filled above. -/
theorem CleanRun.reserve_backed (h : CleanRun cfg bonded log m) {t : Denom} {b : Bond}
    (hb : m.store.bond? t = some b) (htype : b.functionType = .power ∨ b.functionType = .sigmoid)
    (hmax : b.maxSupply < 2 * 10 ^ 18) (hphase : b.phase = .opened) :
    ∃ d r, b.reserveTokens = [d] ∧ b.reserveAt b.supply = .ok r ∧
      r.floorInt ≤ m.ledger.balanceOf b.reserveAddress d ∧
      Dec.ofInt (m.ledger.balanceOf b.reserveAddress d) ≤ r + Dec.ofInt (2 * fillsSoFar log t) := by
  obtain ⟨-, hsound⟩ := h.sound
  obtain ⟨-, β, -, hheld⟩ := hsound.kept.held t b hb
  obtain ⟨r, hr, hbal⟩ := hsound.backed t b hb htype hmax hphase
  have hcount : b.reserveTokens.length = 1 := by
    rw [hheld.formed.count]
    rcases htype with htype | htype <;> rw [htype] <;> rfl
  obtain ⟨d, hd⟩ := List.length_eq_one_iff.1 hcount
  obtain ⟨hlow, hhigh⟩ := hbal d (hd ▸ List.mem_singleton_self d)
  exact ⟨d, r, hd, hr, hlow, hhigh⟩

theorem reserve_backed_flatPrice :
    ∃ log m b d r, CleanRun {} (· ∈ ["abc"]) log m ∧ m.store.bond? "abc" = some b ∧
      b.supply = 19 ∧ b.reserveTokens = [d] ∧ b.reserveAt b.supply = .ok r ∧
      r.floorInt ≤ m.ledger.balanceOf b.reserveAddress d ∧
      Dec.ofInt (m.ledger.balanceOf b.reserveAddress d) ≤
        r + Dec.ofInt (2 * fillsSoFar log "abc") := by
  obtain ⟨log, m, hrun, hcheck⟩ := exists_flatPriceRun
    (fun m => (m.store.bond? "abc").any fun b => b.supply = 19 ∧ b.functionType = .power ∧
      b.maxSupply < 2 * 10 ^ 18 ∧ b.phase = .opened)
    (by decide +kernel)
  obtain ⟨b, hb, hcheck⟩ := (Option.any_eq_true _ _).1 hcheck
  obtain ⟨hsupply, htype, hmax, hphase⟩ := of_decide_eq_true hcheck
  obtain ⟨d, r, hbacked⟩ := hrun.reserve_backed hb (.inl htype) hmax hphase
  exact ⟨log, m, b, d, r, hrun, hb, hsupply, hbacked⟩

end BondMarket
