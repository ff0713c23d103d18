import BondMarket.Proofs.Run

/-!
A settlement is a full account of the batch that was closed. Its outcomes are put together from the
buys that were cancelled, some of them long before, and from the orders that were executed, while
the coins are moved by transfers of their own. In every run the two agree: each order is reported
once, the reserve has changed by what is reported, and the escrow account has given up exactly what
the orders that were still open had put there. A buy that was refunded before is reported again, but
not refunded again.
-/

namespace BondMarket

/-- In every run, where a cycle of a bond gives a settlement, the settlement reports each order of
the batch once, and what each buy had in escrow as charged or returned. The reserve account has
gained what the buys paid without the funding and what was swapped in, and lost what the sells and
the swaps took out; the escrow account has lost what the open orders had there. -/
theorem CleanRun.cycle_reconciles {cfg : Config} {bonded : Denom → Prop} {log : List Response}
    {m m' : Market} (h : CleanRun cfg bonded log m) {t : Denom} {s : Settlement}
    (hs : Market.elapseCycle cfg t m = .ok (some s) m') :
    ∃ b β, m.store.bond? t = some b ∧ m.store.batch t = .ok β ∧ β.Reported s.outcomes ∧
      (∀ d, m'.balance b.reserveAddress d =
        m.balance b.reserveAddress d + (s.outcomes.map fun out => out.reserveGain d).sum) ∧
      ∀ d, m'.balance cfg.escrowAccount d = m.balance cfg.escrowAccount d - β.pledged d := by
  obtain ⟨hsep, hsound⟩ := h.sound
  obtain ⟨b, hb⟩ := Market.exists_bond_of_elapseCycle hs
  obtain ⟨-, β, hβ, hheld⟩ := hsound.kept.held t b hb
  obtain ⟨-, -, hreconciled⟩ := (Market.elapseCycle_sat_of_bond hsep hsound hb hβ).of_ok hs
  obtain ⟨⟨hreported, hgained, hescrow⟩, -⟩ := hreconciled s rfl
  refine ⟨b, β, hb, Market.batch_eq_ok hβ, hreported, ?_, hescrow⟩
  rw [hheld.formed.address]
  exact hgained

/-- The settlement of a buy in a hatch, of whose five units two are funding: the reserve gains
three, and the sixth goes back from escrow. -/
theorem cycle_reconciles_hatch :
    ∃ log m s m' b, CleanRun {} (· ∈ ["abc"]) log m ∧
      Market.elapseCycle {} "abc" m = .ok (some s) m' ∧ m.store.bond? "abc" = some b ∧
      m'.balance b.reserveAddress "res" = m.balance b.reserveAddress "res" + 3 ∧
      m'.balance "batches_intermediary_account" "res" =
        m.balance "batches_intermediary_account" "res" - 6 := by
  obtain ⟨log, m, hrun, hcheck⟩ := CleanRun.exists_of_playClean ["abc"] hatchEvents
    (fun m => (Table.get? m.store.batches "abc").any (fun β => β.pledged "res" = 6) ∧
      (Market.elapseCycle {} "abc").Sat m (fun s _ => s.any (fun s =>
        (s.outcomes.map fun out => out.reserveGain "res").sum = 3) = true) fun _ _ => False)
    (by decide +kernel)
  obtain ⟨hpledged, hcycle⟩ := of_decide_eq_true hcheck
  obtain ⟨β₀, hβ₀, hpledged⟩ := (Option.any_eq_true _ _).1 hpledged
  obtain ⟨_, m', hs, hgain⟩ := hcycle.exists_ok
  obtain ⟨s, rfl, hgain⟩ := (Option.any_eq_true _ _).1 hgain
  obtain ⟨b, β, hb, hβ, -, hreserve, hescrow⟩ := hrun.cycle_reconciles hs
  obtain rfl : β₀ = β := Except.ok.inj ((Market.batch_eq_ok hβ₀).symm.trans hβ)
  refine ⟨log, m, s, m', b, hrun, hs, hb, ?_, ?_⟩
  · rw [hreserve, of_decide_eq_true hgain]
  · rw [← of_decide_eq_true hpledged]
    exact hescrow "res"

end BondMarket
