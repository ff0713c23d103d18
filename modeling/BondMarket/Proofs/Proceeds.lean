import BondMarket.Proofs.Plans
import BondMarket.Proofs.Rational

/-!
What a sell is worth, divided. The exact value of the tokens in a denomination is the price times
the amount, which is not rounded. It is rounded down once, and the two fees are each rounded up
once, from the same exact value; what they come to is cut at the rounded value. So the seller and
the fees get the rounded value between them, the seller never less than nothing, and a rate that
is not zero always takes something where there is something to take.
-/

namespace BondMarket

theorem DecCoins.toRat_amountOf_times (c : DecCoins) (n : Int) (d : Denom) :
    ((c.times n).amountOf d).toRat = (c.amountOf d).toRat * n := by
  rw [Dec.toRat, amountOf_times, Dec.toRat]
  push_cast
  ring

namespace Bond

variable {b : Bond} {prices : DecCoins} {n : Int}

/-- Two fees that are not both free take something of a value of one or more, however it is cut. -/
theorem one_le_fees {value tx exit : ℚ} (hvalue : 1 ≤ value) (htx : 0 ≤ tx) (hexit : 0 ≤ exit)
    (hrate : tx ≠ 0 ∨ exit ≠ 0) :
    1 ≤ min (⌈value * tx / 100⌉ + ⌈value * exit / 100⌉) ⌊value⌋ := by
  have hpos : 0 < value := by linarith
  have hnonneg {rate : ℚ} (h : 0 ≤ rate) : 0 ≤ ⌈value * rate / 100⌉ :=
    Int.ceil_nonneg (by positivity)
  have hcharged {rate : ℚ} (h : 0 ≤ rate) (hne : rate ≠ 0) : 1 ≤ ⌈value * rate / 100⌉ := by
    have : 0 < rate := lt_of_le_of_ne h hne.symm
    rw [Int.one_le_ceil_iff]
    positivity
  apply le_min
  · have hfirst := hnonneg htx
    have hsecond := hnonneg hexit
    obtain hne | hne := hrate
    · have := hcharged htx hne
      omega
    · have := hcharged hexit hne
      omega
  · rw [Int.le_floor]
    exact_mod_cast hvalue

/-- A sell at proper prices has proceeds, which divide its value exactly. In every denomination,
what is returned and the fees are together the exact value rounded down; the fees are both
percentages of the exact value, each rounded up without rounding a rate first, and cut at the
rounded value; so what is returned is not negative, and of a value of at least one a rate that is
not zero takes at least one. -/
theorem sellProceeds_split (htx : 0 ≤ b.txFee.raw) (hexit : 0 ≤ b.exitFee.raw) (hp : prices.Proper)
    (hn : 0 ≤ n) :
    ∃ p, b.sellProceeds n prices = .ok p ∧
      ∀ (d : Denom) (value : ℚ), value = (prices.amountOf d).toRat * n →
        p.returned.amountOf d + p.fees.amountOf d = ⌊value⌋ ∧
        p.fees.amountOf d =
          min (⌈value * b.txFee.toRat / 100⌉ + ⌈value * b.exitFee.toRat / 100⌉) ⌊value⌋ ∧
        0 ≤ p.returned.amountOf d ∧
        (b.txFee.toRat ≠ 0 ∨ b.exitFee.toRat ≠ 0 → 1 ≤ value → 1 ≤ p.fees.amountOf d) := by
  obtain ⟨p, hok, hreturned, -, hsum, hfees⟩ := sellProceeds_spec htx hexit hp hn
  refine ⟨p, hok, fun d value hvalue => ?_⟩
  rw [← DecCoins.toRat_amountOf_times] at hvalue
  subst hvalue
  have hsplit := hsum d
  have hfee := hfees d
  rw [Dec.floorInt_eq_floor] at hsplit hfee
  rw [Fee.due, Fee.due, Dec.ceilDiv_percentage, Dec.ceilDiv_percentage] at hfee
  refine ⟨hsplit, hfee, hreturned.amountOf_nonneg d, fun hrate hone => ?_⟩
  rw [hfee]
  exact one_le_fees hone (Dec.toRat_nonneg htx) (Dec.toRat_nonneg hexit) hrate

def percentCharging : Bond where
  token := "abc"
  name := "n"
  description := "d"
  creator := "z"
  functionType := .swapper
  parameters := []
  reserveTokens := ["one", "two"]
  txFee := Dec.one
  exitFee := Dec.one
  feeAddress := "fees"
  maxSupply := 10
  reserveAddress := reserveAccountFor "abc"

def twoPrices : DecCoins := [("one", ⟨300000000000000000⟩), ("two", .ofInt 100)]

theorem proper_twoPrices : twoPrices.Proper := by
  refine ⟨by decide, fun d x hx => ?_⟩
  simp only [twoPrices, List.mem_cons, Prod.mk.injEq, List.not_mem_nil, or_false] at hx
  obtain ⟨-, rfl⟩ | ⟨-, rfl⟩ := hx
  · decide
  · decide

/-- Five tokens at these prices. Of one and a half in the first token one is left, which the fees of
two take, so that nothing of it is returned; of five hundred in the second they take ten. -/
theorem sellProceeds_split_cut :
    ∃ p, percentCharging.sellProceeds 5 twoPrices = .ok p ∧
      p = ⟨[("two", 490)], [("one", 1), ("two", 10)]⟩ ∧
      p.returned.amountOf "one" + p.fees.amountOf "one" = ⌊(3 / 2 : ℚ)⌋ ∧
      p.fees.amountOf "one" =
        min (⌈(3 / 2 * Dec.one.toRat / 100 : ℚ)⌉ + ⌈(3 / 2 * Dec.one.toRat / 100 : ℚ)⌉)
          ⌊(3 / 2 : ℚ)⌋ ∧
      0 ≤ p.returned.amountOf "one" ∧ 1 ≤ p.fees.amountOf "one" := by
  obtain ⟨p, hp, hsplit⟩ := sellProceeds_split (b := percentCharging) (n := 5) (by decide)
    (by decide) proper_twoPrices (by decide)
  have hproceeds : percentCharging.sellProceeds 5 twoPrices =
      .ok ⟨[("two", 490)], [("one", 1), ("two", 10)]⟩ := by decide +kernel
  cases hproceeds.symm.trans hp
  have hprice : twoPrices.amountOf "one" = ⟨300000000000000000⟩ := rfl
  have hvalue : (3 / 2 : ℚ) = (twoPrices.amountOf "one").toRat * (5 : Int) := by
    rw [hprice]
    norm_num [Dec.toRat, Dec.scale]
  have hone : Dec.one.toRat ≠ 0 := by norm_num [Dec.toRat, Dec.scale]
  obtain ⟨hsum, hfee, hnet, hcharged⟩ := hsplit "one" (3 / 2) hvalue
  exact ⟨_, hp, rfl, hsum, hfee, hnet, hcharged (.inl hone) (by norm_num)⟩

end Bond
end BondMarket
