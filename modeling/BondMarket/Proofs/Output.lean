import BondMarket.Proofs.Rational
import BondMarket.Proofs.Trading

/-!
What a swap pays out. A fee is the exact percentage of the input, rounded up once. Of all amounts
that can be taken out for the rest of the input without lowering the product of the reserves, a swap
pays the greatest, and it is accepted exactly where there is something to pay and the pool holds
something of the token that is put in. Against nothing of that token the greatest amount is the
whole of the other reserve, and the swap is turned down because it would empty the pool; whatever
else is turned down is too small.
-/

namespace BondMarket.Pool

variable {x y net a : Int} {percentage : Dec}

theorem swapFee_eq_ceil (percentage : Dec) (a : Int) :
    swapFee percentage a = ⌈(a * (percentage.raw / Dec.scale) / 100 : ℚ)⌉ := by
  rw [swapFee, Dec.ceilDiv_percentage, Dec.toRat_ofInt]
  rfl

/-! ### The greatest output -/

/-- The amounts that can be taken out of a pool for a net input without lowering the product of its
reserves. -/
def safeOutputs (x y net : Int) : Set Int := {o | x * y ≤ (x + net) * (y - o)}

theorem isGreatest_safeOutputs (h : 0 < x + net) :
    IsGreatest (safeOutputs x y net) (y - ceilDiv (x * y) (x + net)) := by
  have hmem (o : Int) : o ∈ safeOutputs x y net ↔ ceilDiv (x * y) (x + net) ≤ y - o := by
    rw [ceilDiv_le_iff h, mul_comm (y - o)]
    rfl
  refine ⟨(hmem _).2 (sub_sub_cancel y _).ge, fun o ho => ?_⟩
  have := (hmem o).1 ho
  omega

theorem swapExactIn_of_consumed (hx : 0 ≤ x) (hy : 0 ≤ y) (ha : 0 ≤ a)
    (hrate : 0 ≤ percentage.raw) (hnet : a - swapFee percentage a ≤ 0) :
    swapExactIn x y a percentage =
      reject .swapAmountTooSmallToGiveAnyReturn s!"input {a}" := by
  rw [swapExactIn_of_fee hx hy ha ((ofValue_eq_ok_iff ha).2 ⟨hrate, rfl⟩), if_pos hnet]

theorem swapExactIn_of_isGreatest (hx : 0 ≤ x) (hy : 0 ≤ y) (ha : 0 ≤ a)
    (hrate : 0 ≤ percentage.raw) (hnet : 0 < a - swapFee percentage a) {o : Int}
    (ho : IsGreatest (safeOutputs x y (a - swapFee percentage a)) o) :
    swapExactIn x y a percentage =
      if o ≤ 0 then reject .swapAmountTooSmallToGiveAnyReturn s!"input {a}"
      else if y ≤ o then reject .swapAmountCausesReserveDepletion s!"output {o}"
      else .ok ⟨o, swapFee percentage a, x + (a - swapFee percentage a), y - o⟩ := by
  have hafter : 0 < x + (a - swapFee percentage a) := by omega
  rw [ho.unique (isGreatest_safeOutputs hafter),
    swapExactIn_of_fee hx hy ha ((ofValue_eq_ok_iff ha).2 ⟨hrate, rfl⟩), if_neg (not_le.2 hnet)]
  simp only [ediv_eq_ceilDiv hafter]

/-- The greatest output leaves something of the reserve that it is taken from, if there is something
of the other one. -/
theorem lt_of_isGreatest (hx : 0 < x) (hy : 0 ≤ y) (hnet : 0 < net) {o : Int}
    (ho : IsGreatest (safeOutputs x y net) o) (hpos : 0 < o) : o < y := by
  have hafter : 0 < x + net := by omega
  have heq := ho.unique (isGreatest_safeOutputs hafter)
  have hkept : 0 ≤ ceilDiv (x * y) (x + net) := ceilDiv_nonneg hafter (mul_nonneg hx.le hy)
  have hreserve : 0 < ceilDiv (x * y) (x + net) := ceilDiv_pos hafter (mul_pos hx (by omega))
  omega

/-- Out of a pool without the token that is put in, everything could be taken. -/
theorem isGreatest_of_empty (hnet : 0 < net) : IsGreatest (safeOutputs 0 y net) y := by
  have hafter : 0 < 0 + net := by omega
  have h := isGreatest_safeOutputs (y := y) hafter
  have hnone : ceilDiv (0 * y) (0 + net) = 0 := by simp [ceilDiv]
  rwa [hnone, sub_zero] at h

/-- A swap pays the largest safe output. With `net` the input less its exact percentage rounded
up, it is accepted exactly if `net` is positive, there is something of the token put in, and the
largest amount that does not lower the product is positive; this is then paid, it leaves
something of the other reserve, and fee and net input make up the input. A positive net input
against nothing of its own token and something of the other is turned down because it would empty
the pool. Whatever else is turned down is too small. -/
theorem swapExactIn_largest (hx : 0 ≤ x) (hy : 0 ≤ y) (ha : 0 ≤ a) (hrate : 0 ≤ percentage.raw)
    (hnet : net = a - ⌈(a * (percentage.raw / Dec.scale) / 100 : ℚ)⌉) :
    (0 < net → ∃ o, IsGreatest {o : Int | x * y ≤ (x + net) * (y - o)} o) ∧
    ((∃ s, swapExactIn x y a percentage = .ok s) ↔
      0 < net ∧ 0 < x ∧ ∃ o, IsGreatest {o : Int | x * y ≤ (x + net) * (y - o)} o ∧ 0 < o) ∧
    (∀ s, swapExactIn x y a percentage = .ok s →
      IsGreatest {o : Int | x * y ≤ (x + net) * (y - o)} s.output ∧ 0 < s.output ∧ s.output < y ∧
        s.fee + net = a ∧ s.reserveIn = x + net ∧ s.reserveOut = y - s.output) ∧
    (0 < net → x = 0 → 0 < y → swapExactIn x y a percentage =
      reject .swapAmountCausesReserveDepletion s!"output {y}") ∧
    ((¬ ∃ s, swapExactIn x y a percentage = .ok s) → ¬ (0 < net ∧ x = 0 ∧ 0 < y) →
      swapExactIn x y a percentage =
        reject .swapAmountTooSmallToGiveAnyReturn s!"input {a}") := by
  rw [← swapFee_eq_ceil] at hnet
  subst hnet
  have hno {code : Code} {detail : String} (h : swapExactIn x y a percentage = reject code detail) :
      ¬ ∃ s, swapExactIn x y a percentage = .ok s := by
    rintro ⟨s, hs⟩
    cases h.symm.trans hs
  rcases le_or_gt (a - swapFee percentage a) 0 with hnone | hnet
  · -- The fee takes everything.
    have hsmall := swapExactIn_of_consumed hx hy ha hrate hnone
    exact ⟨fun h => absurd hnone (not_le.2 h),
      ⟨fun h => absurd h (hno hsmall), fun h => absurd hnone (not_le.2 h.1)⟩,
      fun s hs => absurd ⟨s, hs⟩ (hno hsmall), fun h => absurd hnone (not_le.2 h),
      fun _ _ => hsmall⟩
  obtain ⟨o, ho⟩ : ∃ o, IsGreatest (safeOutputs x y (a - swapFee percentage a)) o :=
    ⟨_, isGreatest_safeOutputs (by omega)⟩
  have hswap := swapExactIn_of_isGreatest hx hy ha hrate hnet ho
  have hwhole (hzero : x = 0) : o = y := by
    subst hzero
    exact ho.unique (isGreatest_of_empty hnet)
  rcases le_or_gt o 0 with hnothing | hsome
  · -- There is nothing to pay.
    have hsmall := hswap.trans (if_pos hnothing)
    refine ⟨fun _ => ⟨o, ho⟩, ⟨fun h => absurd h (hno hsmall), ?_⟩,
      fun s hs => absurd ⟨s, hs⟩ (hno hsmall),
      fun _ hzero hy => absurd hy (not_lt.2 (hwhole hzero ▸ hnothing)), fun _ _ => hsmall⟩
    rintro ⟨-, -, o', ho', hsome⟩
    obtain rfl := ho'.unique ho
    omega
  rw [if_neg (not_le.2 hsome)] at hswap
  rcases hx.eq_or_lt with hzero | hpos
  · -- Everything could be taken, which empties the pool.
    obtain rfl := hwhole hzero.symm
    rw [if_pos le_rfl] at hswap
    exact ⟨fun _ => ⟨o, ho⟩, ⟨fun h => absurd h (hno hswap), fun h => absurd hzero h.2.1.ne⟩,
      fun s hs => absurd ⟨s, hs⟩ (hno hswap), fun _ _ _ => hswap,
      fun _ hdepleted => absurd ⟨hnet, hzero.symm, hsome⟩ hdepleted⟩
  · have hless := lt_of_isGreatest hpos hy hnet ho hsome
    rw [if_neg (not_le.2 hless)] at hswap
    refine ⟨fun _ => ⟨o, ho⟩, ⟨fun _ => ⟨hnet, hpos, o, ho, hsome⟩, fun _ => ⟨_, hswap⟩⟩,
      fun s hs => ?_, fun _ hzero => absurd hzero hpos.ne', fun hno => absurd ⟨_, hswap⟩ hno⟩
    obtain rfl := Except.ok.inj (hswap.symm.trans hs)
    exact ⟨ho, hsome, hless, by dsimp only; omega, rfl, rfl⟩

theorem swapExactIn_largest_hundred :
    ∃ s, swapExactIn 1000 1000 100 ⟨300000000000000000⟩ = .ok s ∧
      IsGreatest {o : Int | 1000 * 1000 ≤ (1000 + 99) * (1000 - o)} s.output ∧ s.output = 90 ∧
      s.output < 1000 ∧ s.fee + 99 = 100 := by
  have hs : swapExactIn 1000 1000 100 ⟨300000000000000000⟩ = .ok ⟨90, 1, 1099, 910⟩ := by rfl
  have hnet : (99 : Int) =
      100 - ⌈((100 : Int) * ((⟨300000000000000000⟩ : Dec).raw / Dec.scale) / 100 : ℚ)⌉ := by
    norm_num [Dec.scale]
  obtain ⟨-, -, hpaid, -⟩ := swapExactIn_largest (x := 1000) (y := 1000) (by decide) (by decide)
    (by decide) (by decide) hnet
  obtain ⟨hgreatest, -, hless, hfee, -⟩ := hpaid _ hs
  exact ⟨_, hs, hgreatest, rfl, hless, hfee⟩

end BondMarket.Pool
