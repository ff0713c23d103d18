import BondMarket.Pool
import BondMarket.Proofs.Curve
import BondMarket.Proofs.Prices

/-!
Trading against the pool of a swapper bond. A swap that is accepted leaves a positive amount of
both tokens and does not lower their product, whichever token is put in, and so does a run of
swaps. What a trader gains of a token the pool has lost of it, or more where fees were paid;
whoever has gained of one token and lost of none would have lowered the product.

One swap of a sum gives at least what its parts give one after the other: its fee is at most the
sum of their fees, as rounding up is subadditive, and the product that the parts leave in the pool
suffices for the sum.
-/

namespace BondMarket

section Ceiling

variable {m n den : Int}

theorem ceilDiv_le_iff (hd : 0 < den) {k : Int} : ceilDiv n den ≤ k ↔ n ≤ k * den := by
  constructor
  · intro h
    exact (le_ceilDiv_mul hd n).trans (mul_le_mul_of_nonneg_right h hd.le)
  · intro h
    have hlt : ceilDiv n den * den < (k + 1) * den := by
      linarith [ceilDiv_mul_lt hd n]
    have := lt_of_mul_lt_mul_right hlt hd.le
    omega

theorem ceilDiv_pos (hd : 0 < den) (h : 0 < n) : 0 < ceilDiv n den := by
  by_contra hle
  have := (ceilDiv_le_iff hd).1 (not_lt.1 hle)
  omega

theorem ceilDiv_add_le (hd : 0 < den) (m n : Int) :
    ceilDiv (m + n) den ≤ ceilDiv m den + ceilDiv n den := by
  rw [ceilDiv_le_iff hd, add_mul]
  exact add_le_add (le_ceilDiv_mul hd m) (le_ceilDiv_mul hd n)

theorem ediv_eq_ceilDiv (hd : 0 < den) (n : Int) : (n + den - 1) / den = ceilDiv n den := by
  apply le_antisymm
  · have hup := le_ceilDiv_mul hd n
    rw [← Int.lt_add_one_iff, Int.ediv_lt_iff_lt_mul hd, add_mul]
    omega
  · rw [ceilDiv_le_iff hd]
    have hrest := Int.lt_ediv_add_one_mul_self (n + den - 1) hd
    rw [add_mul] at hrest
    omega

end Ceiling

namespace Pool

variable {x y a a₁ a₂ : Int} {percentage : Dec} {s s₁ s₂ : Swap}

def swapFee (percentage : Dec) (a : Int) : Int :=
  ceilDiv ((Dec.ofInt a).raw * percentage.raw) (100 * Dec.scale * Dec.scale)

theorem swapFee_eq_due (percentage : Dec) (a : Int) :
    swapFee percentage a = Fee.due (.ofInt a) percentage := rfl

theorem swapFee_nonneg (hr : 0 ≤ percentage.raw) (ha : 0 ≤ a) : 0 ≤ swapFee percentage a :=
  Fee.due_nonneg (Dec.raw_ofInt_nonneg ha) hr

theorem swapFee_add_le (percentage : Dec) (a₁ a₂ : Int) :
    swapFee percentage (a₁ + a₂) ≤ swapFee percentage a₁ + swapFee percentage a₂ := by
  have hsum : (Dec.ofInt (a₁ + a₂)).raw * percentage.raw =
      (Dec.ofInt a₁).raw * percentage.raw + (Dec.ofInt a₂).raw * percentage.raw := by
    simp only [Dec.raw_ofInt]
    ring
  rw [swapFee, hsum]
  exact ceilDiv_add_le (by decide) _ _

/-- All that the acceptance of a swap says: the fee is taken off the input, the rest goes into the
pool, and what stays of the other reserve is the least amount that keeps the product. -/
structure Accepted (x y a : Int) (percentage : Dec) (s : Swap) : Prop where
  first : 0 ≤ x
  second : 0 ≤ y
  input : 0 ≤ a
  rate : 0 ≤ percentage.raw
  fee : s.fee = swapFee percentage a
  net : s.fee < a
  reserveIn : s.reserveIn = x + (a - s.fee)
  reserveOut : s.reserveOut = ceilDiv (x * y) s.reserveIn
  output : s.output = y - s.reserveOut
  gives : 0 < s.output
  leaves : 0 < s.reserveOut

theorem ofValue_eq_ok_iff {fee : Int} (ha : 0 ≤ a) :
    Fee.ofValue (.ofInt a) percentage = .ok fee ↔
      0 ≤ percentage.raw ∧ fee = swapFee percentage a := by
  by_cases hr : 0 ≤ percentage.raw
  · have hdue := Fee.ofValue_eq_ok (Dec.raw_ofInt_nonneg ha) hr
    rw [swapFee_eq_due, hdue]
    simp [hr, eq_comm]
  · have hrate : percentage.isNegative = true := by simpa [Dec.isNegative] using hr
    simp [Fee.ofValue, hrate, hr, Fault.fail]

theorem exists_fee_of_swapExactIn (h : swapExactIn x y a percentage = .ok s) :
    0 ≤ x ∧ 0 ≤ y ∧ 0 ≤ a ∧ ∃ fee, Fee.ofValue (.ofInt a) percentage = .ok fee := by
  unfold swapExactIn at h
  split at h
  · cases h
  rename_i hreserves
  split at h
  · cases h
  rename_i hinput
  obtain ⟨fee, hfee, -⟩ := Result.bind_eq_ok.1 h
  exact ⟨by omega, by omega, by omega, fee, hfee⟩

theorem swapExactIn_eq_ok_iff :
    swapExactIn x y a percentage = .ok s ↔ Accepted x y a percentage s := by
  constructor
  · intro h
    obtain ⟨hx, hy, ha, fee, hfee⟩ := exists_fee_of_swapExactIn h
    obtain ⟨hrate, rfl⟩ := (ofValue_eq_ok_iff ha).1 hfee
    rw [swapExactIn_of_fee hx hy ha hfee] at h
    split at h
    · cases h
    rename_i hnet
    have hafter : 0 < x + (a - swapFee percentage a) := by omega
    simp only [ediv_eq_ceilDiv hafter] at h
    split at h
    · cases h
    split at h
    · cases h
    cases h
    exact ⟨hx, hy, ha, hrate, rfl, by dsimp only; omega, rfl, sub_sub_cancel y _,
      by dsimp only; omega, by dsimp only; omega, by dsimp only; omega⟩
  · intro h
    obtain ⟨output, fee, reserveIn, reserveOut⟩ := s
    obtain ⟨hx, hy, ha, hrate, hfee, hnet, hin, hout, houtput, hgives, hleaves⟩ := h
    dsimp only at hfee hnet hin hout houtput hgives hleaves
    have hvalue := (ofValue_eq_ok_iff ha).2 ⟨hrate, hfee⟩
    have hnet' : ¬ (a - fee ≤ 0) := by omega
    have hquotient : (x * y + reserveIn - 1) / reserveIn = reserveOut := by
      rw [ediv_eq_ceilDiv (by omega), hout]
    have hsmall : ¬ (output ≤ 0) := by omega
    have hdepleted : ¬ (y ≤ output) := by omega
    have hrest : y - output = reserveOut := by omega
    simp only [swapExactIn_of_fee hx hy ha hvalue, hnet', ← hin, hquotient, ← houtput, hsmall,
      hdepleted, hrest, if_false]

/-- No swap comes to grief at the last of its checks. -/
theorem swapExactIn_ne_productLowered (x y a : Int) (percentage : Dec) (after before : Int) :
    swapExactIn x y a percentage ≠ (Fault.productLowered after before).fail := by
  intro h
  by_cases hvalid : 0 ≤ x ∧ 0 ≤ y ∧ 0 ≤ a
  · obtain ⟨hx, hy, ha⟩ := hvalid
    cases hfee : Fee.ofValue (.ofInt a) percentage with
    | error e =>
        have hreserves : ¬ (x < 0 ∨ y < 0) := by omega
        simp only [swapExactIn, hreserves, not_lt.2 ha, if_false, hfee, Result.error_bind] at h
        cases h
        unfold Fee.ofValue at hfee
        split at hfee
        · cases hfee
        · split at hfee <;> cases hfee
    | ok fee =>
        rw [swapExactIn_of_fee hx hy ha hfee] at h
        split at h
        · cases h
        dsimp only at h
        split at h
        · cases h
        split at h <;> cases h
  · unfold swapExactIn at h
    split at h
    · cases h
    rw [if_pos (by omega)] at h
    cases h

theorem Accepted.reserveIn_pos (h : Accepted x y a percentage s) : 0 < s.reserveIn := by
  have := h.first
  have := h.net
  have := h.reserveIn
  omega

theorem Accepted.product_le (h : Accepted x y a percentage s) :
    x * y ≤ s.reserveIn * s.reserveOut := by
  rw [mul_comm s.reserveIn, h.reserveOut]
  exact le_ceilDiv_mul h.reserveIn_pos (x * y)

/-- Two swaps in one direction, the second against what the first left, are no better than one
swap of both inputs, which is accepted where they are. -/
theorem Accepted.join (h₁ : Accepted x y a₁ percentage s₁)
    (h₂ : Accepted s₁.reserveIn s₁.reserveOut a₂ percentage s₂) (hx : 0 < x) (hy : 0 < y) :
    ∃ s, Accepted x y (a₁ + a₂) percentage s ∧ s₁.output + s₂.output ≤ s.output := by
  have hfees := swapFee_add_le percentage a₁ a₂
  have hnet : a₁ - s₁.fee + (a₂ - s₂.fee) ≤ a₁ + a₂ - swapFee percentage (a₁ + a₂) := by
    rw [h₁.fee, h₂.fee]
    omega
  set fee := swapFee percentage (a₁ + a₂) with hfee
  set after := x + (a₁ + a₂ - fee) with hafter
  have hgrows : s₂.reserveIn ≤ after := by
    rw [h₂.reserveIn, h₁.reserveIn]
    omega
  have hpos : 0 < after := h₂.reserveIn_pos.trans_le hgrows
  have hkept : ceilDiv (x * y) after ≤ s₂.reserveOut := by
    rw [ceilDiv_le_iff hpos]
    calc x * y ≤ s₁.reserveIn * s₁.reserveOut := h₁.product_le
      _ ≤ s₂.reserveIn * s₂.reserveOut := h₂.product_le
      _ ≤ after * s₂.reserveOut := mul_le_mul_of_nonneg_right hgrows h₂.leaves.le
      _ = s₂.reserveOut * after := mul_comm _ _
  have houtput : s₁.output + s₂.output ≤ y - ceilDiv (x * y) after := by
    rw [h₁.output, h₂.output]
    omega
  have := h₁.net
  have := h₂.net
  have := h₁.gives
  have := h₂.gives
  exact ⟨⟨y - ceilDiv (x * y) after, fee, after, ceilDiv (x * y) after⟩,
    ⟨hx.le, hy.le, add_nonneg h₁.input h₂.input, h₁.rate, hfee, by dsimp only; omega, hafter, rfl,
      rfl, by dsimp only; omega, ceilDiv_pos hpos (mul_pos hx hy)⟩, houtput⟩

/-! ### Runs of swaps -/

inductive Side where
  | left
  | right

structure Trade where
  side : Side
  input : Int

structure Standing where
  left : Int
  right : Int
  holdsLeft : Int
  holdsRight : Int

namespace Standing

variable {p q r : Standing} {t : Trade} {ts : List Trade}

def mirror (p : Standing) : Standing := ⟨p.right, p.left, p.holdsRight, p.holdsLeft⟩

def putLeft (percentage : Dec) (p : Standing) (a : Int) : Result Standing := do
  let s ← swapExactIn p.left p.right a percentage
  return ⟨s.reserveIn, s.reserveOut, p.holdsLeft - a, p.holdsRight + s.output⟩

def trade (percentage : Dec) (p : Standing) (t : Trade) : Result Standing :=
  match t.side with
  | .left => p.putLeft percentage t.input
  | .right => do return (← p.mirror.putLeft percentage t.input).mirror

def run (percentage : Dec) : List Trade → Standing → Result Standing
  | [], p => .ok p
  | t :: ts, p => do run percentage ts (← p.trade percentage t)

def product (p : Standing) : Int := p.left * p.right

def Profits (p q : Standing) : Prop :=
  p.holdsLeft ≤ q.holdsLeft ∧ p.holdsRight ≤ q.holdsRight ∧
    (p.holdsLeft < q.holdsLeft ∨ p.holdsRight < q.holdsRight)

/-- What trades preserve and what they may change: no reserve is emptied, the product does not
fall, and pool and trader together have no more of a token than before. -/
structure Fair (p q : Standing) : Prop where
  left : 0 < q.left
  right : 0 < q.right
  product : p.product ≤ q.product
  leftTotal : q.left + q.holdsLeft ≤ p.left + p.holdsLeft
  rightTotal : q.right + q.holdsRight ≤ p.right + p.holdsRight

theorem Fair.refl (hl : 0 < p.left) (hr : 0 < p.right) : Fair p p :=
  ⟨hl, hr, le_rfl, le_rfl, le_rfl⟩

theorem Fair.trans (hpq : Fair p q) (hqr : Fair q r) : Fair p r :=
  ⟨hqr.left, hqr.right, hpq.product.trans hqr.product, hqr.leftTotal.trans hpq.leftTotal,
    hqr.rightTotal.trans hpq.rightTotal⟩

theorem Fair.of_mirror (h : Fair p.mirror q) : Fair p q.mirror where
  left := h.right
  right := h.left
  product := by
    have hle : p.right * p.left ≤ q.left * q.right := h.product
    show p.left * p.right ≤ q.right * q.left
    linarith
  leftTotal := h.rightTotal
  rightTotal := h.leftTotal

/-- With less of one token in the pool, and of the other no more, the product would have fallen. -/
theorem Fair.not_profits (h : Fair p q) : ¬ Profits p q := by
  rintro ⟨hleft, hright, hgain⟩
  have hproduct : p.left * p.right ≤ q.left * q.right := h.product
  have := h.left
  have := h.right
  have hl : q.left ≤ p.left := by linarith [h.leftTotal]
  have hr : q.right ≤ p.right := by linarith [h.rightTotal]
  rcases hgain with hgain | hgain
  · have hlt : q.left < p.left := by linarith [h.leftTotal]
    have : q.left * q.right < p.left * p.right :=
      mul_lt_mul hlt hr h.right (by omega)
    omega
  · have hlt : q.right < p.right := by linarith [h.rightTotal]
    have : q.left * q.right < p.left * p.right :=
      mul_lt_mul' hl hlt h.right.le (by omega)
    omega

theorem fair_putLeft {a : Int} (h : p.putLeft percentage a = .ok q) : Fair p q := by
  obtain ⟨s, hs, hq⟩ := Result.bind_eq_ok.1 h
  cases hq
  have hs := swapExactIn_eq_ok_iff.1 hs
  have hfee : 0 ≤ s.fee := hs.fee ▸ swapFee_nonneg hs.rate hs.input
  refine ⟨hs.reserveIn_pos, hs.leaves, hs.product_le, ?_, ?_⟩ <;> dsimp only
  · rw [hs.reserveIn]
    omega
  · rw [hs.output]
    omega

theorem fair_trade (h : p.trade percentage t = .ok q) : Fair p q := by
  unfold trade at h
  split at h
  · exact fair_putLeft h
  · obtain ⟨q', hq', hq⟩ := Result.bind_eq_ok.1 h
    cases hq
    exact (fair_putLeft hq').of_mirror

theorem fair_run (hl : 0 < p.left) (hr : 0 < p.right) (h : run percentage ts p = .ok q) :
    Fair p q := by
  induction ts generalizing p with
  | nil =>
      cases h
      exact .refl hl hr
  | cons t ts ih =>
      obtain ⟨p', hp', h⟩ := Result.bind_eq_ok.1 h
      have hstep := fair_trade hp'
      exact hstep.trans (ih hstep.left hstep.right h)

/-- No run of swaps takes value out of a pool: from any point of a run to any later one the
product of the reserves does not fall, and a trader who made the swaps between has not gained of
one token without losing of the other. Dividing a swap does not pay either: where two swaps in one
direction are accepted one after the other, so is a swap of the sum, and it gives at least as
much. -/
theorem run_extracts_nothing {x y : Int} (hx : 0 < x) (hy : 0 < y) (percentage : Dec) :
    (∀ holdsLeft holdsRight before between p q,
      run percentage before ⟨x, y, holdsLeft, holdsRight⟩ = .ok p →
        run percentage between p = .ok q → p.product ≤ q.product ∧ ¬ Profits p q) ∧
      ∀ a₁ a₂ s₁ s₂, swapExactIn x y a₁ percentage = .ok s₁ →
        swapExactIn s₁.reserveIn s₁.reserveOut a₂ percentage = .ok s₂ →
          ∃ s, swapExactIn x y (a₁ + a₂) percentage = .ok s ∧ s₁.output + s₂.output ≤ s.output := by
  refine ⟨fun u v before between p q hp hq => ?_, fun a₁ a₂ s₁ s₂ h₁ h₂ => ?_⟩
  · have hbefore := fair_run hx hy hp
    have hbetween := fair_run hbefore.left hbefore.right hq
    exact ⟨hbetween.product, hbetween.not_profits⟩
  · obtain ⟨s, hs, hle⟩ :=
      (swapExactIn_eq_ok_iff.1 h₁).join (swapExactIn_eq_ok_iff.1 h₂) hx hy
    exact ⟨s, swapExactIn_eq_ok_iff.2 hs, hle⟩

theorem there_and_back_extracts_nothing :
    ∃ p q, run ⟨300000000000000000⟩ [⟨.left, 100⟩] ⟨1000, 1000, 500, 500⟩ = .ok p ∧
      run ⟨300000000000000000⟩ [⟨.left, 200⟩, ⟨.right, 150⟩] p = .ok q ∧
        p.product ≤ q.product ∧ ¬ Profits p q ∧
      ∃ s₁ s₂ s, swapExactIn 1000 1000 100 ⟨300000000000000000⟩ = .ok s₁ ∧
        swapExactIn s₁.reserveIn s₁.reserveOut 200 ⟨300000000000000000⟩ = .ok s₂ ∧
          swapExactIn 1000 1000 (100 + 200) ⟨300000000000000000⟩ = .ok s ∧
            s₁.output + s₂.output ≤ s.output := by
  have hx : (0 : Int) < 1000 := by decide
  obtain ⟨hrun, hjoin⟩ := run_extracts_nothing hx hx ⟨300000000000000000⟩
  have hp : run ⟨300000000000000000⟩ [⟨.left, 100⟩] ⟨1000, 1000, 500, 500⟩ =
      .ok ⟨1099, 910, 400, 590⟩ := by rfl
  have hq : run ⟨300000000000000000⟩ [⟨.left, 200⟩, ⟨.right, 150⟩] ⟨1099, 910, 400, 590⟩ =
      .ok ⟨1088, 920, 410, 579⟩ := by rfl
  have h₁ : swapExactIn 1000 1000 100 ⟨300000000000000000⟩ = .ok ⟨90, 1, 1099, 910⟩ := by rfl
  have h₂ : swapExactIn 1099 910 200 ⟨300000000000000000⟩ = .ok ⟨139, 1, 1298, 771⟩ := by rfl
  obtain ⟨hproduct, hprofit⟩ := hrun 500 500 _ _ _ _ hp hq
  obtain ⟨s, hs, hle⟩ := hjoin 100 200 _ _ h₁ h₂
  exact ⟨_, _, hp, hq, hproduct, hprofit, _, _, s, h₁, h₂, hs, hle⟩

end Standing
end Pool
end BondMarket
