import BondMarket.Proofs.Rounding

/-!
Powers of decimals. How often the loop squares and where it multiplies depends on the exponent
alone, so the runs from two bases take the same turns. Whatever relates the bases, relates one to
itself and is kept by products relates the two powers, and a property of one base is the special
case of a relation that does not look at the other.
-/

namespace BondMarket.Dec

theorem mul_le_mul_of_nonneg {a a' b b' : Dec} (ha : 0 ≤ a.raw) (hb : 0 ≤ b.raw) (haa : a ≤ a')
    (hbb : b ≤ b') : a * b ≤ a' * b' := by
  show (a * b).raw ≤ (a' * b').raw
  rw [raw_mul, raw_mul]
  exact roundHalfEven_mono scale_pos (mul_le_mul haa hbb hb (ha.trans haa))

section Loop

variable {R : Dec → Dec → Prop} (hmul : ∀ a a' b b', R a a' → R b b' → R (a * b) (a' * b'))

include hmul

theorem powerLoop_rel (fuel n : Nat) {acc acc' base base' : Dec} (hacc : R acc acc')
    (hbase : R base base') : R (powerLoop fuel acc base n) (powerLoop fuel acc' base' n) := by
  induction fuel generalizing n acc acc' base base' with
  | zero => exact hacc
  | succ fuel ih =>
      rw [powerLoop, powerLoop]
      split
      · exact hacc
      · apply ih
        · split
          · exact hmul _ _ _ _ hacc hbase
          · exact hacc
        · exact hmul _ _ _ _ hbase hbase

/-- What relates one to itself and two decimals to each other, and what products keep, relates their
powers. -/
theorem power_rel {d d' : Dec} (hone : R one one) (hd : R d d') (n : Nat) :
    R (d.power n) (d'.power n) := powerLoop_rel hmul n n hone hd

end Loop

/-- What one and a decimal have, and what products keep, the powers of the decimal have. -/
theorem power_induction {P : Dec → Prop} {d : Dec} (hone : P one) (hd : P d)
    (hmul : ∀ a b, P a → P b → P (a * b)) (n : Nat) : P (d.power n) :=
  @power_rel (fun a _ => P a) (fun a _ b _ => hmul a b) d d hone hd n

theorem power_nonneg {d : Dec} (h : 0 ≤ d.raw) (n : Nat) : 0 ≤ (d.power n).raw :=
  power_induction (P := fun d => 0 ≤ d.raw) scale_pos.le h (fun _ _ => raw_mul_nonneg) n

theorem one_le_power {d : Dec} (h : scale ≤ d.raw) (n : Nat) : scale ≤ (d.power n).raw := by
  refine power_induction (P := fun d => scale ≤ d.raw) le_rfl h (fun a b ha hb => ?_) n
  have hscale := scale_pos
  have hmul : scale * scale ≤ a.raw * b.raw := mul_le_mul ha hb hscale.le (hscale.le.trans ha)
  exact le_roundHalfEven_of_mul_le hscale hmul

theorem power_mono {d d' : Dec} (hd : 0 ≤ d.raw) (hle : d ≤ d') (n : Nat) :
    d.power n ≤ d'.power n := by
  have hmul (a a' b b' : Dec) (ha : 0 ≤ a.raw ∧ a ≤ a') (hb : 0 ≤ b.raw ∧ b ≤ b') :
      0 ≤ (a * b).raw ∧ a * b ≤ a' * b' :=
    ⟨raw_mul_nonneg ha.1 hb.1, mul_le_mul_of_nonneg ha.1 hb.1 ha.2 hb.2⟩
  have hone : 0 ≤ one.raw ∧ one ≤ one := ⟨scale_pos.le, le_refl one.raw⟩
  exact (power_rel (R := fun a a' => 0 ≤ a.raw ∧ a ≤ a') hmul hone ⟨hd, hle⟩ n).2

end BondMarket.Dec
