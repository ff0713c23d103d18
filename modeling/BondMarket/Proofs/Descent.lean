import BondMarket.Proofs.SquareRoot
import Mathlib.Analysis.SpecialFunctions.Pow.NthRootLemmas

/-!
Roots by descent. Newton's step for the root of a positive number never goes below the floor of the
root, so the descent, which begins above it, never divides by zero; and where a step does not
decrease, the floor has been reached. The values fall until then, so that a number of steps
suffices, and any larger one leads to the same root.

Rounding the floor at the half above it leaves the nearest decimal. The half itself is never met:
its power is odd where the number, brought to the same scale, is even.
-/

namespace BondMarket

/-! ### The descent -/

section Descent

variable {k n x : Nat}

def rootStep (k n x : Nat) : Nat := ((k - 1) * x + n / x ^ (k - 1)) / k

def rootValue (k n i : Nat) : Nat := (rootStep k n)^[i] (rootStart k n)

theorem rootValue_zero (k n : Nat) : rootValue k n 0 = rootStart k n := rfl

theorem rootValue_succ (k n i : Nat) : rootValue k n (i + 1) = rootStep k n (rootValue k n i) :=
  Function.iterate_succ_apply' ..

theorem rootDescent_succ (k n steps x : Nat) :
    rootDescent k n (steps + 1) x =
      if x ≤ rootStep k n x then some x else rootDescent k n steps (rootStep k n x) := rfl

/-- A step from anywhere but zero does not go below the root. -/
theorem lt_rootStep_add_one_pow (hk : 0 < k) (hx : x ≠ 0) : n < (rootStep k n x + 1) ^ k := by
  obtain ⟨e, rfl⟩ : ∃ e, k = e + 1 := ⟨k - 1, by omega⟩
  have h := Nat.nthRoot.lt_pow_go_succ_aux (n := e) (a := n) hx
  rwa [Nat.add_comm (n / x ^ e)] at h

/-- Where a step does not decrease, its start is not above the root. -/
theorem pow_le_of_le_rootStep (hk : 0 < k) (h : x ≤ rootStep k n x) : x ^ k ≤ n := by
  obtain ⟨e, rfl⟩ : ∃ e, k = e + 1 := ⟨k - 1, by omega⟩
  have hsum : x * (e + 1) ≤ e * x + n / x ^ e := (Nat.le_div_iff_mul_le hk).1 h
  have hquotient : x ≤ n / x ^ e := by linarith
  calc x ^ (e + 1) = x * x ^ e := pow_succ' x e
    _ ≤ n := Nat.mul_le_of_le_div _ _ _ hquotient

/-- The descent begins above the root. -/
theorem lt_rootStart_pow (hk : 0 < k) (n : Nat) : n < rootStart k n ^ k := by
  have hceil : n.log2 + 1 ≤ (n.log2 + 1 + (k - 1)) / k * k := by
    have := Nat.div_add_mod (n.log2 + 1 + (k - 1)) k
    have := Nat.mod_lt (n.log2 + 1 + (k - 1)) hk
    rw [Nat.mul_comm]
    omega
  calc n < 2 ^ (n.log2 + 1) := Nat.lt_log2_self
    _ ≤ 2 ^ ((n.log2 + 1 + (k - 1)) / k * k) := Nat.pow_le_pow_right (by omega) hceil
    _ = rootStart k n ^ k := pow_mul ..

theorem ne_zero_of_lt_add_one_pow (hn : 0 < n) (h : n < (x + 1) ^ k) : x ≠ 0 := by
  rintro rfl
  rw [Nat.zero_add, one_pow] at h
  omega

theorem lt_rootValue_add_one_pow (hk : 0 < k) (hn : 0 < n) (i : Nat) :
    n < (rootValue k n i + 1) ^ k := by
  induction i with
  | zero =>
      exact (lt_rootStart_pow hk n).trans_le (Nat.pow_le_pow_left (Nat.le_succ _) k)
  | succ i ih =>
      rw [rootValue_succ]
      exact lt_rootStep_add_one_pow hk (ne_zero_of_lt_add_one_pow hn ih)

/-- The course of a descent: it comes to rest at its `j`-th value. Up to there no divisor is zero
and every step decreases, and the value that it rests at is the floor of the root. The loop finds it
if it may take more than `j` steps, and otherwise finds nothing. -/
structure Descent (k n j : Nat) : Prop where
  divisor : ∀ i ≤ j, rootValue k n i ^ (k - 1) ≠ 0
  decreases : ∀ i < j, rootStep k n (rootValue k n i) < rootValue k n i
  rests : rootValue k n j ≤ rootStep k n (rootValue k n j)
  floor : rootValue k n j ^ k ≤ n ∧ n < (rootValue k n j + 1) ^ k
  result : ∀ steps, rootDescent k n steps (rootStart k n) =
    if j < steps then some (rootValue k n j) else none

theorem rootDescent_rootValue {j : Nat}
    (hdecreases : ∀ i < j, rootStep k n (rootValue k n i) < rootValue k n i)
    (hrests : rootValue k n j ≤ rootStep k n (rootValue k n j)) (steps : Nat) :
    ∀ i ≤ j, rootDescent k n steps (rootValue k n i) =
      if j < i + steps then some (rootValue k n j) else none := by
  induction steps with
  | zero =>
      intro i hi
      rw [if_neg (by omega), rootDescent]
  | succ steps ih =>
      intro i hi
      rw [rootDescent_succ]
      rcases hi.lt_or_eq with hlt | rfl
      · rw [if_neg (not_le.2 (hdecreases i hlt)), ← rootValue_succ, ih (i + 1) hlt,
          Nat.add_right_comm, Nat.add_assoc]
      · rw [if_pos hrests, if_pos (by omega)]

theorem exists_descent (hk : 0 < k) (hn : 0 < n) : ∃ j, Descent k n j := by
  have hstop : ∃ j, rootValue k n j ≤ rootStep k n (rootValue k n j) := by
    obtain ⟨j, hj⟩ := WellFounded.not_rel_apply_succ (r := (· < ·)) (rootValue k n)
    rw [rootValue_succ] at hj
    exact ⟨j, not_lt.1 hj⟩
  have hrests := Nat.find_spec hstop
  have hdecreases (i : Nat) (hi : i < Nat.find hstop) :
      rootStep k n (rootValue k n i) < rootValue k n i := not_le.1 (Nat.find_min hstop hi)
  have habove := lt_rootValue_add_one_pow hk hn
  refine ⟨Nat.find hstop, fun i _ => ?_, hdecreases, hrests,
    ⟨pow_le_of_le_rootStep hk hrests, habove _⟩, fun steps => ?_⟩
  · exact pow_ne_zero _ (ne_zero_of_lt_add_one_pow hn (habove i))
  · have hresult := rootDescent_rootValue hdecreases hrests steps 0 (Nat.zero_le _)
    rwa [Nat.zero_add, rootValue_zero] at hresult

theorem eq_of_floor {r r' : Nat} (h : r ^ k ≤ n ∧ n < (r + 1) ^ k)
    (h' : r' ^ k ≤ n ∧ n < (r' + 1) ^ k) : r = r' :=
  (Nat.nthRoot_eq_of_le_of_lt h.1 h.2).symm.trans (Nat.nthRoot_eq_of_le_of_lt h'.1 h'.2)

end Descent

/-! ### Rounding the floor -/

def roundedRoot (k n r : Nat) : Nat := if (2 * r + 1) ^ k < n * 2 ^ k then r + 1 else r

theorem roundedRoot_bounds {k n r : Nat} (hk : 0 < k) (hn : 0 < n)
    (h : r ^ k ≤ n ∧ n < (r + 1) ^ k) :
    (2 * (roundedRoot k n r : Int) - 1) ^ k ≤ 2 ^ k * n ∧
      (2 ^ k * n : Int) < (2 * roundedRoot k n r + 1) ^ k := by
  obtain ⟨hlow, hhigh⟩ := h
  have hpos : 0 < r := by
    have := ne_zero_of_lt_add_one_pow hn hhigh
    omega
  unfold roundedRoot
  rw [Nat.mul_comm n]
  split
  · rename_i hup
    have hdouble : 2 ^ k * n < (2 * (r + 1)) ^ k := by
      rw [Nat.mul_pow]
      exact Nat.mul_lt_mul_of_pos_left hhigh (by positivity)
    have hnext : (2 * (r + 1)) ^ k ≤ (2 * (r + 1) + 1) ^ k := Nat.pow_le_pow_left (by omega) k
    have hbase : 2 * ((r + 1 : Nat) : Int) - 1 = ((2 * r + 1 : Nat) : Int) := by push_cast; ring
    rw [hbase]
    exact ⟨by exact_mod_cast hup.le, by exact_mod_cast hdouble.trans_le hnext⟩
  · rename_i hdown
    -- A power of an odd number is odd, so that it is not the even number on the other side.
    have hodd : Odd ((2 * r + 1) ^ k) := (odd_two_mul_add_one r).pow
    have heven : Even (2 ^ k * n) := (Nat.even_pow.2 ⟨even_two, hk.ne'⟩).mul_right n
    have hne : 2 ^ k * n ≠ (2 * r + 1) ^ k := fun heq => Nat.not_even_iff_odd.2 hodd (heq ▸ heven)
    have hdouble : (2 * r) ^ k ≤ 2 ^ k * n := by
      rw [Nat.mul_pow]
      exact Nat.mul_le_mul_left _ hlow
    have hbelow : (2 * r - 1) ^ k ≤ (2 * r) ^ k := Nat.pow_le_pow_left (by omega) k
    have hbase : 2 * (r : Int) - 1 = ((2 * r - 1 : Nat) : Int) := by omega
    rw [hbase]
    exact ⟨by exact_mod_cast hbelow.trans hdouble,
      by exact_mod_cast lt_of_le_of_ne (not_lt.1 hdown) hne⟩

namespace Dec

/-- The number whose root is taken, so that the root counts in units of the last place. -/
def radicand (d : Dec) (k : Nat) : Nat := d.raw.toNat * scale.toNat ^ (k - 1)

theorem natCast_radicand {d : Dec} (hd : 0 ≤ d.raw) (k : Nat) :
    (d.radicand k : Int) = d.raw * scale ^ (k - 1) := by
  rw [radicand, Nat.cast_mul, Nat.cast_pow, Int.toNat_of_nonneg hd,
    Int.toNat_of_nonneg scale_pos.le]

theorem two_le_radicand {d : Dec} (hd : 0 < d.raw) {k : Nat} (hk : 2 ≤ k) : 2 ≤ d.radicand k := by
  have hscale : 2 ≤ scale.toNat ^ (k - 1) := by
    calc 2 ≤ scale.toNat := by decide
      _ ≤ scale.toNat ^ (k - 1) := Nat.le_self_pow (by omega) _
  have hpos : 1 ≤ d.raw.toNat := by omega
  exact hscale.trans (Nat.le_mul_of_pos_left _ hpos)

theorem rootOfMagnitude_of_descent {d : Dec} (hd : 0 < d.raw) {k : Nat} (hk : 2 ≤ k) {j : Nat}
    (h : Descent k (d.radicand k) j) (steps : Int) :
    d.rootOfMagnitude k steps =
      if (j : Int) < steps then
        .ok ⟨roundedRoot k (d.radicand k) (rootValue k (d.radicand k) j)⟩
      else .error (.noConvergence
        s!"approx_root({d}, {k}) did not converge in {steps} iterations") := by
  have hfloor : floorRoot k (d.radicand k) steps.toNat =
      if (j : Int) < steps then some (rootValue k (d.radicand k) j) else none := by
    rw [floorRoot, if_neg (not_lt.2 (two_le_radicand hd hk)), h.result]
    exact if_congr (by omega) rfl rfl
  have hn : d.raw.toNat * scale.toNat ^ (k - 1) = d.radicand k := rfl
  by_cases hlt : (j : Int) < steps
  · simp only [rootOfMagnitude, hn, hfloor, hlt, if_true, roundedRoot, Nat.pow_eq, Nat.cast_ite,
      Nat.cast_add, Nat.cast_one]
  · simp only [rootOfMagnitude, Nat.pow_eq, hn, hfloor, hlt, if_false]

/-- One is its own root, and no other positive decimal is spared the descent. -/
theorem approxRoot_of_pos {d : Dec} (hd : 0 < d.raw) {k : Nat} (hk : 2 ≤ k) (steps : Int) :
    d.approxRoot k steps = if d = one then .ok one else d.rootOfMagnitude k steps := by
  have hzero : d ≠ zero := by
    rintro rfl
    exact absurd hd (by decide)
  have hneg : ¬ ((k : Int) < 0) := by omega
  simp only [approxRoot, hneg, not_lt.2 hd.le, if_false, Int.toNat_natCast,
    approxRoot.magnitudeRoot, show k ≠ 1 by omega, show k ≠ 0 by omega, hzero, false_or]
  split
  · rename_i hone
    rw [hone]
  · rfl

theorem exists_approxRoot {d : Dec} (hd : 0 < d.raw) {k : Nat} (hk : 2 ≤ k) :
    ∃ j r, Descent k (d.radicand k) j ∧
      ((2 * r.raw - 1) ^ k ≤ 2 ^ k * (d.raw * scale ^ (k - 1)) ∧
        2 ^ k * (d.raw * scale ^ (k - 1)) < (2 * r.raw + 1) ^ k) ∧
      (∀ steps : Int, j < steps → d.approxRoot k steps = .ok r) ∧
      ∀ steps r', d.approxRoot k steps = .ok r' → r' = r := by
  have hn := two_le_radicand hd hk
  obtain ⟨j, hj⟩ := exists_descent (k := k) (n := d.radicand k) (by omega) (by omega)
  refine ⟨j, ?_⟩
  by_cases hone : d = one
  · have hroot (steps : Int) : d.approxRoot k steps = .ok one := by
      rw [approxRoot_of_pos hd hk, if_pos hone]
    refine ⟨one, hj, ?_, fun steps _ => hroot steps, fun steps r' hr' => ?_⟩
    · have hexact : 2 ^ k * (d.raw * scale ^ (k - 1)) = (2 * one.raw) ^ k := by
        rw [hone, mul_pow, raw_one, mul_pow_sub_one (by omega)]
      rw [hexact]
      exact ⟨pow_le_pow_left₀ (by decide) (by omega) k,
        pow_lt_pow_left₀ (by omega) (by decide) (by omega)⟩
    · exact Except.ok.inj (hr'.symm.trans (hroot steps))
  · have hroot (steps : Int) := (approxRoot_of_pos hd hk steps).trans (if_neg hone)
    simp only [rootOfMagnitude_of_descent hd hk hj] at hroot
    refine ⟨_, hj, ?_, fun steps hsteps => (hroot steps).trans (if_pos hsteps),
      fun steps r' hr' => ?_⟩
    · rw [← natCast_radicand hd.le]
      exact roundedRoot_bounds (by omega) (by omega) hj.floor
    · rw [hroot] at hr'
      split at hr'
      · exact (Except.ok.inj hr').symm
      · cases hr'

theorem approxRoot_outcomes {d : Dec} (hd : 0 ≤ d.raw) {k : Int} (hk : 0 ≤ k) (steps : Int) :
    (∃ r, d.approxRoot k steps = .ok r ∧ 0 ≤ r.raw) ∨
      ∃ report, d.approxRoot k steps = .error (.noConvergence report) := by
  have hroot : d.approxRoot k steps = approxRoot.magnitudeRoot d k.toNat steps := by
    rw [approxRoot, if_neg (not_lt.2 hk), if_neg (not_lt.2 hd)]
  rw [hroot, approxRoot.magnitudeRoot]
  split
  · exact .inl ⟨d, rfl, hd⟩
  split
  · exact .inl ⟨one, rfl, scale_pos.le⟩
  unfold rootOfMagnitude
  dsimp only
  split
  · exact .inr ⟨_, rfl⟩
  · exact .inl ⟨_, rfl, by positivity⟩

theorem approxRoot_nonneg {d r : Dec} (hd : 0 ≤ d.raw) {k : Int} (hk : 0 ≤ k) {steps : Int}
    (h : d.approxRoot k steps = .ok r) : 0 ≤ r.raw := by
  obtain ⟨r', hr', hnonneg⟩ | ⟨report, hreport⟩ := approxRoot_outcomes hd hk steps
  · cases h.symm.trans hr'
    exact hnonneg
  · cases h.symm.trans hreport

theorem approxRoot_one {d r : Dec} (hd : 0 ≤ d.raw) {steps : Int}
    (h : d.approxRoot (1 : Nat) steps = .ok r) : r = d := by
  have hself : d.approxRoot (1 : Nat) steps = .ok d := by
    rw [approxRoot, if_neg (by decide), if_neg (not_lt.2 hd)]
    exact if_pos (.inl rfl)
  exact Except.ok.inj (h.symm.trans hself)

theorem approxRoot_mono {d d' r r' : Dec} (hd : 0 ≤ d.raw) (hle : d ≤ d') {k : Int} (hk : 1 ≤ k)
    {steps steps' : Int} (h : d.approxRoot k steps = .ok r) (h' : d'.approxRoot k steps' = .ok r') :
    r ≤ r' := by
  have hd' : 0 ≤ d'.raw := hd.trans hle
  have hr' := approxRoot_nonneg hd' (by omega) h'
  obtain ⟨k, rfl⟩ : ∃ n : Nat, k = n := ⟨k.toNat, by omega⟩
  obtain rfl | hk : k = 1 ∨ 2 ≤ k := by omega
  · rw [approxRoot_one hd h, approxRoot_one hd' h']
    exact hle
  obtain hzero | hpos := hd.eq_or_lt
  · obtain rfl : d = zero := ext hzero.symm
    have hroot : zero.approxRoot k steps = .ok zero := by
      rw [approxRoot, if_neg (by omega), if_neg (by decide)]
      exact if_pos (.inr (.inl rfl))
    cases h.symm.trans hroot
    exact hr'
  · obtain ⟨-, q, -, ⟨hlow, -⟩, -, hagree⟩ := exists_approxRoot hpos hk
    obtain ⟨-, q', -, ⟨-, hhigh⟩, -, hagree'⟩ := exists_approxRoot (hpos.trans_le hle) hk
    rw [← hagree steps r h] at hlow
    rw [← hagree' steps' r' h'] at hhigh
    have hradicand : 2 ^ k * (d.raw * scale ^ (k - 1)) ≤ 2 ^ k * (d'.raw * scale ^ (k - 1)) := by
      have hscale := pow_pos scale_pos (k - 1)
      gcongr
      exact hle
    -- Were the roots in the other order, the halves between them would be too.
    by_contra hlt
    have hhalves : 2 * r'.raw + 1 ≤ 2 * r.raw - 1 := by
      have : r'.raw < r.raw := not_le.1 hlt
      omega
    have := pow_le_pow_left₀ (by omega) hhalves k
    omega

/-- No positive decimal is so small that its root is rounded to zero. -/
theorem approxRoot_pos {d r : Dec} (hd : 0 < d.raw) {k : Int} (hk : 1 ≤ k) {steps : Int}
    (h : d.approxRoot k steps = .ok r) : 0 < r.raw := by
  have hnonneg := approxRoot_nonneg hd.le (by omega) h
  obtain ⟨k, rfl⟩ : ∃ n : Nat, k = n := ⟨k.toNat, by omega⟩
  obtain rfl | hk : k = 1 ∨ 2 ≤ k := by omega
  · rw [approxRoot_one hd.le h]
    exact hd
  · obtain ⟨-, q, -, ⟨-, hhigh⟩, -, hagree⟩ := exists_approxRoot hd hk
    rw [← hagree steps r h] at hhigh
    have hradicand : 0 < 2 ^ k * (d.raw * scale ^ (k - 1)) :=
      mul_pos (by positivity) (mul_pos hd (pow_pos scale_pos _))
    apply lt_of_le_of_ne hnonneg
    intro hzero
    rw [← hzero, mul_zero, zero_add, one_pow] at hhigh
    omega

/-- The square root, which is found by another way, is rounded from the same floor. -/
theorem approxSqrt_eq {d : Dec} (hd : 0 ≤ d.raw) :
    d.approxSqrt = .ok ⟨roundedRoot 2 (d.radicand 2) (floorSqrt (d.radicand 2))⟩ := by
  have hn : (d.raw * scale).toNat = d.radicand 2 := by
    rw [← Int.toNat_natCast (d.radicand 2), natCast_radicand hd, pow_one]
  have hlow := (floorSqrt_bounds (d.radicand 2)).1
  simp only [approxSqrt, not_lt.2 hd, if_false, hn, roundedRoot, Nat.cast_ite]
  generalize floorSqrt (d.radicand 2) = f at *
  generalize d.radicand 2 = n at *
  have hiff : f < n - f * f ↔ (2 * f + 1) ^ 2 < n * 2 ^ 2 := by
    have hsquare : (2 * f + 1) ^ 2 = 4 * (f * f) + 4 * f + 1 := by ring
    omega
  exact congrArg (fun r => Except.ok (Dec.mk r)) (if_congr hiff rfl rfl)

theorem approxSqrt_of_approxRoot {d r : Dec} (hd : 0 ≤ d.raw) {steps : Int}
    (h : d.approxRoot 2 steps = .ok r) : d.approxSqrt = .ok r := by
  by_cases hzero : d = zero
  · subst hzero
    cases h
    rfl
  · have hpos : 0 < d.raw := lt_of_le_of_ne hd fun hraw => hzero (Dec.ext hraw.symm)
    have hk : 2 ≤ 2 := le_rfl
    rw [show (2 : Int) = (2 : Nat) from rfl, approxRoot_of_pos hpos hk] at h
    split at h
    · rename_i hone
      subst hone
      cases h
      decide +kernel
    · have hn := two_le_radicand hpos hk
      obtain ⟨j, hj⟩ := exists_descent (k := 2) (n := d.radicand 2) (by omega) (by omega)
      rw [rootOfMagnitude_of_descent hpos hk hj] at h
      split at h
      · have hfloor := floorSqrt_bounds (d.radicand 2)
        rw [← sq, ← sq] at hfloor
        rw [approxSqrt_eq hd, eq_of_floor hfloor hj.floor]
        exact h
      · cases h

theorem approxRoot_of_neg {d : Dec} (hd : d.raw < 0) (k steps : Int) :
    d.approxRoot k steps = ((-d).approxRoot k steps).map Neg.neg := by
  have hpos : ¬ ((-d).raw < 0) := by
    rw [raw_neg]
    omega
  simp only [approxRoot, hd, hpos, if_true, if_false]
  split <;> rfl

/-- Roots are the nearest decimals. For every root from the second on of a positive decimal, what
is returned under any cap on the steps encloses the root between the halves around it. The descent
never divides by zero and decreases until it rests at the floor of the root, so that every cap from
some number on suffices, and all caps that do return the same. Negative decimals have the roots of
their magnitudes with the sign turned, and the square root found two bits at a time is the same. -/
theorem approxRoot_nearest :
    (∀ (d : Dec) (k : Nat), 0 < d.raw → 2 ≤ k →
      (∀ steps r, d.approxRoot k steps = .ok r →
        (2 * r.raw - 1) ^ k ≤ 2 ^ k * (d.raw * scale ^ (k - 1)) ∧
          2 ^ k * (d.raw * scale ^ (k - 1)) < (2 * r.raw + 1) ^ k) ∧
      ∃ j r, Descent k (d.radicand k) j ∧
        (∀ steps : Int, j < steps → d.approxRoot k steps = .ok r) ∧
        ∀ steps r', d.approxRoot k steps = .ok r' → r' = r) ∧
    (∀ (d : Dec) (k steps : Int), d.raw < 0 →
      d.approxRoot k steps = ((-d).approxRoot k steps).map Neg.neg) ∧
    ∀ (d r : Dec) (steps : Int), 0 ≤ d.raw → d.approxRoot 2 steps = .ok r →
      d.approxSqrt = .ok r := by
  refine ⟨fun d k hd hk => ?_, fun d k steps hd => approxRoot_of_neg hd k steps,
    fun d r steps hd h => approxSqrt_of_approxRoot hd h⟩
  obtain ⟨j, r, hj, hbounds, hsuffices, hagree⟩ := exists_approxRoot hd hk
  refine ⟨fun steps r' hr' => ?_, j, r, hj, hsuffices, hagree⟩
  rw [hagree steps r' hr']
  exact hbounds

/-- The square root of two, under the usual cap and by the other way, the cube root of minus two,
and the halves around the first. -/
theorem approxRoot_nearest_two :
    ∃ r : Dec, r.raw = 1414213562373095049 ∧ (ofInt 2).approxRoot 2 rootSteps = .ok r ∧
      (2 * r.raw - 1) ^ 2 ≤ 2 ^ 2 * ((ofInt 2).raw * scale ^ (2 - 1)) ∧
      2 ^ 2 * ((ofInt 2).raw * scale ^ (2 - 1)) < (2 * r.raw + 1) ^ 2 ∧
      (∃ j, Descent 2 ((ofInt 2).radicand 2) j) ∧ (ofInt 2).approxSqrt = .ok r ∧
      (ofInt (-2)).approxRoot 3 rootSteps = ((-ofInt (-2)).approxRoot 3 rootSteps).map Neg.neg := by
  have hroot : (ofInt 2).approxRoot 2 rootSteps = .ok ⟨1414213562373095049⟩ := by decide +kernel
  obtain ⟨hpos, hneg, hsqrt⟩ := approxRoot_nearest
  obtain ⟨hbounds, j, -, hj, -, -⟩ := hpos (ofInt 2) 2 (by decide) le_rfl
  obtain ⟨hlow, hhigh⟩ := hbounds rootSteps _ hroot
  exact ⟨_, rfl, hroot, hlow, hhigh, ⟨j, hj⟩, hsqrt _ _ rootSteps (by decide) hroot,
    hneg (ofInt (-2)) 3 rootSteps (by decide)⟩

end Dec
end BondMarket
