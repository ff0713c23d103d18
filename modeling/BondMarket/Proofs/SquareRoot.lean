import BondMarket.Decimal.Root
import BondMarket.Proofs.Rounding

/-!
The square root is the nearest one, and it neither falls behind nor runs ahead: when the number
below the root goes from `x ^ 2 + y` to `(x + k) ^ 2 + y`, the root changes by at most `k`.
-/

namespace BondMarket

theorem sqrtLoop_bounds (fuel n : Nat) (h : n < 4 ^ fuel) :
    sqrtLoop fuel n * sqrtLoop fuel n ≤ n ∧
      n < (sqrtLoop fuel n + 1) * (sqrtLoop fuel n + 1) := by
  induction fuel generalizing n with
  | zero =>
      obtain rfl : n = 0 := by simpa using h
      simp [sqrtLoop]
  | succ fuel ih =>
      by_cases hn : n = 0
      · subst hn
        simp [sqrtLoop]
      · have hquarter : n / 4 < 4 ^ fuel := by
          rw [pow_succ] at h
          omega
        obtain ⟨hlow, hhigh⟩ := ih (n / 4) hquarter
        simp only [sqrtLoop, hn, if_false]
        set q := sqrtLoop fuel (n / 4)
        have hmul : 4 * (n / 4) ≤ n := Nat.mul_div_le n 4
        have hlt : n < 4 * (n / 4) + 4 := by omega
        split
        · rename_i hle
          exact ⟨hle, by nlinarith⟩
        · rename_i hgt
          exact ⟨by nlinarith, by omega⟩

theorem floorSqrt_bounds (n : Nat) :
    floorSqrt n * floorSqrt n ≤ n ∧ n < (floorSqrt n + 1) * (floorSqrt n + 1) := by
  refine sqrtLoop_bounds (n.log2 + 1) n ?_
  calc n < 2 ^ (n.log2 + 1) := Nat.lt_log2_self
    _ ≤ 4 ^ (n.log2 + 1) := Nat.pow_le_pow_left (by omega) _

/-- A natural number nearest to the root of `n`: the halves around it enclose the root. -/
def NearestRoot (r n : Int) : Prop :=
  0 ≤ r ∧ n ≤ r * r + r ∧ r * r ≤ n + r

theorem NearestRoot.abs_le {r n x : Int} (hr : NearestRoot r n) (hx : x * x < n) :
    -r ≤ x ∧ x ≤ r := by
  obtain ⟨hpos, hle, -⟩ := hr
  constructor
  · by_contra hlt
    nlinarith
  · by_contra hlt
    nlinarith

/-- The root follows the number below it: a step of the base by `k` lets it fall by at most `k`. -/
theorem NearestRoot.le_add {r r' n n' x k : Int} (hr : NearestRoot r n) (hr' : NearestRoot r' n')
    (hk : 0 < k) (hx : x * x < n) (hn : n' = n + 2 * x * k + k * k) : r ≤ r' + k := by
  have hbase := (hr.abs_le hx).1
  obtain ⟨hpos, hle, hlow⟩ := hr
  obtain ⟨hpos', hle', -⟩ := hr'
  by_contra hlt
  have hstep : r' + 1 ≤ r - k := by omega
  have hroom : r' * r' + r' ≤ (r - k) * (r - k) - (r - k) := by nlinarith
  -- Either the base is the root itself, or the distance between them pays for the rounding.
  obtain hfar | hnear : -x ≤ r - 1 ∨ -x = r := by omega
  · have hcross : 2 * (-x) * k ≤ 2 * (r - 1) * k := by nlinarith
    nlinarith
  · have hsquare : n' = n - x * x + (r - k) * (r - k) := by
      rw [hn, ← hnear]
      ring
    omega

theorem NearestRoot.add_le {r r' n n' x k : Int} (hr : NearestRoot r n) (hr' : NearestRoot r' n')
    (hk : 0 < k) (hx : (x + k) * (x + k) < n') (hn : n' = n + 2 * x * k + k * k) : r' ≤ r + k := by
  refine hr'.le_add hr hk (x := -(x + k)) ?_ ?_
  · rwa [neg_mul_neg]
  · rw [hn]
    ring

namespace Dec

theorem approxSqrt_spec {d : Dec} (hd : 0 ≤ d.raw) :
    ∃ r, d.approxSqrt = .ok r ∧ NearestRoot r.raw (d.raw * scale) := by
  obtain ⟨n, hn⟩ := Int.eq_ofNat_of_zero_le (Int.mul_nonneg hd scale_pos.le)
  obtain ⟨hlow, hhigh⟩ := floorSqrt_bounds n
  have hnat : (d.raw * scale).toNat = n := by rw [hn, Int.toNat_natCast]
  have hroot : d.approxSqrt = .ok
      ⟨if floorSqrt n < n - floorSqrt n * floorSqrt n then floorSqrt n + 1 else floorSqrt n⟩ := by
    simp only [approxSqrt, not_lt.2 hd, if_false, hnat]
  refine ⟨_, hroot, ?_⟩
  rw [hn]
  generalize floorSqrt n = f at hlow hhigh
  have hsquare : ((f * f : Nat) : Int) = (f : Int) * f := Nat.cast_mul f f
  have hnext : (n : Int) < (f + 1) * (f + 1) := by exact_mod_cast hhigh
  by_cases hup : f < n - f * f
  · simp only [hup, if_true]
    have hlt : (f : Int) * f + f < n := by omega
    exact ⟨by omega, by linarith, by linarith⟩
  · simp only [hup, if_false]
    have hge : (n : Int) ≤ f * f + f := by omega
    exact ⟨by omega, hge, by omega⟩

end Dec
end BondMarket
