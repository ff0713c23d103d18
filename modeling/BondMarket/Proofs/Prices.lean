import BondMarket.Proofs.Coins

/-!
What the operations on decimal amounts do to the amount of each denomination, and what rounding
and fees make of them. As for coins, a table is *proper* if no denomination occurs twice and no
amount is negative, and on proper tables every operation has a proper result.
-/

namespace BondMarket
namespace DecCoins

/-- Decimal amounts without a denomination that occurs twice and without negative amounts. -/
structure Proper (c : DecCoins) : Prop where
  distinct : (Table.keys c).Nodup
  nonneg : ∀ d x, (d, x) ∈ c → 0 ≤ x.raw

variable {a b c : DecCoins} {d : Denom}

theorem amountOf_of_mem {x : Dec} (hc : (Table.keys c).Nodup) (h : (d, x) ∈ c) :
    amountOf c d = x := by
  simp [amountOf, Table.get?_of_mem hc h]

theorem amountOf_of_not_mem (h : d ∉ Table.keys c) : amountOf c d = Dec.zero := by
  simp [amountOf, Table.get?_eq_none_iff.2 h]

theorem amountOf_cons (p : Denom × Dec) (c : DecCoins) (d : Denom) :
    amountOf (p :: c) d = if p.1 = d then p.2 else amountOf c d := by
  rw [amountOf, Table.get?_cons]
  split <;> rfl

theorem amountOf_set (c : DecCoins) (d d' : Denom) (x : Dec) :
    amountOf (Table.set c d x) d' = if d = d' then x else amountOf c d' := by
  rw [amountOf, Table.get?_set]
  split <;> rfl

theorem amountOf_sorted (c : DecCoins) (d : Denom) :
    amountOf (Table.sorted c) d = amountOf c d := by
  rw [amountOf, Table.get?_sorted, amountOf]

theorem Proper.amountOf_nonneg (h : Proper c) (d : Denom) : 0 ≤ (amountOf c d).raw := by
  by_cases hd : d ∈ Table.keys c
  · obtain ⟨x, hx⟩ := Table.mem_keys_iff.1 hd
    have hmem := Table.mem_of_get? hx
    rw [amountOf_of_mem h.distinct hmem]
    exact h.nonneg d x hmem
  · rw [amountOf_of_not_mem hd, Dec.raw_zero]

theorem proper_of_amounts (hc : (Table.keys c).Nodup) (h : ∀ d, 0 ≤ (amountOf c d).raw) :
    Proper c where
  distinct := hc
  nonneg d _ hx := amountOf_of_mem hc hx ▸ h d

theorem amountOf_mapValues {f : Dec → Dec} (hf : f Dec.zero = Dec.zero) (c : DecCoins)
    (d : Denom) : amountOf (Table.mapValues (fun _ x => f x) c) d = f (amountOf c d) := by
  rw [amountOf, Table.get?_mapValues, amountOf]
  cases Table.get? c d with
  | none => exact hf.symm
  | some x => rfl

theorem amountOf_uniform (denoms : List Denom) (x : Dec) (d : Denom) :
    amountOf (uniform denoms x) d = if d ∈ denoms then x else Dec.zero := by
  simp only [amountOf, uniform, Table.get?_ofKeys, mem_sortedTexts]
  split <;> rfl

theorem proper_uniform (denoms : List Denom) {x : Dec} (hx : 0 ≤ x.raw) :
    Proper (uniform denoms x) := by
  refine proper_of_amounts (Table.nodup_keys_ofKeys _ _) fun d => ?_
  rw [amountOf_uniform]
  split
  · exact hx
  · rw [Dec.raw_zero]

theorem distinct_of_tabulate {denoms : List Denom} {f : Denom → Result Dec}
    (h : tabulate denoms f = .ok c) : (Table.keys c).Nodup :=
  Table.keys_traverse h ▸ Table.nodup_keys_ofKeys _ _

theorem tabulate_eq_ok (denoms : List Denom) {f : Denom → Result Dec} {g : Denom → Dec}
    (hf : ∀ d ∈ denoms, f d = .ok (g d)) :
    ∃ c, tabulate denoms f = .ok c ∧
      ∀ d, amountOf c d = if d ∈ denoms then g d else Dec.zero := by
  set t : Table Denom Unit := Table.ofKeys (sortedTexts denoms) fun _ => () with ht
  have hkeys : ∀ d, d ∈ Table.keys t ↔ d ∈ denoms := fun d => by
    rw [Table.mem_keys_iff, ht]
    simp [Table.get?_ofKeys]
  have hok : tabulate denoms f = .ok (Table.mapValues (fun d _ => g d) t) :=
    Table.traverse_eq_ok fun p hp => hf p.1 ((hkeys p.1).1 (Table.mem_keys_of_mem hp))
  refine ⟨_, hok, fun d => ?_⟩
  rw [amountOf, Table.get?_mapValues, ht, Table.get?_ofKeys]
  by_cases hd : d ∈ denoms <;> simp [hd]

theorem tabulate_spec (denoms : List Denom) {f : Denom → Result Dec} {g : Denom → Dec}
    (hf : ∀ d ∈ denoms, f d = .ok (g d)) (hg : ∀ d ∈ denoms, 0 ≤ (g d).raw) :
    ∃ c, tabulate denoms f = .ok c ∧ Proper c ∧
      ∀ d, amountOf c d = if d ∈ denoms then g d else Dec.zero := by
  obtain ⟨c, hok, hamount⟩ := tabulate_eq_ok denoms hf
  refine ⟨c, hok, proper_of_amounts (distinct_of_tabulate hok) fun d => ?_, hamount⟩
  rw [hamount]
  split
  · exact hg d ‹_›
  · rw [Dec.raw_zero]

def Confined (c : DecCoins) (denoms : List Denom) : Prop := ∀ d ∉ denoms, amountOf c d = Dec.zero

theorem confined_uniform (denoms : List Denom) (x : Dec) : Confined (uniform denoms x) denoms :=
  fun d hd => (amountOf_uniform denoms x d).trans (if_neg hd)

theorem confined_of_tabulate {denoms : List Denom} {f : Denom → Result Dec}
    (h : tabulate denoms f = .ok c) : Confined c denoms := by
  refine fun d hd => amountOf_of_not_mem fun hmem => hd ?_
  rw [Table.keys_traverse h, Table.mem_keys_iff] at hmem
  obtain ⟨_, hmem⟩ := hmem
  rw [Table.get?_ofKeys] at hmem
  split at hmem
  · exact mem_sortedTexts.1 ‹_›
  · cases hmem

theorem amountOf_times (c : DecCoins) (n : Int) (d : Denom) :
    (amountOf (times c n) d).raw = (amountOf c d).raw * n := by
  have hzero : Dec.zero.times n = Dec.zero := Dec.ext (by simp)
  rw [times, amountOf_mapValues hzero, amountOf_sorted, Dec.raw_times]

theorem Confined.times {denoms : List Denom} (h : Confined c denoms) (n : Int) :
    Confined (times c n) denoms := fun d hd => Dec.ext (by
  rw [amountOf_times, h d hd, Dec.raw_zero, zero_mul])

theorem Proper.times (h : Proper c) {n : Int} (hn : 0 ≤ n) : Proper (times c n) := by
  refine proper_of_amounts ?_ fun d => ?_
  · rw [DecCoins.times, Table.keys_mapValues]
    exact Table.nodup_keys_sorted h.distinct
  · rw [amountOf_times]
    exact Int.mul_nonneg (h.amountOf_nonneg d) hn

theorem amountOf_add (hb : (Table.keys b).Nodup) (d : Denom) :
    (amountOf (add a b) d).raw = (amountOf a d).raw + (amountOf b d).raw := by
  rw [add, amountOf_sorted]
  induction b generalizing a with
  | nil => simp [amountOf]
  | cons p b ih =>
      obtain ⟨hp, hb⟩ := Table.nodup_keys_cons.1 hb
      rw [List.foldl_cons, ih hb, amountOf_set, amountOf_cons]
      by_cases hd : p.1 = d
      · subst hd
        rw [if_pos rfl, if_pos rfl, amountOf_of_not_mem hp, Dec.raw_zero, Dec.raw_add, Int.add_zero]
      · rw [if_neg hd, if_neg hd]

theorem Proper.add (ha : Proper a) (hb : Proper b) : Proper (add a b) := by
  refine proper_of_amounts (Table.nodup_keys_sorted ?_) fun d => ?_
  · have hfold : ∀ (b a : DecCoins), (Table.keys a).Nodup →
        (Table.keys (b.foldl (fun c p => Table.set c p.1 (amountOf c p.1 + p.2)) a)).Nodup := by
      intro b
      induction b with
      | nil => exact fun a ha => ha
      | cons p b ih => exact fun a ha => ih _ (Table.nodup_keys_set ha _ _)
    exact hfold b a ha.distinct
  · rw [amountOf_add hb.distinct]
    exact Int.add_nonneg (ha.amountOf_nonneg d) (hb.amountOf_nonneg d)

theorem divInt_eq_ok (c : DecCoins) {n : Int} (hn : 0 < n) :
    ∃ c', divInt c n = .ok c' ∧ Table.keys c' = Table.keys (Table.sorted c) ∧
      ∀ d, (amountOf c' d).raw = roundHalfEven (amountOf c d).raw n := by
  have hok : divInt c n =
      .ok (Table.mapValues (fun _ x => ⟨roundHalfEven x.raw n⟩) (Table.sorted c)) :=
    Table.traverse_eq_ok fun _ _ => Dec.divInt_of_ne_zero hn.ne'
  have hzero : (⟨roundHalfEven Dec.zero.raw n⟩ : Dec) = Dec.zero :=
    Dec.ext (roundHalfEven_zero hn)
  refine ⟨_, hok, Table.keys_mapValues _ _, fun d => ?_⟩
  rw [amountOf_mapValues (f := fun x => ⟨roundHalfEven x.raw n⟩) hzero, amountOf_sorted]

theorem divInt_spec (h : Proper c) {n : Int} (hn : 0 < n) :
    ∃ c', divInt c n = .ok c' ∧ Proper c' ∧
      ∀ d, (amountOf c' d).raw = roundHalfEven (amountOf c d).raw n := by
  obtain ⟨c', hok, hkeys, hamount⟩ := divInt_eq_ok c hn
  refine ⟨c', hok, proper_of_amounts ?_ fun d => ?_, hamount⟩
  · rw [hkeys]
    exact Table.nodup_keys_sorted h.distinct
  · rw [hamount]
    exact roundHalfEven_nonneg hn (h.amountOf_nonneg d)

/-! ### Rounding to coins -/

/-- Rounding every amount gives proper coins, whichever way it goes. -/
theorem normalize_rounded {f : Dec → Int} (hf : ∀ x : Dec, 0 ≤ x.raw → 0 ≤ f x)
    (hzero : f Dec.zero = 0) (h : Proper c) :
    ∃ r, Coins.normalize (Table.mapValues (fun _ x => f x) c) = .ok r ∧ r.Proper ∧
      ∀ d, r.amountOf d = f (amountOf c d) := by
  obtain ⟨r, hr, hproper, hamount⟩ := Coins.normalize_spec
    (Coins.proper_mapValues (f := fun _ x => f x) h.distinct fun d x hx => hf x (h.nonneg d x hx))
  refine ⟨r, hr, hproper, fun d => ?_⟩
  rw [hamount, Coins.amountOf_mapValues, amountOf]
  cases Table.get? c d with
  | none => exact hzero.symm
  | some x => rfl

theorem roundUp_spec (h : Proper c) :
    ∃ r, c.roundUp = .ok r ∧ r.Proper ∧ ∀ d, r.amountOf d = (amountOf c d).ceilInt :=
  normalize_rounded (fun _ => Dec.ceilInt_nonneg) (by decide) h

theorem roundDown_spec (h : Proper c) :
    ∃ r, c.roundDown = .ok r ∧ r.Proper ∧ ∀ d, r.amountOf d = (amountOf c d).floorInt :=
  normalize_rounded (fun _ => Dec.floorInt_nonneg) (by decide) h

end DecCoins

namespace Fee

/-- What is due on a value at a percentage, rounded up once. -/
def due (value percentage : Dec) : Int :=
  ceilDiv (value.raw * percentage.raw) (100 * Dec.scale * Dec.scale)

theorem due_nonneg {value percentage : Dec} (hv : 0 ≤ value.raw) (hp : 0 ≤ percentage.raw) :
    0 ≤ due value percentage := ceilDiv_nonneg (by decide) (Int.mul_nonneg hv hp)

theorem due_zero (percentage : Dec) : due Dec.zero percentage = 0 := by
  rw [due, Dec.raw_zero, zero_mul]
  rfl

theorem ofValue_eq_ok {value percentage : Dec} (hv : 0 ≤ value.raw) (hp : 0 ≤ percentage.raw) :
    ofValue value percentage = .ok (due value percentage) := by
  have hv' : value.isNegative = false := by simpa [Dec.isNegative] using hv
  have hp' : percentage.isNegative = false := by simpa [Dec.isNegative] using hp
  simp [ofValue, hv', hp', due]

theorem ofValues_spec {values : DecCoins} {percentage : Dec} (hv : values.Proper)
    (hp : 0 ≤ percentage.raw) :
    ∃ c, ofValues values percentage = .ok c ∧ c.Proper ∧
      ∀ d, c.amountOf d = due (values.amountOf d) percentage := by
  have hdue : Table.traverse (fun _ v => ofValue v percentage) values =
      .ok (Table.mapValues (fun _ v => due v percentage) values) :=
    Table.traverse_eq_ok fun p hmem => ofValue_eq_ok (hv.nonneg p.1 p.2 hmem) hp
  rw [ofValues, hdue]
  exact DecCoins.normalize_rounded (f := fun v => due v percentage)
    (fun v hnonneg => due_nonneg hnonneg hp) (due_zero percentage) hv

theorem cap_spec {fees available : Coins} (hf : fees.Proper) (ha : available.Proper) :
    ∃ c, cap fees available = .ok c ∧ c.Proper ∧
      ∀ d, c.amountOf d = min (fees.amountOf d) (available.amountOf d) := by
  obtain ⟨c, hc, hproper, hamount⟩ := Coins.normalize_spec
    (Coins.proper_mapValues (f := fun d n => min n (available.amountOf d)) hf.distinct
      fun d n hn => le_min (hf.nonneg d n hn) (ha.amountOf_nonneg d))
  refine ⟨c, hc, hproper, fun d => ?_⟩
  have hnonneg := ha.amountOf_nonneg d
  have hfee : fees.amountOf d = (Table.get? fees d).getD 0 := rfl
  rw [hamount, Coins.amountOf_mapValues, hfee]
  cases Table.get? fees d with
  | none => simp [hnonneg]
  | some n => rfl

end Fee
end BondMarket
