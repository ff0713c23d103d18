import BondMarket.Fee
import BondMarket.Proofs.Action
import BondMarket.Proofs.Rounding
import BondMarket.Proofs.Table
import Mathlib.Data.String.Basic

/-!
What the operations on amounts of several denominations do to the amount of each denomination.

A table is *proper* if no denomination occurs twice and no amount is negative. On proper tables
every operation here has a result, the result is proper, and its amounts are those of the
operands, combined one denomination at a time.

A table in *normal form* is a proper one in the order of its denominations, with no amount of zero.
Every proper table has a normal form, and a normal form is its own.
-/

namespace BondMarket
namespace Coins

/-- Coins without a denomination that occurs twice and without negative amounts. -/
structure Proper (c : Coins) : Prop where
  distinct : (Table.keys c).Nodup
  nonneg : ∀ d n, (d, n) ∈ c → 0 ≤ n

variable {a b c : Coins} {d : Denom}

@[simp] theorem amountOf_nil (d : Denom) : amountOf [] d = 0 := rfl

theorem amountOf_cons (p : Denom × Int) (c : Coins) (d : Denom) :
    amountOf (p :: c) d = if p.1 = d then p.2 else amountOf c d := by
  rw [amountOf, Table.get?_cons]
  split <;> rfl

theorem proper_nil : Proper [] where
  distinct := List.nodup_nil
  nonneg := by simp

theorem amountOf_of_mem {n : Int} (hc : (Table.keys c).Nodup) (h : (d, n) ∈ c) :
    amountOf c d = n := by
  simp [amountOf, Table.get?_of_mem hc h]

theorem amountOf_of_not_mem (h : d ∉ Table.keys c) : amountOf c d = 0 := by
  simp [amountOf, Table.get?_eq_none_iff.2 h]

theorem Proper.amountOf_nonneg (h : Proper c) (d : Denom) : 0 ≤ amountOf c d := by
  by_cases hd : d ∈ Table.keys c
  · obtain ⟨n, hn⟩ := Table.mem_keys_iff.1 hd
    have hmem := Table.mem_of_get? hn
    rw [amountOf_of_mem h.distinct hmem]
    exact h.nonneg d n hmem
  · rw [amountOf_of_not_mem hd]

theorem proper_of_amounts (hc : (Table.keys c).Nodup) (h : ∀ d, 0 ≤ amountOf c d) :
    Proper c where
  distinct := hc
  nonneg d _ hn := amountOf_of_mem hc hn ▸ h d

theorem amountOf_sorted (c : Coins) (d : Denom) : amountOf (Table.sorted c) d = amountOf c d := by
  rw [amountOf, Table.get?_sorted, amountOf]

theorem amountOf_dropZeros (hc : (Table.keys c).Nodup) (d : Denom) :
    amountOf c.dropZeros d = amountOf c d := by
  rw [amountOf, dropZeros, Table.get?_filter hc, amountOf]
  cases Table.get? c d with
  | none => rfl
  | some n => by_cases hn : n = 0 <;> simp [hn, Option.filter]

theorem Proper.dropZeros (h : Proper c) : Proper c.dropZeros where
  distinct := Table.nodup_keys_filter h.distinct _
  nonneg d n hn := h.nonneg d n (List.mem_filter.1 hn).1

theorem Proper.sorted (h : Proper c) : Proper (Table.sorted c) where
  distinct := Table.nodup_keys_sorted h.distinct
  nonneg d n hn := h.nonneg d n (Table.mem_sorted.1 hn)

/-! ### Normal forms -/

theorem checkAmount_eq_ok {e : Option Int} {n : Int} (h : checkAmount d e = .ok n) :
    e = some n ∧ 0 ≤ n := by
  cases e with
  | none => cases h
  | some k =>
      simp only [checkAmount] at h
      split at h
      · cases h
      · cases h
        exact ⟨rfl, by omega⟩

theorem ofEntries_eq_ok {es : CoinEntries} (h : ofEntries es = .ok c) :
    ∃ t, Table.traverse checkAmount (Table.sorted es) = .ok t ∧ c = dropZeros t := by
  unfold ofEntries at h
  cases ht : Table.traverse checkAmount (Table.sorted es) with
  | error e => simp [ht, Except.map] at h
  | ok t => exact ⟨t, rfl, by simpa [ht, Except.map, eq_comm] using h⟩

theorem nonneg_of_ofEntries {es : CoinEntries} (h : ofEntries es = .ok c) {n : Int}
    (hn : (d, n) ∈ c) : 0 ≤ n := by
  obtain ⟨t, ht, rfl⟩ := ofEntries_eq_ok h
  obtain ⟨e, -, he⟩ := Table.mem_of_traverse ht (List.mem_filter.1 hn).1
  exact (checkAmount_eq_ok he).2

theorem proper_of_ofEntries {es : CoinEntries} (h : ofEntries es = .ok c)
    (hes : (Table.keys es).Nodup) : Proper c := by
  refine ⟨?_, fun _ _ hn => nonneg_of_ofEntries h hn⟩
  obtain ⟨t, ht, rfl⟩ := ofEntries_eq_ok h
  exact Table.nodup_keys_filter (Table.keys_traverse ht ▸ Table.nodup_keys_sorted hes) _

/-- Of what is accepted of a request, no amount is zero. -/
theorem amountOf_pos_of_ofEntries {es : CoinEntries} (h : ofEntries es = .ok c) (hc : Proper c)
    (hd : d ∈ Table.keys c) : 0 < c.amountOf d := by
  obtain ⟨n, hn⟩ := Table.mem_keys_iff.1 hd
  have hmem := Table.mem_of_get? hn
  have hnonneg := hc.nonneg d n hmem
  rw [amountOf_of_mem hc.distinct hmem]
  obtain ⟨t, -, rfl⟩ := ofEntries_eq_ok h
  have hne : n ≠ 0 := by simpa using (List.mem_filter.1 hmem).2
  omega

theorem traverse_checkAmount (h : Proper c) :
    Table.traverse checkAmount (Table.sorted c.entries) = .ok (Table.sorted c) := by
  have insert_entries (d : Denom) (n : Int) (t : Coins) :
      Table.insertSorted d (some n) t.entries = entries (Table.insertSorted d n t) := by
    induction t with
    | nil => rfl
    | cons p t ih =>
        simp only [entries, Table.mapValues, List.map_cons, Table.insertSorted] at ih ⊢
        split
        · rfl
        · rw [List.map_cons, ih]
  have sorted_entries (t : Coins) : Table.sorted t.entries = entries (Table.sorted t) := by
    induction t with
    | nil => rfl
    | cons p t ih =>
        simp only [entries, Table.mapValues, List.map_cons, Table.sorted] at ih ⊢
        rw [ih]
        exact insert_entries p.1 p.2 (Table.sorted t)
  have traverse_entries (t : Coins) (ht : ∀ d n, (d, n) ∈ t → 0 ≤ n) :
      Table.traverse checkAmount t.entries = .ok t := by
    induction t with
    | nil => rfl
    | cons p t ih =>
        have hp : ¬ p.2 < 0 := not_lt.2 (ht p.1 p.2 List.mem_cons_self)
        have hrest := ih fun d n hn => ht d n (List.mem_cons_of_mem _ hn)
        simp only [entries, Table.mapValues, List.map_cons, Table.traverse] at hrest ⊢
        simp [hrest, checkAmount, hp, bind, Except.bind, pure, Except.pure]
  rw [sorted_entries]
  exact traverse_entries _ h.sorted.nonneg

theorem normalize_eq (h : Proper c) : normalize c = .ok (dropZeros (Table.sorted c)) := by
  simp [normalize, ofEntries, traverse_checkAmount h, Except.map]

theorem normalize_spec (h : Proper c) :
    ∃ c', normalize c = .ok c' ∧ Proper c' ∧ ∀ d, amountOf c' d = amountOf c d := by
  refine ⟨dropZeros (Table.sorted c), normalize_eq h, h.sorted.dropZeros, fun d => ?_⟩
  rw [amountOf_dropZeros h.sorted.distinct, amountOf_sorted]

/-- Coins as sums and differences leave them: the denominations in increasing order, and under each
an amount above zero. -/
structure Normal (c : Coins) : Prop where
  increasing : (Table.keys c).Pairwise (· < ·)
  positive : ∀ d n, (d, n) ∈ c → 0 < n

theorem Normal.proper (h : Normal c) : Proper c where
  distinct := h.increasing.imp ne_of_lt
  nonneg d n hn := (h.positive d n hn).le

theorem Normal.sorted_eq (h : Normal c) : Table.sorted c = c :=
  Table.sorted_eq_self (h.increasing.imp le_of_lt)

theorem Normal.dropZeros_eq (h : Normal c) : c.dropZeros = c :=
  List.filter_eq_self.2 fun p hp => decide_eq_true (h.positive p.1 p.2 hp).ne'

theorem Normal.normalize_eq (h : Normal c) : normalize c = .ok c := by
  rw [Coins.normalize_eq h.proper, h.sorted_eq, h.dropZeros_eq]

theorem Proper.normal (h : Proper c) : Normal (Coins.dropZeros (Table.sorted c)) := by
  have hproper := h.sorted.dropZeros
  refine ⟨?_, fun d n hn => ?_⟩
  · have hle : (Table.keys (Coins.dropZeros (Table.sorted c))).Pairwise (· ≤ ·) :=
      (Table.pairwise_sorted c).sublist (List.filter_sublist.map _)
    exact (hle.and hproper.distinct).imp fun h => lt_of_le_of_ne h.1 h.2
  · have hne : n ≠ 0 := by simpa using (List.mem_filter.1 hn).2
    exact lt_of_le_of_ne (hproper.nonneg d n hn) hne.symm

theorem normal_of_normalize (h : Proper c) {c' : Coins} (hc : normalize c = .ok c') :
    Normal c' ∧ Table.keys c' ⊆ Table.keys c := by
  rw [Coins.normalize_eq h] at hc
  cases hc
  refine ⟨h.normal, fun d hd => ?_⟩
  have hsorted : d ∈ Table.keys (Table.sorted c) := (List.filter_sublist.map _).subset hd
  exact ((Table.sorted_perm c).map _).mem_iff.1 hsorted

theorem Normal.mem_iff (h : Normal c) {n : Int} : (d, n) ∈ c ↔ amountOf c d = n ∧ 0 < n := by
  constructor
  · intro hmem
    exact ⟨amountOf_of_mem h.proper.distinct hmem, h.positive d n hmem⟩
  · rintro ⟨rfl, hpos⟩
    by_cases hd : d ∈ Table.keys c
    · obtain ⟨n, hn⟩ := Table.mem_keys_iff.1 hd
      have hmem := Table.mem_of_get? hn
      rwa [amountOf_of_mem h.proper.distinct hmem]
    · rw [amountOf_of_not_mem hd] at hpos
      exact absurd hpos (lt_irrefl 0)

/-- A normal form is known by its amounts. -/
theorem Normal.ext (ha : Normal a) (hb : Normal b) (h : ∀ d, amountOf a d = amountOf b d) :
    a = b := by
  have hperm : a.Perm b := by
    refine (List.perm_ext_iff_of_nodup (.of_map _ ha.proper.distinct)
      (.of_map _ hb.proper.distinct)).2 fun p => ?_
    rw [ha.mem_iff, hb.mem_iff, h]
  have hincreasing : ∀ {c : Coins}, Normal c → c.Pairwise fun p q => p.1 < q.1 :=
    fun hc => List.pairwise_map.1 hc.increasing
  exact List.Perm.eq_of_pairwise (fun _ _ _ _ hlt hgt => absurd hgt (lt_asymm hlt))
    (hincreasing ha) (hincreasing hb) hperm

theorem normalize_congr (ha : Proper a) (hb : Proper b)
    (h : ∀ d, amountOf a d = amountOf b d) : normalize a = normalize b := by
  obtain ⟨a', hok, -, hamount⟩ := normalize_spec ha
  obtain ⟨b', hok', -, hamount'⟩ := normalize_spec hb
  have hsame : a' = b' :=
    (normal_of_normalize ha hok).1.ext (normal_of_normalize hb hok').1 fun d => by
      rw [hamount, hamount', h]
  rw [hok, hok', hsame]

/-! ### Sums and differences -/

@[simp] theorem keys_entries (c : Coins) : Table.keys c.entries = Table.keys c :=
  Table.keys_mapValues _ c

theorem nodup_keys_addEntries (ha : (Table.keys a).Nodup) (b : Coins) :
    (Table.keys (addEntries a b)).Nodup := by
  induction b generalizing a with
  | nil => exact ha
  | cons p b ih => exact ih (Table.nodup_keys_set ha _ _)

theorem proper_addEntries (ha : Proper a) (hb : Proper b) : Proper (addEntries a b) := by
  refine proper_of_amounts (nodup_keys_addEntries ha.distinct b) fun d => ?_
  rw [amountOf_addEntries a b d hb.distinct]
  exact Int.add_nonneg (ha.amountOf_nonneg d) (hb.amountOf_nonneg d)

theorem add_spec (ha : Proper a) (hb : Proper b) :
    ∃ c, add a b = .ok c ∧ Proper c ∧ ∀ d, amountOf c d = amountOf a d + amountOf b d := by
  obtain ⟨c, hc, hproper, hamount⟩ := normalize_spec (proper_addEntries ha hb)
  exact ⟨c, hc, hproper, fun d => (hamount d).trans (amountOf_addEntries a b d hb.distinct)⟩

theorem subEntries_spec (ha : (Table.keys a).Nodup) (hb : (Table.keys b).Nodup)
    (h : ∀ d n, (d, n) ∈ b → n ≤ amountOf a d) :
    ∃ c, subEntries a b = .ok c ∧ (Table.keys c).Nodup ∧
      ∀ d, amountOf c d = amountOf a d - amountOf b d := by
  induction b generalizing a with
  | nil => exact ⟨a, rfl, ha, by simp⟩
  | cons p b ih =>
      obtain ⟨hp, hb⟩ := Table.nodup_keys_cons.1 hb
      have hle := h p.1 p.2 List.mem_cons_self
      have hrest : ¬ amountOf a p.1 - p.2 < 0 := by omega
      obtain ⟨c, hc, hn, hamount⟩ :=
        ih (Table.nodup_keys_set ha p.1 (amountOf a p.1 - p.2)) hb fun d n hn => by
          have hne : p.1 ≠ d := by
            rintro rfl
            exact hp (Table.mem_keys_of_mem hn)
          rw [amountOf_set, if_neg hne]
          exact h d n (List.mem_cons_of_mem _ hn)
      refine ⟨c, by simpa [subEntries, hrest] using hc, hn, fun d => ?_⟩
      rw [hamount, amountOf_set, amountOf_cons]
      by_cases hd : p.1 = d
      · subst hd
        rw [if_pos rfl, if_pos rfl, amountOf_of_not_mem hp, Int.sub_zero]
      · rw [if_neg hd, if_neg hd]

theorem exists_subEntries (ha : Proper a) (hb : Proper b)
    (h : ∀ d, amountOf b d ≤ amountOf a d) :
    ∃ c, subEntries a b = .ok c ∧ Proper c ∧ ∀ d, amountOf c d = amountOf a d - amountOf b d := by
  obtain ⟨c, hc, hn, hdiff⟩ := subEntries_spec ha.distinct hb.distinct fun d n hn => by
    rw [← amountOf_of_mem hb.distinct hn]
    exact h d
  refine ⟨c, hc, proper_of_amounts hn fun d => ?_, hdiff⟩
  have := h d
  rw [hdiff]
  omega

theorem sub_spec (ha : Proper a) (hb : Proper b) (h : ∀ d, amountOf b d ≤ amountOf a d) :
    ∃ c, sub a b = .ok c ∧ Proper c ∧ ∀ d, amountOf c d = amountOf a d - amountOf b d := by
  obtain ⟨c, hc, hproper, hdiff⟩ := exists_subEntries ha hb h
  obtain ⟨c', hc', hproper', hamount⟩ := normalize_spec hproper
  exact ⟨c', by simpa [sub, hc] using hc', hproper', fun d => (hamount d).trans (hdiff d)⟩

theorem anyAbove_eq_false_iff (ha : Proper a) (hb : Proper b) :
    anyAbove a b = false ↔ ∀ d, amountOf a d ≤ amountOf b d := by
  simp only [anyAbove, List.any_eq_false, decide_eq_true_eq, not_lt]
  constructor
  · intro h d
    by_cases hd : d ∈ Table.keys a
    · obtain ⟨n, hn⟩ := Table.mem_keys_iff.1 hd
      have hmem := Table.mem_of_get? hn
      rw [amountOf_of_mem ha.distinct hmem]
      exact h _ hmem
    · rw [amountOf_of_not_mem hd]
      exact hb.amountOf_nonneg d
  · intro h p hp
    rw [← amountOf_of_mem ha.distinct hp]
    exact h p.1

theorem amountOf_mapValues {α : Type} (f : Denom → α → Int) (t : Table Denom α) (d : Denom) :
    amountOf (Table.mapValues f t) d = ((Table.get? t d).map (f d)).getD 0 := by
  rw [amountOf, Table.get?_mapValues]

theorem proper_mapValues {α : Type} {f : Denom → α → Int} {t : Table Denom α}
    (ht : (Table.keys t).Nodup) (h : ∀ d v, (d, v) ∈ t → 0 ≤ f d v) :
    Proper (Table.mapValues f t) := by
  refine ⟨by simpa using ht, fun d n hn => ?_⟩
  obtain ⟨p, hp, heq⟩ := List.mem_map.1 hn
  cases heq
  exact h p.1 p.2 hp


end Coins

namespace Coin

theorem amountOf_toCoins (c : Coin) (d : Denom) :
    c.toCoins.amountOf d = if c.denom = d then (c.amount : Int) else 0 := by
  unfold toCoins
  by_cases hc : c.amount = 0 <;> simp [hc, Coins.amountOf_cons]

theorem proper_toCoins (c : Coin) : c.toCoins.Proper := by
  unfold toCoins
  split
  · exact Coins.proper_nil
  · exact ⟨by simp, by simp⟩

end Coin
end BondMarket
