import BondMarket.Table
import Mathlib.Data.List.Perm.Basic
import Mathlib.Algebra.BigOperators.Group.List.Basic
import Mathlib.Data.Int.Order.Basic
import Mathlib.Tactic.Linarith

/-!
Tables with distinct keys. Where no key occurs twice, a table and its view `get?` say the same: a
pair is in the table exactly if its value is under its key. Every operation that builds tables
keeps the keys distinct.
-/

namespace BondMarket
namespace Table

variable {κ α β : Type}

@[simp] theorem keys_nil : keys ([] : Table κ α) = [] := rfl

@[simp] theorem keys_cons (p : κ × α) (t : Table κ α) : keys (p :: t) = p.1 :: keys t := rfl

theorem nodup_keys_cons {p : κ × α} {t : Table κ α} :
    (keys (p :: t)).Nodup ↔ p.1 ∉ keys t ∧ (keys t).Nodup :=
  List.nodup_cons

@[simp] theorem keys_mapValues (f : κ → α → β) (t : Table κ α) : keys (mapValues f t) = keys t := by
  simp [keys, mapValues, Function.comp_def]

theorem mem_keys_of_mem {t : Table κ α} {k : κ} {v : α} (h : (k, v) ∈ t) : k ∈ keys t :=
  List.mem_map_of_mem (f := Prod.fst) h

theorem nodup_keys_filter {t : Table κ α} (h : (keys t).Nodup) (p : κ × α → Bool) :
    (keys (t.filter p)).Nodup :=
  h.sublist (List.filter_sublist.map _)

theorem keys_traverse {ε : Type} {f : κ → α → Except ε β} {t : Table κ α} {u : Table κ β}
    (h : traverse f t = .ok u) : keys u = keys t := by
  induction t generalizing u with
  | nil =>
      cases h
      rfl
  | cons p t ih =>
      cases hp : f p.1 p.2 with
      | error e => simp [traverse, hp, bind, Except.bind] at h
      | ok w =>
          cases ht : traverse f t with
          | error e => simp [traverse, hp, ht, bind, Except.bind] at h
          | ok rest =>
              have hu : u = (p.1, w) :: rest := by
                simpa [traverse, hp, ht, bind, Except.bind, pure, Except.pure, eq_comm] using h
              rw [hu, keys_cons, keys_cons, ih ht]

theorem mem_of_traverse {ε : Type} {f : κ → α → Except ε β} {t : Table κ α} {u : Table κ β}
    (h : traverse f t = .ok u) {k : κ} {w : β} (hw : (k, w) ∈ u) :
    ∃ v, (k, v) ∈ t ∧ f k v = .ok w := by
  induction t generalizing u with
  | nil =>
      cases h
      cases hw
  | cons p t ih =>
      cases hp : f p.1 p.2 with
      | error e => simp [traverse, hp, bind, Except.bind] at h
      | ok w' =>
          cases ht : traverse f t with
          | error e => simp [traverse, hp, ht, bind, Except.bind] at h
          | ok rest =>
              have hu : u = (p.1, w') :: rest := by
                simpa [traverse, hp, ht, bind, Except.bind, pure, Except.pure, eq_comm] using h
              rw [hu, List.mem_cons] at hw
              rcases hw with hw | hw
              · cases hw
                exact ⟨p.2, List.mem_cons_self, hp⟩
              · obtain ⟨v, hv, hf⟩ := ih ht hw
                exact ⟨v, List.mem_cons_of_mem _ hv, hf⟩

theorem exists_traverse {ε : Type} {f : κ → α → Except ε β} {t : Table κ α}
    (h : ∀ k v, (k, v) ∈ t → ∃ w, f k v = .ok w) : ∃ u, traverse f t = .ok u := by
  induction t with
  | nil => exact ⟨[], rfl⟩
  | cons p t ih =>
      obtain ⟨w, hw⟩ := h p.1 p.2 List.mem_cons_self
      obtain ⟨rest, ht⟩ := ih fun k v hv => h k v (List.mem_cons_of_mem _ hv)
      exact ⟨(p.1, w) :: rest, by simp [traverse, hw, ht, bind, Except.bind, pure, Except.pure]⟩

variable [DecidableEq κ]

@[simp] theorem get?_nil (k : κ) : get? ([] : Table κ α) k = none := rfl

theorem get?_cons (p : κ × α) (t : Table κ α) (k : κ) :
    get? (p :: t) k = if p.1 = k then some p.2 else get? t k := rfl

theorem mem_of_get? {t : Table κ α} {k : κ} {v : α} (h : get? t k = some v) : (k, v) ∈ t := by
  induction t with
  | nil => cases h
  | cons p t ih =>
      rw [get?_cons] at h
      split at h
      · rename_i hk
        cases h
        exact hk ▸ List.mem_cons_self
      · exact List.mem_cons_of_mem _ (ih h)

theorem get?_of_mem {t : Table κ α} (hn : (keys t).Nodup) {k : κ} {v : α} (h : (k, v) ∈ t) :
    get? t k = some v := by
  induction t with
  | nil => cases h
  | cons p t ih =>
      obtain ⟨hp, ht⟩ := nodup_keys_cons.1 hn
      rw [get?_cons]
      rcases List.mem_cons.1 h with rfl | h
      · simp
      · have hne : p.1 ≠ k := by
          rintro rfl
          exact hp (mem_keys_of_mem h)
        rw [if_neg hne, ih ht h]

theorem get?_eq_none_congr {u : Table κ α} (h : keys u = keys t) {k : κ} :
    get? u k = none ↔ get? t k = none := by
  rw [get?_eq_none_iff, get?_eq_none_iff, h]

theorem mem_keys_iff {t : Table κ α} {k : κ} : k ∈ keys t ↔ ∃ v, get? t k = some v := by
  rw [← not_iff_not, ← get?_eq_none_iff]
  cases get? t k <;> simp

theorem mem_keys_of_get? {t : Table κ α} {k : κ} {v : α} (h : get? t k = some v) : k ∈ keys t :=
  mem_keys_iff.2 ⟨v, h⟩

theorem keys_set_of_mem {t : Table κ α} {k : κ} (h : k ∈ keys t) (v : α) :
    keys (set t k v) = keys t := by
  rw [keys_set, if_pos h]

theorem nodup_keys_set {t : Table κ α} (h : (keys t).Nodup) (k : κ) (v : α) :
    (keys (set t k v)).Nodup := by
  rw [keys_set]
  split
  · exact h
  · rename_i hk
    refine List.nodup_append.2 ⟨h, by simp, ?_⟩
    rintro a ha b hb rfl
    exact hk (List.mem_singleton.1 hb ▸ ha)

/-- Only the value that is set last counts. -/
theorem set_set (t : Table κ α) (k : κ) (v w : α) : set (set t k v) k w = set t k w := by
  induction t with
  | nil => simp [set]
  | cons p t ih =>
      by_cases hk : p.1 = k
      · simp [set, hk]
      · simp [set, hk, ih]

theorem set_of_get? {t : Table κ α} {k : κ} {v : α} (h : get? t k = some v) : set t k v = t := by
  induction t with
  | nil => cases h
  | cons p t ih =>
      rw [get?_cons] at h
      by_cases hk : p.1 = k
      · rw [if_pos hk] at h
        cases h
        simp [set, ← hk]
      · rw [if_neg hk] at h
        simp [set, hk, ih h]

theorem set_of_get?_none {t : Table κ α} {k : κ} (h : get? t k = none) (v : α) :
    set t k v = t ++ [(k, v)] := by
  induction t with
  | nil => rfl
  | cons p t ih =>
      rw [get?_cons] at h
      split at h
      · cases h
      · rename_i hk
        simp [set, hk, ih h]

/-- A key that is there keeps its place, so that setting another key before or after is the
same. -/
theorem set_comm_of_mem {t : Table κ α} {k k' : κ} (hk : k ∈ keys t) (hne : k ≠ k') (v w : α) :
    set (set t k v) k' w = set (set t k' w) k v := by
  induction t with
  | nil => cases hk
  | cons p t ih => grind [set, keys_cons]

theorem erase_set_of_ne (t : Table κ α) {k k' : κ} (hne : k ≠ k') (v : α) :
    erase (set t k v) k' = set (erase t k') k v := by
  induction t with
  | nil => simp [set, erase, hne]
  | cons p t ih => grind [set, erase]

theorem erase_comm (t : Table κ α) (k k' : κ) : erase (erase t k) k' = erase (erase t k') k := by
  simp only [erase, List.filter_filter, Bool.and_comm]

theorem mem_set {t : Table κ α} {k : κ} {v : α} {p : κ × α} (h : p ∈ set t k v) :
    p = (k, v) ∨ p ∈ t := by
  induction t with
  | nil => exact .inl (List.mem_singleton.1 h)
  | cons q t ih => grind [set]

/-- Dropping some keys leaves the values of the others, even in a table in which keys occur
twice. -/
theorem get?_filter_keys (t : Table κ α) (p : κ → Bool) {k : κ} (hk : p k = true) :
    get? (t.filter fun q => p q.1) k = get? t k := by
  induction t with
  | nil => rfl
  | cons q t ih =>
      by_cases hq : q.1 = k
      · subst hq
        simp only [List.filter_cons, hk, if_true, get?_cons]
      · rw [List.filter_cons, get?_cons, if_neg hq]
        split
        · rw [get?_cons, if_neg hq, ih]
        · exact ih

theorem get?_filter {t : Table κ α} (hn : (keys t).Nodup) (p : κ × α → Bool) (k : κ) :
    get? (t.filter p) k = (get? t k).filter fun v => p (k, v) := by
  cases hk : get? t k with
  | none =>
      rw [Option.filter_none, get?_eq_none_iff]
      exact fun h => get?_eq_none_iff.1 hk ((List.filter_sublist.map _).subset h)
  | some v =>
      have hmem := mem_of_get? hk
      cases hp : p (k, v) with
      | true =>
          have hv : Option.filter (fun v => p (k, v)) (some v) = some v := Option.filter_some_pos hp
          rw [hv]
          exact get?_of_mem (nodup_keys_filter hn p) (List.mem_filter.2 ⟨hmem, hp⟩)
      | false =>
          rw [Option.filter_some_neg (by simpa using hp), get?_eq_none_iff]
          intro h
          obtain ⟨q, hq, rfl⟩ := List.mem_map.1 h
          obtain ⟨hqt, hqp⟩ := List.mem_filter.1 hq
          have hv : v = q.2 := Option.some.inj (hk.symm.trans (get?_of_mem hn hqt))
          rw [hv, hqp] at hp
          cases hp

theorem nodup_keys_ofKeys (ks : List κ) (f : κ → α) : (keys (ofKeys ks f)).Nodup := by
  suffices h : ∀ t : Table κ α, (keys t).Nodup →
      (keys (ks.foldl (fun t k => set t k (f k)) t)).Nodup from h [] List.nodup_nil
  induction ks with
  | nil => exact fun t h => h
  | cons k ks ih => exact fun t h => ih _ (nodup_keys_set h k _)

/-! ### Sorting only changes the order -/

theorem insertSorted_perm (k : String) (v : α) (t : Table String α) :
    (insertSorted k v t).Perm ((k, v) :: t) := by
  induction t with
  | nil => rfl
  | cons p t ih =>
      simp only [insertSorted]
      split
      · rfl
      · exact (ih.cons p).trans (List.Perm.swap _ _ _)

theorem sorted_perm (t : Table String α) : (sorted t).Perm t := by
  induction t with
  | nil => rfl
  | cons p t ih => exact (insertSorted_perm _ _ _).trans (ih.cons p)

theorem nodup_keys_sorted {t : Table String α} (h : (keys t).Nodup) : (keys (sorted t)).Nodup :=
  ((sorted_perm t).map _).nodup_iff.2 h

theorem mem_sorted {t : Table String α} {p : String × α} : p ∈ sorted t ↔ p ∈ t :=
  (sorted_perm t).mem_iff

theorem pairwise_insertSorted {t : Table String α} (h : (keys t).Pairwise (· ≤ ·)) (k : String)
    (v : α) : (keys (insertSorted k v t)).Pairwise (· ≤ ·) := by
  induction t with
  | nil => exact List.pairwise_singleton _ k
  | cons p t ih =>
      obtain ⟨hp, ht⟩ := List.pairwise_cons.1 h
      simp only [insertSorted]
      split
      · rename_i hk
        refine List.pairwise_cons.2 ⟨fun b hb => ?_, h⟩
        rcases List.mem_cons.1 hb with rfl | hb
        · exact hk
        · exact String.le_trans hk (hp b hb)
      · rename_i hk
        refine List.pairwise_cons.2 ⟨fun b hb => ?_, ih ht⟩
        have hkeys : (keys (insertSorted k v t)).Perm (k :: keys t) :=
          (insertSorted_perm k v t).map _
        rcases List.mem_cons.1 (hkeys.mem_iff.1 hb) with rfl | hb
        · exact (String.le_total b p.1).resolve_left hk
        · exact hp b hb

theorem pairwise_sorted (t : Table String α) : (keys (sorted t)).Pairwise (· ≤ ·) := by
  induction t with
  | nil => exact List.Pairwise.nil
  | cons p t ih => exact pairwise_insertSorted ih p.1 p.2

theorem sorted_eq_self {t : Table String α} (h : (keys t).Pairwise (· ≤ ·)) : sorted t = t := by
  induction t with
  | nil => rfl
  | cons p t ih =>
      obtain ⟨hp, ht⟩ := List.pairwise_cons.1 h
      rw [sorted, ih ht]
      cases t with
      | nil => rfl
      | cons q t => exact if_pos (hp q.1 List.mem_cons_self)

end Table

theorem sortedTexts_perm (l : List String) : (sortedTexts l).Perm l := by
  have insert_perm (s : String) (l : List String) :
      (sortedTexts.insertText s l).Perm (s :: l) := by
    induction l with
    | nil => rfl
    | cons t l ih =>
        simp only [sortedTexts.insertText]
        split
        · rfl
        · exact (ih.cons t).trans (List.Perm.swap _ _ _)
  induction l with
  | nil => rfl
  | cons s l ih => exact (insert_perm _ _).trans (ih.cons s)

@[simp] theorem mem_sortedTexts {l : List String} {s : String} : s ∈ sortedTexts l ↔ s ∈ l :=
  (sortedTexts_perm l).mem_iff

/-- Two sums over the same distinct keys differ by what they count under the one key at which the
summands do. -/
theorem sum_map_congr_except {κ : Type} {ks : List κ} (hn : ks.Nodup) {k : κ} (hk : k ∈ ks)
    {f g : κ → Int} (h : ∀ u ∈ ks, u ≠ k → f u = g u) :
    (ks.map f).sum + g k = (ks.map g).sum + f k := by
  induction ks with
  | nil => cases hk
  | cons a ks ih =>
      obtain ⟨ha, hn⟩ := List.nodup_cons.1 hn
      rw [List.map_cons, List.map_cons, List.sum_cons, List.sum_cons]
      rcases List.mem_cons.1 hk with rfl | hk
      · have hrest : ks.map f = ks.map g := by
          refine List.map_congr_left fun u hu => h u (List.mem_cons_of_mem _ hu) ?_
          rintro rfl
          exact ha hu
        rw [hrest]
        omega
      · have hne : a ≠ k := by
          rintro rfl
          exact ha hk
        have := ih hn hk fun u hu => h u (List.mem_cons_of_mem _ hu)
        have := h a List.mem_cons_self hne
        omega

end BondMarket
