import BondMarket.Proofs.Atomicity
import Mathlib.Algebra.BigOperators.Group.Finset.Piecewise
import Mathlib.Algebra.Order.BigOperators.Group.Finset

/-!
The books of the ledger. In every ledger that calls have made from an empty one, the total of a
denomination is the sum of the balances of all accounts, and only balances above zero have an
entry. From this follows what a call may fail for: a debit of valid coins is refused exactly if
some denomination is not covered, and no write of a call that is not refused can fail.
-/

namespace BondMarket

/-! ### Requests -/

namespace LedgerCall

def Distinct (call : LedgerCall) : Prop := (Table.keys call.entries).Nodup

instance (call : LedgerCall) : Decidable call.Distinct :=
  inferInstanceAs (Decidable (Table.keys call.entries).Nodup)

def accounts : LedgerCall → List Account
  | mint x _ | burn x _ => [x]
  | transfer x y _ => [x, y]

def Valid (call : LedgerCall) : Prop := ∀ p ∈ call.entries, ∃ n, p.2 = some n ∧ 0 ≤ n

end LedgerCall

namespace Coins

variable {es : CoinEntries} {c : Coins}

theorem exists_ofEntries (h : ∀ p ∈ es, ∃ n, p.2 = some n ∧ 0 ≤ n) :
    ∃ c, ofEntries es = .ok c := by
  obtain ⟨t, ht⟩ := Table.exists_traverse (f := checkAmount) (t := Table.sorted es) fun d e he => by
    obtain ⟨n, hn, hnonneg⟩ := h (d, e) (Table.mem_sorted.1 he)
    cases hn
    exact ⟨n, by simp only [checkAmount, not_lt.2 hnonneg, if_false]⟩
  exact ⟨Coins.dropZeros t, by simp only [ofEntries, ht, Except.map]⟩

theorem mem_ofEntries_iff (hes : (Table.keys es).Nodup) (h : ofEntries es = .ok c) {d : Denom}
    {n : Int} : (d, n) ∈ c ↔ (d, some n) ∈ es ∧ n ≠ 0 := by
  obtain ⟨t, ht, rfl⟩ := ofEntries_eq_ok h
  rw [dropZeros, List.mem_filter, decide_eq_true_iff]
  refine and_congr_left fun _ => ⟨fun hmem => ?_, fun hmem => ?_⟩
  · obtain ⟨e, he, hcheck⟩ := Table.mem_of_traverse ht hmem
    exact (checkAmount_eq_ok hcheck).1 ▸ Table.mem_sorted.1 he
  · have hget := Table.get?_of_mem (Table.nodup_keys_sorted hes) (Table.mem_sorted.2 hmem)
    obtain ⟨w, hcheck, hw⟩ := Table.get?_of_traverse ht hget
    cases (checkAmount_eq_ok hcheck).1
    exact Table.mem_of_get? hw

end Coins

namespace Ledger

variable {l l' : Ledger} {call : LedgerCall}

/-- The first denomination that falls short is named, with what there is and what is asked for. -/
theorem eq_insufficientFunds_of_covers {a : Account} {c : Coins} {e : Error}
    (h : l.covers a c = .error e) : ∃ p ∈ c, l.balanceOf a p.1 < p.2 ∧
      e = .insufficientFunds a p.1 (l.balanceOf a p.1) p.2 := by
  induction c with
  | nil => cases h
  | cons p c ih =>
      simp only [covers] at h
      split at h
      · rename_i hshort
        cases h
        exact ⟨p, List.mem_cons_self, hshort, rfl⟩
      · obtain ⟨q, hq, hshort⟩ := ih h
        exact ⟨q, List.mem_cons_of_mem _ hq, hshort⟩

theorem run_eq_error_iff {x : Account} (hx : call.payer = some x) {c : Coins}
    (hc : Coins.ofEntries call.entries = .ok c) {e : Error} :
    l.run call = .error e ↔ l.covers x c = .error e := by
  cases call with
  | mint a es => cases hx
  | burn a es =>
      cases hx
      have hc : Coins.ofEntries es = .ok c := hc
      rw [run_burn hc]
      cases l.covers x c <;> simp [Except.map]
  | transfer a b es =>
      cases hx
      have hc : Coins.ofEntries es = .ok c := hc
      rw [run_transfer hc]
      cases l.covers x c <;> simp [Except.map]

/-! ### The books -/

/-- The total of a denomination is what all accounts hold of it, and what they hold is recorded
without entries that are not positive. -/
structure Booked (l : Ledger) : Prop where
  distinct : (Table.keys l.entries).Nodup
  nonzero : ∀ p ∈ l.entries, p.2 ≠ 0
  solvent : l.Solvent
  conserved : ∀ d, l.totalSupply d = ∑ a ∈ l.accounts.toFinset, l.balanceOf a d

theorem booked_empty : Booked {} where
  distinct := List.nodup_nil
  nonzero := by simp
  solvent _ _ := le_rfl
  conserved _ := rfl

theorem balanceOf_of_not_mem_accounts {a : Account} (ha : a ∉ l.accounts) (d : Denom) :
    l.balanceOf a d = 0 := by
  by_contra hne
  obtain ⟨p, hp, hkey⟩ := List.mem_map.1 (mem_keys_of_balance hne)
  refine ha (List.mem_eraseDups.2 (List.mem_map.2 ⟨p, hp, ?_⟩))
  rw [hkey]

/-- Accounts that hold nothing may be counted as well. -/
theorem sum_balanceOf {S : Finset Account} (hS : l.accounts.toFinset ⊆ S) (d : Denom) :
    ∑ a ∈ S, l.balanceOf a d = ∑ a ∈ l.accounts.toFinset, l.balanceOf a d := by
  refine (Finset.sum_subset hS fun a _ ha => ?_).symm
  exact balanceOf_of_not_mem_accounts (fun h => ha (List.mem_toFinset.2 h)) d

theorem sum_flow {S : Finset Account} (call : LedgerCall) (d : Denom)
    (hS : ∀ a ∈ call.accounts, a ∈ S) : ∑ a ∈ S, call.flow a d = call.made d := by
  have hpart {x : Account} (hx : x ∈ S) (n : Int) : (∑ a ∈ S, if x = a then n else 0) = n := by
    rw [Finset.sum_ite_eq, if_pos hx]
  cases call with
  | mint x es => exact hpart (hS x (by simp [LedgerCall.accounts])) _
  | burn x es =>
      simp only [LedgerCall.flow, LedgerCall.made, Finset.sum_neg_distrib]
      rw [hpart (hS x (by simp [LedgerCall.accounts]))]
  | transfer x y es =>
      simp only [LedgerCall.flow, LedgerCall.made, Finset.sum_sub_distrib]
      rw [hpart (hS y (by simp [LedgerCall.accounts])),
        hpart (hS x (by simp [LedgerCall.accounts])), sub_self]

theorem entries_foldl_put (f : Ledger → Denom × Int → Int) (a : Account) (c : Coins)
    (hn : (Table.keys l.entries).Nodup) (hz : ∀ p ∈ l.entries, p.2 ≠ 0) :
    (Table.keys (c.foldl (fun l p => l.put a p.1 (f l p)) l).entries).Nodup ∧
      ∀ p ∈ (c.foldl (fun l p => l.put a p.1 (f l p)) l).entries, p.2 ≠ 0 := by
  induction c generalizing l with
  | nil => exact ⟨hn, hz⟩
  | cons p c ih =>
      rw [List.foldl_cons]
      refine ih ?_ ?_ <;> unfold put <;> dsimp only <;> split
      · exact Table.nodup_keys_filter hn _
      · exact Table.nodup_keys_set hn _ _
      · exact fun q hq => hz q (List.mem_filter.1 hq).1
      · rename_i hne
        intro q hq
        rcases Table.mem_set hq with rfl | hq
        · exact hne
        · exact hz q hq

theorem Booked.entries_run (h : l.Booked) (hrun : l.run call = .ok l') :
    (Table.keys l'.entries).Nodup ∧ ∀ p ∈ l'.entries, p.2 ≠ 0 := by
  cases call with
  | mint x es =>
      obtain ⟨c, -, hl'⟩ := Result.bind_eq_ok.1 hrun
      cases hl'
      exact entries_foldl_put _ x c h.distinct h.nonzero
  | burn x es =>
      obtain ⟨c, -, hrun⟩ := Result.bind_eq_ok.1 hrun
      obtain ⟨-, -, hl'⟩ := Result.bind_eq_ok.1 hrun
      cases hl'
      exact entries_foldl_put _ x c h.distinct h.nonzero
  | transfer x y es =>
      obtain ⟨c, -, hrun⟩ := Result.bind_eq_ok.1 hrun
      obtain ⟨-, -, hl'⟩ := Result.bind_eq_ok.1 hrun
      cases hl'
      obtain ⟨hdistinct, hnonzero⟩ := entries_foldl_put _ x c h.distinct h.nonzero
      exact entries_foldl_put _ y c hdistinct hnonzero

theorem ran_of_distinct (hl : l.Solvent) (hcall : call.Distinct) (hrun : l.run call = .ok l') :
    l.Ran l' call :=
  run_spec call hl (fun _ hc => Coins.proper_of_ofEntries hc hcall) hrun

theorem Booked.run (h : l.Booked) (hcall : call.Distinct) (hrun : l.run call = .ok l') :
    l'.Booked := by
  have hran := ran_of_distinct h.solvent hcall hrun
  obtain ⟨hdistinct, hnonzero⟩ := h.entries_run hrun
  refine ⟨hdistinct, hnonzero, hran.solvent, fun d => ?_⟩
  -- Both sums are taken over all accounts that either ledger or the call knows.
  set S := l.accounts.toFinset ∪ l'.accounts.toFinset ∪ call.accounts.toFinset with hS
  have hold : l.accounts.toFinset ⊆ S := by
    intro a ha
    simp only [hS, Finset.mem_union, ha, true_or]
  have hnew : l'.accounts.toFinset ⊆ S := by
    intro a ha
    simp only [hS, Finset.mem_union, ha, true_or, or_true]
  have hnamed : ∀ a ∈ call.accounts, a ∈ S := by
    intro a ha
    simp only [hS, Finset.mem_union, List.mem_toFinset, ha, or_true]
  calc l'.totalSupply d = l.totalSupply d + call.made d := hran.total d
    _ = ∑ a ∈ S, l.balanceOf a d + ∑ a ∈ S, call.flow a d := by
      rw [h.conserved, sum_balanceOf hold, sum_flow call d hnamed]
    _ = ∑ a ∈ S, l'.balanceOf a d := by
      rw [← Finset.sum_add_distrib]
      exact Finset.sum_congr rfl fun a _ => (hran.balance a d).symm
    _ = ∑ a ∈ l'.accounts.toFinset, l'.balanceOf a d := sum_balanceOf hnew d

theorem Booked.positive (h : l.Booked) : ∀ p ∈ l.entries, 0 < p.2 := by
  rintro ⟨⟨a, d⟩, n⟩ hp
  have hbalance : l.balanceOf a d = n := by
    rw [balanceOf, Table.get?_of_mem h.distinct hp, Option.getD_some]
  have := h.solvent a d
  have := h.nonzero _ hp
  dsimp only at this ⊢
  omega

theorem Booked.mem_totals (h : l.Booked) {a : Account} {d : Denom} (hne : l.balanceOf a d ≠ 0) :
    d ∈ Table.keys l.totals := by
  by_contra hd
  have hnone : l.totalSupply d = 0 := Coins.amountOf_of_not_mem hd
  rw [h.conserved, Finset.sum_eq_zero_iff_of_nonneg fun a _ => h.solvent a d] at hnone
  by_cases ha : a ∈ l.accounts
  · exact hne (hnone a (List.mem_toFinset.2 ha))
  · exact hne (balanceOf_of_not_mem_accounts ha d)

theorem Booked.post_eq_atOnce (h : l.Booked) (hcall : call.Distinct) :
    Posting.post call l = Posting.atOnce call l :=
  Posting.post_eq_atOnce h.solvent (fun _ _ => h.mem_totals) hcall

/-! ### Runs of calls -/

def after (l : Ledger) (call : LedgerCall) : Ledger :=
  match Posting.post call l with
  | .ok () l' => l'
  | .error _ l' => l'

/-- The ledger that a list of calls makes from the empty one. -/
def replay (calls : List LedgerCall) : Ledger := calls.foldl after {}

theorem Booked.after (h : l.Booked) (hcall : call.Distinct) : (l.after call).Booked := by
  rw [Ledger.after, h.post_eq_atOnce hcall, Posting.atOnce]
  cases hrun : l.run call with
  | ok l' => exact h.run hcall hrun
  | error e => exact h

theorem booked_replay {calls : List LedgerCall} (hcalls : ∀ call ∈ calls, call.Distinct) :
    (replay calls).Booked := by
  suffices h : ∀ l : Ledger, l.Booked → (calls.foldl Ledger.after l).Booked from h _ booked_empty
  induction calls with
  | nil => exact fun l hl => hl
  | cons call calls ih =>
      obtain ⟨hcall, hcalls⟩ := List.forall_mem_cons.1 hcalls
      exact fun l hl => ih hcalls _ (hl.after hcall)

theorem Booked.run_error_iff (h : l.Booked) (hcall : call.Distinct) (hvalid : call.Valid)
    {x : Account} (hx : call.payer = some x) :
    ((∃ e, l.run call = .error e) ↔
      ∃ d n, (d, some n) ∈ call.entries ∧ l.balanceOf x d < n) ∧
    ∀ e, l.run call = .error e → ∃ d n, (d, some n) ∈ call.entries ∧ l.balanceOf x d < n ∧
      e = .insufficientFunds x d (l.balanceOf x d) n := by
  obtain ⟨c, hc⟩ := Coins.exists_ofEntries hvalid
  have hshort : ∀ e, l.run call = .error e → ∃ d n, (d, some n) ∈ call.entries ∧
      l.balanceOf x d < n ∧ e = .insufficientFunds x d (l.balanceOf x d) n := by
    intro e he
    obtain ⟨p, hp, hlt, heq⟩ := eq_insufficientFunds_of_covers ((run_eq_error_iff hx hc).1 he)
    exact ⟨p.1, p.2, ((Coins.mem_ofEntries_iff hcall hc).1 hp).1, hlt, heq⟩
  refine ⟨⟨fun ⟨e, he⟩ => ?_, fun ⟨d, n, hmem, hlt⟩ => ?_⟩, hshort⟩
  · obtain ⟨d, n, hmem, hlt, -⟩ := hshort e he
    exact ⟨d, n, hmem, hlt⟩
  · have hpos : 0 < n := (h.solvent x d).trans_lt hlt
    have hc' := (Coins.mem_ofEntries_iff hcall hc).2 ⟨hmem, hpos.ne'⟩
    cases hcovers : l.covers x c with
    | ok u => exact absurd (covers_eq_ok_iff.1 hcovers _ hc') (not_le.2 hlt)
    | error e => exact ⟨e, (run_eq_error_iff hx hc).2 hcovers⟩

/-- The totals are the sums of all balances, and only balances above zero have an entry. -/
structure Conserving (l : Ledger) : Prop where
  total : ∀ d, l.totalSupply d = ∑ a ∈ l.accounts.toFinset, l.balanceOf a d
  unheld : ∀ a, a ∉ l.accounts → ∀ d, l.balanceOf a d = 0
  positive : ∀ p ∈ l.entries, 0 < p.2

/-- A call does all that it says or nothing. -/
structure AllOrNothing (l : Ledger) (call : LedgerCall) : Prop where
  /-- Entry by entry it does what it does at once. -/
  atOnce : Posting.post call l = Posting.atOnce call l
  carried : ∀ l', Posting.post call l = .ok () l' → l.Ran l' call
  /-- A call that fails, for whatever reason, leaves the ledger as it was. -/
  unchanged : ∀ e l', Posting.post call l = .error e l' → l' = l
  /-- A debit of valid coins fails exactly if the debited account lacks some of them. -/
  refused : call.Valid → ∀ x, call.payer = some x →
    ((∃ e l', Posting.post call l = .error e l') ↔
      ∃ d n, (d, some n) ∈ call.entries ∧ l.balanceOf x d < n)
  /-- The failure names the account, what it has of a denomination and what is asked for. -/
  named : call.Valid → ∀ x, call.payer = some x → ∀ e l', Posting.post call l = .error e l' →
    ∃ d n, (d, some n) ∈ call.entries ∧ l.balanceOf x d < n ∧
      e = .insufficientFunds x d (l.balanceOf x d) n
  /-- A transfer touches the two accounts it names, none if they are the same, and no total. -/
  transferred : ∀ x y es, call = .transfer x y es → ∀ l', Posting.post call l = .ok () l' →
    (∀ a, a ≠ x → a ≠ y → ∀ d, l'.balanceOf a d = l.balanceOf a d) ∧
      (x = y → ∀ a d, l'.balanceOf a d = l.balanceOf a d) ∧
        ∀ d, l'.totalSupply d = l.totalSupply d

theorem Booked.conserving (h : l.Booked) : l.Conserving :=
  ⟨h.conserved, fun _ => balanceOf_of_not_mem_accounts, h.positive⟩

theorem Ran.transferred {x y : Account} {es : CoinEntries} (h : l.Ran l' (.transfer x y es)) :
    (∀ a, a ≠ x → a ≠ y → ∀ d, l'.balanceOf a d = l.balanceOf a d) ∧
      (x = y → ∀ a d, l'.balanceOf a d = l.balanceOf a d) ∧
        ∀ d, l'.totalSupply d = l.totalSupply d := by
  refine ⟨fun a hx hy d => ?_, fun hxy a d => ?_, fun d => ?_⟩
  · rw [h.balance, LedgerCall.flow, if_neg hx.symm, if_neg hy.symm, sub_self, add_zero]
  · rw [h.balance, LedgerCall.flow, hxy, sub_self, add_zero]
  · rw [h.total, LedgerCall.made, add_zero]

theorem Booked.allOrNothing (h : l.Booked) (hcall : call.Distinct) : l.AllOrNothing call := by
  have hpost := h.post_eq_atOnce hcall
  have hok (l' : Ledger) : Posting.post call l = .ok () l' ↔ l.run call = .ok l' := by
    rw [hpost, Posting.atOnce]
    cases l.run call <;> simp
  have herror (e : Error) (l' : Ledger) :
      Posting.post call l = .error e l' ↔ l.run call = .error e ∧ l' = l := by
    rw [hpost, Posting.atOnce]
    cases l.run call <;> simp [eq_comm]
  have hran (l' : Ledger) (hl' : Posting.post call l = .ok () l') : l.Ran l' call :=
    ran_of_distinct h.solvent hcall ((hok l').1 hl')
  refine ⟨hpost, hran, fun e l' he => ((herror e l').1 he).2, fun hvalid x hx => ?_,
    fun hvalid x hx e l' he => ?_, ?_⟩
  · rw [← (h.run_error_iff hcall hvalid hx).1]
    simp only [herror, exists_and_left, exists_eq, and_true]
  · exact (h.run_error_iff hcall hvalid hx).2 e ((herror e l').1 he).1
  · rintro x y es rfl l' hl'
    exact (hran l' hl').transferred

/-- The ledger conserves coins and is all or nothing, after any calls whether they failed or
not. -/
theorem replay_conserves {calls : List LedgerCall} (hcalls : ∀ call ∈ calls, call.Distinct) :
    (replay calls).Conserving ∧
      ∀ call : LedgerCall, call.Distinct → (replay calls).AllOrNothing call :=
  have h := booked_replay hcalls
  ⟨h.conserving, fun _ => h.allOrNothing⟩

/-- Coins that are minted, sent by an account to itself and burned, and a debit that is refused. -/
theorem replay_conserves_of_self_transfer :
    let calls : List LedgerCall := [.mint "ann" [("b", some 5), ("a", some 10)],
      .transfer "ann" "ann" [("a", some 10)], .burn "bob" [("a", some 1)],
      .mint "bob" [("a", some (-1))], .burn "ann" [("b", some 5)]]
    (∀ call ∈ calls, call.Distinct) ∧ (replay calls).Conserving ∧
      (replay calls).entries = [(("ann", "a"), 10)] ∧
      (replay calls).AllOrNothing (.transfer "ann" "bob" [("a", some 11)]) := by
  intro calls
  have hcalls : ∀ call ∈ calls, call.Distinct := by decide
  obtain ⟨hconserving, hall⟩ := replay_conserves hcalls
  exact ⟨hcalls, hconserving, by decide, hall _ (by decide)⟩

end Ledger
end BondMarket
