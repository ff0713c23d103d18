import BondMarket.Proofs.Postings

/-!
Calls of the ledger carried out entry by entry: every balance and every total is written on its
own, and what has been written stays written when a later entry fails. No entry fails: the coins
are checked as a whole before the first of them is written. So the calls do what `Ledger.run` says,
and a call that fails leaves the ledger as it was.
-/

namespace BondMarket

/-- A computation on a ledger. When it fails it keeps what it has written. -/
abbrev Posting := EStateM Error Ledger

namespace Posting

variable {α β : Type} {l l' : Ledger}

theorem bind_ok {x : Posting α} {a : α} (h : x l = .ok a l') (f : α → Posting β) :
    (x >>= f) l = f a l' := by
  simp only [bind, EStateM.bind, h]

theorem bind_error {x : Posting α} {e : Error} (h : x l = .error e l') (f : α → Posting β) :
    (x >>= f) l = .error e l' := by
  simp only [bind, EStateM.bind, h]

def check (f : Ledger → Result α) : Posting α := fun l =>
  match f l with
  | .ok a => .ok a l
  | .error e => .error e l

theorem check_ok {f : Ledger → Result α} {a : α} (h : f l = .ok a) : check f l = .ok a l := by
  simp only [check, h]

theorem check_error {f : Ledger → Result α} {e : Error} (h : f l = .error e) :
    check f l = .error e l := by
  simp only [check, h]

def write (a : Account) (d : Denom) (n : Int) : Posting Unit := fun l =>
  match l.setBalance a d n with
  | .ok l' => .ok () l'
  | .error e => .error e l

def give (a : Account) (d : Denom) (n : Int) : Posting Unit := do
  write a d ((← get).balanceOf a d + n)

def take (a : Account) (d : Denom) (n : Int) : Posting Unit := do
  write a d ((← get).balanceOf a d - n)

def raise (d : Denom) (n : Int) : Posting Unit := modify fun l => l.raiseTotals [(d, n)]

def lower (d : Denom) (n : Int) : Posting Unit := fun l =>
  if d ∈ Table.keys l.totals then .ok () (l.lowerTotals [(d, n)])
  else .error (.missingRecord "total" d) l

def forEach (f : Denom → Int → Posting Unit) : Coins → Posting Unit
  | [] => pure ()
  | (d, n) :: c => do
    f d n
    forEach f c

/-- A call, entry by entry. -/
def post : LedgerCall → Posting Unit
  | .mint x es => do
    let c ← check fun _ => Coins.ofEntries es
    forEach (fun d n => do give x d n; raise d n) c
  | .burn x es => do
    let c ← check fun _ => Coins.ofEntries es
    check fun l => l.covers x c
    forEach (fun d n => do take x d n; lower d n) c
  | .transfer x y es => do
    let c ← check fun _ => Coins.ofEntries es
    check fun l => l.covers x c
    forEach (fun d n => do take x d n; give y d n) c

theorem write_ok {a : Account} {d : Denom} {n : Int} (h : 0 ≤ n) :
    write a d n l = .ok () (l.put a d n) := by
  simp only [write, Ledger.setBalance, not_lt.2 h, if_false]

theorem give_ok {a : Account} {d : Denom} {n : Int} (h : 0 ≤ l.balanceOf a d + n) :
    give a d n l = .ok () (l.put a d (l.balanceOf a d + n)) :=
  write_ok h

theorem take_ok {a : Account} {d : Denom} {n : Int} (h : n ≤ l.balanceOf a d) :
    take a d n l = .ok () (l.put a d (l.balanceOf a d - n)) :=
  write_ok (sub_nonneg.2 h)

end Posting

namespace Ledger

variable {l : Ledger} {c : Coins}

theorem run_mint {x : Account} {es : CoinEntries} (hc : Coins.ofEntries es = .ok c) :
    l.run (.mint x es) = .ok ((l.credit x c).raiseTotals c) := by
  simp only [run, mint, hc, Result.ok_bind, Result.pure_eq_ok]

theorem run_burn {x : Account} {es : CoinEntries} (hc : Coins.ofEntries es = .ok c) :
    l.run (.burn x es) = (l.covers x c).map fun _ => (l.debit x c).lowerTotals c := by
  simp only [run, burn, hc, Result.ok_bind]
  cases l.covers x c <;> rfl

theorem run_transfer {x y : Account} {es : CoinEntries} (hc : Coins.ofEntries es = .ok c) :
    l.run (.transfer x y es) = (l.covers x c).map fun _ => (l.debit x c).credit y c := by
  simp only [run, transfer, hc, Result.ok_bind]
  cases l.covers x c <;> rfl

theorem mem_keys_of_balance {a : Account} {d : Denom} (h : l.balanceOf a d ≠ 0) :
    (a, d) ∈ Table.keys l.entries := by
  by_contra hnot
  exact h (by rw [balanceOf, Table.get?_eq_none_iff.2 hnot, Option.getD_none])

theorem Solvent.put (h : l.Solvent) (a : Account) (d : Denom) {n : Int} (hn : 0 ≤ n) :
    (l.put a d n).Solvent := by
  intro a' d'
  rw [balanceOf_put]
  split
  · exact hn
  · exact h a' d'

theorem put_comm_of_mem {a a' : Account} {d d' : Denom} (hmem : (a, d) ∈ Table.keys l.entries)
    (hne : d ≠ d') (n n' : Int) :
    (l.put a d n).put a' d' n' = (l.put a' d' n').put a d n := by
  have hkey : (a, d) ≠ (a', d') := fun h => hne (Prod.mk.inj h).2
  simp only [put]
  split <;> split
  · rw [Table.erase_comm]
  · rw [Table.erase_set_of_ne _ hkey]
  · rw [Table.erase_set_of_ne _ hkey.symm]
  · rw [Table.set_comm_of_mem hmem hkey]

theorem mem_keys_put_of_ne {k : Account × Denom} {a : Account} {d : Denom} (hne : k ≠ (a, d))
    (hk : k ∈ Table.keys l.entries) (n : Int) : k ∈ Table.keys (l.put a d n).entries := by
  obtain ⟨v, hv⟩ := Table.mem_keys_iff.1 hk
  refine Table.mem_keys_iff.2 ⟨v, ?_⟩
  unfold put
  dsimp only
  split
  · rw [Table.get?_erase, if_neg hne.symm, hv]
  · rw [Table.get?_set_of_ne _ hne.symm, hv]

/-- What balances come to does not depend on the totals. -/
theorem foldl_put_totals {f : Ledger → Denom × Int → Int} {a : Account}
    (hf : ∀ l t p, f { l with totals := t } p = f l p) (l : Ledger) (t : Coins) (c : Coins) :
    c.foldl (fun l p => l.put a p.1 (f l p)) { l with totals := t } =
      { c.foldl (fun l p => l.put a p.1 (f l p)) l with totals := t } := by
  induction c generalizing l with
  | nil => rfl
  | cons p c ih =>
      rw [List.foldl_cons, List.foldl_cons, hf]
      exact ih (l.put a p.1 (f l p))

theorem totals_foldl_put (f : Ledger → Denom × Int → Int) (a : Account) (c : Coins) (l : Ledger) :
    (c.foldl (fun l p => l.put a p.1 (f l p)) l).totals = l.totals := by
  induction c generalizing l with
  | nil => rfl
  | cons p c ih => exact ih _

theorem credit_raiseTotals (l : Ledger) (a : Account) (c c' : Coins) :
    (l.raiseTotals c').credit a c = (l.credit a c).raiseTotals c' := by
  have htotals : (l.credit a c).totals = l.totals := totals_foldl_put _ a c l
  rw [raiseTotals, raiseTotals, htotals]
  exact foldl_put_totals (fun _ _ _ => rfl) l _ c

theorem debit_lowerTotals (l : Ledger) (a : Account) (c c' : Coins) :
    (l.lowerTotals c').debit a c = (l.debit a c).lowerTotals c' := by
  have htotals : (l.debit a c).totals = l.totals := totals_foldl_put _ a c l
  rw [lowerTotals, lowerTotals, htotals]
  exact foldl_put_totals (fun _ _ _ => rfl) l _ c

/-- A debit leaves the entries of other denominations in their place. -/
theorem debit_put_comm {a a' : Account} {d : Denom} (hc : (Table.keys c).Nodup)
    (hd : d ∉ Table.keys c) (hmem : ∀ p ∈ c, (a, p.1) ∈ Table.keys l.entries) (n : Int) :
    (l.put a' d n).debit a c = (l.debit a c).put a' d n := by
  induction c generalizing l with
  | nil => rfl
  | cons p c ih =>
      obtain ⟨hp, hc⟩ := Table.nodup_keys_cons.1 hc
      obtain ⟨hne, hd⟩ := not_or.1 (mt List.mem_cons.2 hd)
      obtain ⟨hpmem, hmem⟩ := List.forall_mem_cons.1 hmem
      have hsame : (l.put a' d n).balanceOf a p.1 = l.balanceOf a p.1 := by
        rw [balanceOf_put, if_neg fun h => hne h.2]
      have hstep : (l.put a' d n).debit a (p :: c) =
          ((l.put a' d n).put a p.1 (l.balanceOf a p.1 - p.2)).debit a c := by
        rw [← hsame]
        rfl
      rw [hstep, ← put_comm_of_mem hpmem (Ne.symm hne)]
      refine ih hc hd fun q hq => ?_
      have hkey : (a, q.1) ≠ (a, p.1) := fun h =>
        hp ((Prod.mk.inj h).2 ▸ Table.mem_keys_of_mem hq)
      exact mem_keys_put_of_ne hkey (hmem q hq) _

end Ledger

namespace Posting

variable {l l₁ : Ledger} {c : Coins} {x : Account}

theorem forEach_cons {f : Denom → Int → Posting Unit} {p : Denom × Int}
    (h : f p.1 p.2 l = .ok () l₁) (c : Coins) : forEach f (p :: c) l = forEach f c l₁ :=
  bind_ok h _

theorem forEach_mint (hl : l.Solvent) (hn : ∀ p ∈ c, 0 ≤ p.2) (x : Account) :
    forEach (fun d n => do give x d n; raise d n) c l =
      .ok () ((l.credit x c).raiseTotals c) := by
  induction c generalizing l with
  | nil => rfl
  | cons p c ih =>
      obtain ⟨hp, hn⟩ := List.forall_mem_cons.1 hn
      have hsum : 0 ≤ l.balanceOf x p.1 + p.2 := add_nonneg (hl x p.1) hp
      set l₁ := (l.put x p.1 (l.balanceOf x p.1 + p.2)).raiseTotals [p]
      have hsolvent : l₁.Solvent := hl.put x p.1 hsum
      have hstep : (do give x p.1 p.2; raise p.1 p.2 : Posting Unit) l = .ok () l₁ :=
        bind_ok (give_ok hsum) _
      rw [forEach_cons hstep, ih hsolvent hn, Ledger.credit_raiseTotals]
      rfl

theorem covered_put {p : Denom × Int} (hp : p.1 ∉ Table.keys c)
    (hcovers : ∀ q ∈ c, q.2 ≤ l.balanceOf x q.1) (a : Account) (n : Int) :
    ∀ q ∈ c, q.2 ≤ (l.put a p.1 n).balanceOf x q.1 := by
  intro q hq
  have hne : ¬ (a = x ∧ p.1 = q.1) := fun h => hp (h.2 ▸ Table.mem_keys_of_mem hq)
  rw [Ledger.balanceOf_put, if_neg hne]
  exact hcovers q hq

theorem forEach_burn (hl : l.Solvent) (hc : (Table.keys c).Nodup)
    (hcovers : ∀ p ∈ c, p.2 ≤ l.balanceOf x p.1) (htotals : ∀ p ∈ c, p.1 ∈ Table.keys l.totals) :
    forEach (fun d n => do take x d n; lower d n) c l =
      .ok () ((l.debit x c).lowerTotals c) := by
  induction c generalizing l with
  | nil => rfl
  | cons p c ih =>
      obtain ⟨hp, hc⟩ := Table.nodup_keys_cons.1 hc
      obtain ⟨hpcovers, hcovers⟩ := List.forall_mem_cons.1 hcovers
      obtain ⟨hptotals, htotals⟩ := List.forall_mem_cons.1 htotals
      set l₁ := (l.put x p.1 (l.balanceOf x p.1 - p.2)).lowerTotals [p]
      have hsolvent : l₁.Solvent := hl.put x p.1 (sub_nonneg.2 hpcovers)
      have hstep : (do take x p.1 p.2; lower p.1 p.2 : Posting Unit) l = .ok () l₁ := by
        rw [bind_ok (take_ok hpcovers)]
        exact if_pos hptotals
      have hkeys : Table.keys l₁.totals = Table.keys l.totals := Table.keys_set_of_mem hptotals _
      rw [forEach_cons hstep, ih hsolvent hc (covered_put hp hcovers x _)
        fun q hq => hkeys ▸ htotals q hq, Ledger.debit_lowerTotals]
      rfl

/-- Also where both accounts are the same. -/
theorem forEach_transfer (hl : l.Solvent) (hc : (Table.keys c).Nodup) (hn : ∀ p ∈ c, 0 < p.2)
    (hcovers : ∀ p ∈ c, p.2 ≤ l.balanceOf x p.1) (y : Account) :
    forEach (fun d n => do take x d n; give y d n) c l =
      .ok () ((l.debit x c).credit y c) := by
  induction c generalizing l with
  | nil => rfl
  | cons p c ih =>
      obtain ⟨hp, hc⟩ := Table.nodup_keys_cons.1 hc
      obtain ⟨hppos, hn⟩ := List.forall_mem_cons.1 hn
      obtain ⟨hpcovers, hcovers⟩ := List.forall_mem_cons.1 hcovers
      set l₁ := l.put x p.1 (l.balanceOf x p.1 - p.2) with hl₁
      have hsolvent₁ : l₁.Solvent := hl.put x p.1 (sub_nonneg.2 hpcovers)
      have hcovers₁ := covered_put hp hcovers x (l.balanceOf x p.1 - p.2)
      have hsum : 0 ≤ l₁.balanceOf y p.1 + p.2 := add_nonneg (hsolvent₁ y p.1) hppos.le
      have hstep : (do take x p.1 p.2; give y p.1 p.2 : Posting Unit) l =
          .ok () (l₁.put y p.1 (l₁.balanceOf y p.1 + p.2)) := by
        rw [bind_ok (take_ok hpcovers)]
        exact give_ok hsum
      have hmem : ∀ q ∈ c, (x, q.1) ∈ Table.keys l₁.entries := fun q hq =>
        Ledger.mem_keys_of_balance ((hn q hq).trans_le (hcovers₁ q hq)).ne'
      have hbalance : (l₁.debit x c).balanceOf y p.1 = l₁.balanceOf y p.1 := by
        rw [Ledger.balanceOf_debit hc, Coins.amountOf_of_not_mem hp, ite_self, sub_zero]
      rw [forEach_cons hstep, ih (hsolvent₁.put y p.1 hsum) hc hn (covered_put hp hcovers₁ y _),
        Ledger.debit_put_comm hc hp hmem, ← hbalance]
      rfl

def atOnce (call : LedgerCall) : Posting Unit := fun l =>
  match l.run call with
  | .ok l' => .ok () l'
  | .error e => .error e l

/-- Entry by entry or at once is the same, where every denomination that is held has a total. -/
theorem post_eq_atOnce (hl : l.Solvent)
    (htotals : ∀ a d, l.balanceOf a d ≠ 0 → d ∈ Table.keys l.totals) {call : LedgerCall}
    (hcall : (Table.keys call.entries).Nodup) : post call l = atOnce call l := by
  cases hc : Coins.ofEntries call.entries with
  | error e =>
      have hrun : l.run call = .error e := by
        cases call <;> simp only [LedgerCall.entries] at hc <;>
          simp [Ledger.run, Ledger.mint, Ledger.burn, Ledger.transfer, hc]
      have hpost : post call l = .error e l := by
        cases call <;> exact bind_error (check_error hc) _
      rw [hpost, atOnce, hrun]
  | ok c =>
      have hproper := Coins.proper_of_ofEntries hc hcall
      have hpos (p : Denom × Int) (hp : p ∈ c) : 0 < p.2 := by
        rw [← Coins.amountOf_of_mem hproper.distinct hp]
        exact Coins.amountOf_pos_of_ofEntries hc hproper (Table.mem_keys_of_mem hp)
      -- The cover is checked before anything is written.
      cases call with
      | mint x es =>
          have hc : Coins.ofEntries es = .ok c := hc
          rw [atOnce, Ledger.run_mint hc, post, bind_ok (check_ok hc)]
          exact forEach_mint hl (fun p hp => (hpos p hp).le) x
      | burn x es =>
          have hc : Coins.ofEntries es = .ok c := hc
          rw [atOnce, Ledger.run_burn hc, post, bind_ok (check_ok hc)]
          cases hcovers : l.covers x c with
          | error e => exact bind_error (check_error hcovers) _
          | ok u =>
              have hcovers' := Ledger.covers_eq_ok_iff.1 hcovers
              rw [bind_ok (check_ok hcovers)]
              exact forEach_burn hl hproper.distinct hcovers' fun p hp =>
                htotals x p.1 ((hpos p hp).trans_le (hcovers' p hp)).ne'
      | transfer x y es =>
          have hc : Coins.ofEntries es = .ok c := hc
          rw [atOnce, Ledger.run_transfer hc, post, bind_ok (check_ok hc)]
          cases hcovers : l.covers x c with
          | error e => exact bind_error (check_error hcovers) _
          | ok u =>
              rw [bind_ok (check_ok hcovers)]
              exact forEach_transfer hl hproper.distinct hpos (Ledger.covers_eq_ok_iff.1 hcovers) y

end Posting
end BondMarket
