import BondMarket.Proofs.Displacement
import BondMarket.Proofs.Fulfilment

/-!
The order of arrival is of no account for the buys and the sells of a batch. However they are
arranged, the batch is fillable or not, and what they come to when they are filled is the same: a
sum over the orders for every account but the reserve, and for the reserve what the totals say. Only
the lists in the store are still in different orders. The swaps, which follow, look at no other
orders, so that the two executions go on side by side to the end.
-/

namespace BondMarket

namespace Batch

variable {cfg : Config} {token : Denom} {β γ γ' : Batch} {buys : List BuyOrder}
  {sells : List SellOrder}

def reorder (β : Batch) (buys : List BuyOrder) (sells : List SellOrder) : Batch :=
  { β with buys, sells }

theorem Formed.reorder (h : β.Formed cfg token) (hbuys : buys.Perm β.buys)
    (hsells : sells.Perm β.sells) : (β.reorder buys sells).Formed cfg token where
  buys o ho := h.buys o (hbuys.mem_iff.1 ho)
  sells o ho := h.sells o (hsells.mem_iff.1 ho)
  swaps := h.swaps
  totalBuy := h.totalBuy.trans (openSum_perm hbuys.symm)
  totalSell := h.totalSell.trans (openSum_perm hsells.symm)

theorem pledged_reorder (hbuys : buys.Perm β.buys) (d : Denom) :
    (β.reorder buys sells).pledged d = β.pledged d :=
  congrArg (· + swapPledges β.swaps d) (openSum_perm hbuys)

theorem outlook_reorder (hbuys : buys.Perm β.buys) (hsells : sells.Perm β.sells)
    (p : ClearingPrices) (d : Denom) : (β.reorder buys sells).outlook p d = β.outlook p d :=
  congrArg₂ (· - ·) (openSum_perm hbuys) (openSum_perm hsells)

theorem markSwap_congr (h : γ.swaps = β.swaps) {index : Nat} {reason : String}
    (hmark : β.markSwap index reason = .ok γ') :
    ∃ γ'', γ.markSwap index reason = .ok γ'' ∧ γ''.swaps = γ'.swaps := by
  obtain ⟨o, ho, hmark⟩ := Result.bind_eq_ok.1 hmark
  obtain ⟨o', ho', hmark⟩ := Result.bind_eq_ok.1 hmark
  cases hmark
  refine ⟨{ γ with swaps := γ.swaps.set index o' }, ?_, by rw [h]⟩
  simp only [markSwap, h, ho, ho', Result.ok_bind, Result.pure_eq_ok]

end Batch

namespace Market

variable {cfg : Config} {bonded : Denom → Prop} {m m₁ n n₁ : Market} {token : Denom} {b : Bond}
  {β β' : Batch} {buys : List BuyOrder} {sells : List SellOrder}

/-! ### Another arrangement -/

theorem Poised.reorder (h : Poised cfg bonded token b β m) (hbuys : buys.Perm β.buys)
    (hsells : sells.Perm β.sells) :
    Poised cfg bonded token b (β.reorder buys sells)
      (m.withBatch token (β.reorder buys sells)) where
  kept := by
    refine h.kept.replace (apart_withBatch ..) h.batch h.bond (get?_withBatch ..) ?_
      h.kept.solvent fun d => by rw [Batch.pledged_reorder hbuys]; rfl
    exact Held.congr (m := m) { h.held with orders := h.held.orders.reorder hbuys hsells }
      (fun _ => rfl) rfl
  bond := h.bond
  batch := get?_withBatch ..
  current := h.current
  raised := h.raised

theorem afterOrders_reorder (hbuys : buys.Perm β.buys) (hsells : sells.Perm β.sells) (d : Denom) :
    (m.withBatch token (β.reorder buys sells)).afterOrders token (β.reorder buys sells) d =
      m.afterOrders token β d :=
  congrArg (m.balance (reserveAccountFor token) d + ·) (Batch.outlook_reorder hbuys hsells _ d)

theorem fillable_reorder_iff (hbuys : buys.Perm β.buys) (hsells : sells.Perm β.sells) :
    (m.withBatch token (β.reorder buys sells)).Fillable token b (β.reorder buys sells) ↔
      m.Fillable token b β := by
  refine and_congr (forall_congr' fun o => ?_) (forall_congr' fun d => ?_)
  · exact imp_congr_left (hbuys.filter _).mem_iff
  · rw [afterOrders_reorder hbuys hsells]

/-! ### Side by side -/

/-- Two markets that agree on all balances and on a bond, and on its batch up to the buys and
sells. -/
structure Alike (token : Denom) (m n : Market) : Prop where
  refusals : n.refusals = m.refusals
  bond : Table.get? n.store.bonds token = Table.get? m.store.bonds token
  batch : ∃ β β', Table.get? m.store.batches token = some β ∧
    Table.get? n.store.batches token = some β' ∧ β'.swaps = β.swaps
  ledger : m.ledger.Displaced (fun _ _ => 0) (fun _ => 0) n.ledger

theorem Alike.balance (h : Alike token m n) (a : Account) (d : Denom) :
    n.balance a d = m.balance a d :=
  (h.ledger.balance a d).trans (add_zero _)

section Matched

variable (h : Poised cfg bonded token b β m) (hbuys : buys.Perm β.buys)
  (hsells : sells.Perm β.sells) (hm : Matched cfg bonded token b β m m₁)
  (hn : Matched cfg bonded token b (β.reorder buys sells)
    (m.withBatch token (β.reorder buys sells)) n₁)

include h hbuys hsells hm hn

/-- Filled in two arrangements, the buys and the sells leave the reserve with the same. -/
theorem Matched.reserve_reorder (d : Denom) :
    n₁.balance (reserveAccountFor token) d = m₁.balance (reserveAccountFor token) d := by
  cases hhatch : b.inHatch with
  | false =>
      rw [hm.reserve_of_not_inHatch hhatch, hn.reserve_of_not_inHatch hhatch,
        afterOrders_reorder hbuys hsells]
  | true =>
      by_cases hd : d ∈ b.reserveTokens
      · have hdue := hm.reserve_of_inHatch hhatch (h.raised hhatch) hd
        have hdue' := hn.reserve_of_inHatch hhatch (h.raised hhatch) hd
        exact Except.ok.inj (hdue'.symm.trans hdue)
      · exact (hn.executing.foreign d hd).trans (hm.executing.foreign d hd).symm

theorem Matched.balance_reorder (a : Account) (d : Denom) :
    n₁.balance a d = m₁.balance a d := by
  have hreserve := hm.reserve_reorder h hbuys hsells hn
  by_cases ha : a = reserveAccountFor token
  · rw [ha, hreserve]
  · have hbought := ((hbuys.filter fun o => o.isOpen).map (b.buyCredit cfg β.buyPrices a d)).sum_eq
    have hsold := ((hsells.filter fun o => o.isOpen).map (b.sellCredit β.sellPrices a d)).sum_eq
    have hpooled : b.pooled n₁.balance a d = b.pooled m₁.balance a d := by
      rw [hm.credited a ha d, hn.credited a ha d]
      exact congrArg _ (congrArg₂ _ hbought hsold)
    have haddress : b.reserveAddress = reserveAccountFor token := h.held.formed.address
    simpa only [Bond.pooled, haddress, hreserve, add_left_inj] using hpooled

omit h hbuys hsells in
theorem Matched.total_reorder (d : Denom) :
    n₁.ledger.totalSupply d = m₁.ledger.totalSupply d := by
  by_cases hd : d = token
  · obtain ⟨_, -, hheld⟩ := hm.held
    obtain ⟨_, -, hheld'⟩ := hn.held
    rw [hd, hheld.minted, hheld'.minted]
    rfl
  · exact (hn.executing.apart.total d hd).trans (hm.executing.apart.total d hd).symm

/-- The supply is that of the totals and the reserve that of the ledger, so that the record of the
bond is the same. -/
theorem Matched.bond_reorder :
    Table.get? n₁.store.bonds token = Table.get? m₁.store.bonds token := by
  obtain ⟨r, hb, hheld⟩ := hm.held
  obtain ⟨r', hb', hheld'⟩ := hn.held
  have hr : r = (m₁.reserveOf b).dropZeros := hheld.synced
  have hr' : r' = (n₁.reserveOf b).dropZeros := hheld'.synced
  rw [hb, hb', hr, hr', reserveOf_congr fun d => hm.balance_reorder h hbuys hsells hn _ d]
  rfl

theorem Matched.alike : Alike token m₁ n₁ where
  refusals := hn.executing.refusals.trans hm.executing.refusals.symm
  bond := hm.bond_reorder h hbuys hsells hn
  batch := ⟨_, _, hm.executing.batch, hn.executing.batch, rfl⟩
  ledger :=
    ⟨fun a d => (hm.balance_reorder h hbuys hsells hn a d).trans (add_zero _).symm,
      fun d => (hm.total_reorder hn d).trans (add_zero _).symm⟩

end Matched

/-! ### The swaps -/

theorem Alike.bond_eq (h : Alike token m n) : n.store.bond token = m.store.bond token := by
  simp only [Store.bond, Store.require, h.bond]

theorem Alike.setBatch (h : Alike token m n) (hswaps : β'.swaps = β.swaps) :
    (setBatch token β).Follows (Alike token) (setBatch token β') m n := by
  intro _ m' hrun
  cases hrun
  exact ⟨rfl, { h with
    batch := ⟨β, β', Table.get?_set_self .., Table.get?_set_self .., hswaps⟩ }⟩

theorem Alike.setBond (h : Alike token m n) (b : Bond) :
    (setBond token b).Follows (Alike token) (setBond token b) m n := by
  intro _ m' hrun
  cases hrun
  exact ⟨rfl, { h with bond := (Table.get?_set_self ..).trans (Table.get?_set_self ..).symm }⟩

theorem alike_carryOutAll (vs : List Move) : (carryOutAll vs).Blind (Alike token) :=
  Action.Blind.carryOutAll fun _ _ _ _ h =>
    follows_carryOut (fun _ _ => .inr fun _ => rfl) h.refusals h.ledger
      fun _ _ _ hledger => { h with refusals := rfl, ledger := hledger }

theorem alike_syncReserve : (syncReserve token).Blind (Alike token) := by
  intro m n h
  refine .get ?_
  rw [h.bond_eq]
  refine .lift fun b _ => ?_
  rw [reserveOf_congr (h.balance b.reserveAddress)]
  exact h.setBond _

theorem alike_cancelSwap (index : Nat) (o : SwapOrder) (reason : String) :
    (cancelSwap cfg token index o reason).Blind (Alike token) := by
  intro m n h
  obtain ⟨β, β', hβ, hβ', hswaps⟩ := h.batch
  refine .get (.lift_of_ok (batch_eq_ok hβ) (batch_eq_ok hβ') ?_)
  cases hmark : β.markSwap index reason with
  | error e => exact .throw _ _
  | ok γ =>
      obtain ⟨γ', hmark', hswaps'⟩ := Batch.markSwap_congr hswaps hmark
      refine .lift_of_ok rfl hmark' ((h.setBatch hswaps').bind fun _ _ _ h => ?_)
      exact (alike_carryOutAll _ _ _ h).bind fun _ _ _ h => .pure h _

theorem alike_performSwap (index : Nat) : (performSwap cfg token index).Blind (Alike token) := by
  intro m n h
  obtain ⟨β, β', hβ, hβ', hswaps⟩ := h.batch
  refine .get ?_
  rw [h.bond_eq]
  refine .lift fun b _ => .lift_of_ok (batch_eq_ok hβ) (batch_eq_ok hβ') ?_
  rw [hswaps, reserveOf_congr (h.balance b.reserveAddress)]
  refine .lift fun o _ => ?_
  cases b.planSwap (m.reserveOf b) o with
  | error e =>
      dsimp only
      split
      · exact alike_cancelSwap index o _ m n h
      · exact .throw _ _
  | ok p =>
      refine (alike_carryOutAll _ m n h).bind fun _ _ _ h => ?_
      exact (alike_syncReserve _ _ h).bind fun _ _ _ h => .pure h _

/-- The swap at a place is dealt with in the same way in markets that are alike. -/
theorem alike_performOpenSwap (index : Nat) :
    (performOpenSwap cfg token index).Blind (Alike token) := by
  intro m n h
  obtain ⟨β, β', hβ, hβ', hswaps⟩ := h.batch
  refine .get (.lift_of_ok (batch_eq_ok hβ) (batch_eq_ok hβ') ?_)
  rw [hswaps]
  refine .lift fun o _ => ?_
  split
  · exact (alike_performSwap index m n h).bind fun _ _ _ h => .pure h _
  · exact .pure h _

theorem Poised.performOrders_alike (hsep : cfg.Separate) (h : Poised cfg bonded token b β m)
    (hbuys : buys.Perm β.buys) (hsells : sells.Perm β.sells) {os os' : List Outcome}
    {m' n' : Market} (hm : performOrders cfg token m = .ok os m')
    (hn : performOrders cfg token (m.withBatch token (β.reorder buys sells)) = .ok os' n') :
    Alike token m' n' := by
  have hfillable := (h.completes_iff hsep).1 ⟨os, m', hm⟩
  have hfillable' := (fillable_reorder_iff hbuys hsells).2 hfillable
  obtain ⟨m₁, swaps, hmatched, hrun⟩ := (h.performOrders_matched hsep hfillable).of_ok hm
  obtain ⟨n₁, swaps', hmatched', hrun'⟩ :=
    ((h.reorder hbuys hsells).performOrders_matched hsep hfillable').of_ok hn
  have halike := hmatched.alike h hbuys hsells hmatched'
  exact ((Action.Blind.gather alike_performOpenSwap _ m₁ n₁ halike swaps m' hrun).of_ok hrun').2

theorem Sound.poised {fills : Denom → Nat} (h : Sound cfg bonded fills m)
    (hb : Table.get? m.store.bonds token = some b)
    (hβ : Table.get? m.store.batches token = some β) : Poised cfg bonded token b β m where
  kept := h.kept
  bond := hb
  batch := hβ
  current := h.current token b β hb hβ
  raised hhatch := (h.hatching token b β hb hβ hhatch).raised

end Market

/-- In every run, take a batch after the pass over its buys, when it is about to be executed, and
arrange its buys and its sells in any other order. The execution comes to its end in the one
arrangement exactly if it does in the other, and then leaves every account with the same balance and
the bond with the same record, of the supply and the reserve in particular. -/
theorem CleanRun.arrival_order_free {cfg : Config} {bonded : Denom → Prop} {log : List Response}
    {m : Market} (h : CleanRun cfg bonded log m) {t : Denom} {b : Bond} {β : Batch}
    (hb : m.store.bond? t = some b) (hβ : m.store.batch t = .ok β) :
    ∃ os m₁ β₁,
      Market.cancelUnfulfillable cfg t
        (m.withBatch t { β with blocksRemaining := β.blocksRemaining - 1 }) = .ok os m₁ ∧
      m₁.store.batch t = .ok β₁ ∧
      ∀ buys sells, buys.Perm β₁.buys → sells.Perm β₁.sells →
        ((∃ os' m', Market.performOrders cfg t m₁ = .ok os' m') ↔ ∃ os' n',
          Market.performOrders cfg t (m₁.withBatch t { β₁ with buys, sells }) = .ok os' n') ∧
        ∀ os' m' os'' n', Market.performOrders cfg t m₁ = .ok os' m' →
          Market.performOrders cfg t (m₁.withBatch t { β₁ with buys, sells }) = .ok os'' n' →
          (∀ a d, n'.balance a d = m'.balance a d) ∧
            ∃ b', m'.store.bond? t = some b' ∧ n'.store.bond? t = some b' := by
  have hsep := h.sound.1
  obtain ⟨-, hcounted, os, m₁, β₁, hrun, hswept⟩ := h.exists_swept hb hβ
  have hpoised := (hswept.sound hcounted hb (Market.get?_withBatch ..)).poised hswept.bond
    hswept.batch
  refine ⟨os, m₁, β₁, hrun, Market.batch_eq_ok hswept.batch, fun buys sells hbuys hsells =>
    ⟨?_, fun os' m' os'' n' hm hn => ?_⟩⟩
  · exact (hpoised.completes_iff hsep).trans ((Market.fillable_reorder_iff hbuys hsells).symm.trans
      ((hpoised.reorder hbuys hsells).completes_iff hsep).symm)
  · have halike := hpoised.performOrders_alike hsep hbuys hsells hm hn
    obtain ⟨⟨_, _, -, -, hexec⟩, -⟩ := (Market.performOrders_sat hsep hpoised.kept hpoised.bond
      hpoised.batch hpoised.current).of_ok hm
    obtain ⟨supply, r, hb', -⟩ := hexec.bond
    exact ⟨halike.balance, b.marked supply r, hb', halike.bond.trans hb'⟩

/-- The bond of `hatchEvents`, with a buy of one token and then a buy of two that wait. -/
def pairEvents : List Event :=
  let buy (amount : Nat) : Event := .request (.buy {
    buyer := "alice", amount := ⟨"abc", amount⟩, maxPrices := [("res", some amount)] })
  hatchEvents.dropLast ++ [buy 1, buy 2]

/-- In a hatch the payments of two buys are divided differently when the later one is filled first,
and all balances are the same in the end. -/
theorem arrival_order_free_pair :
    ∃ log m b β os m₁ β₁ os' m' os'' n', CleanRun {} (· ∈ ["abc"]) log m ∧
      m.store.bond? "abc" = some b ∧ b.inHatch = true ∧ m.store.batch "abc" = .ok β ∧
      Market.cancelUnfulfillable {} "abc"
        (m.withBatch "abc" { β with blocksRemaining := β.blocksRemaining - 1 }) = .ok os m₁ ∧
      m₁.store.batch "abc" = .ok β₁ ∧
      Market.performOrders {} "abc" m₁ = .ok os' m' ∧
      Market.performOrders {} "abc"
        (m₁.withBatch "abc" { β₁ with buys := β₁.buys.reverse, sells := β₁.sells }) =
          .ok os'' n' ∧
      os'.map (fun out => out.funding.amountOf "res") = [1, 0] ∧
      os''.reverse.map (fun out => out.funding.amountOf "res") = [0, 1] ∧
      (∀ a d, n'.balance a d = m'.balance a d) ∧
      ∃ b', m'.store.bond? "abc" = some b' ∧ n'.store.bond? "abc" = some b' := by
  obtain ⟨log, m, hrun, hcheck⟩ := CleanRun.exists_of_playClean ["abc"] pairEvents
    (fun m => (m.store.bond? "abc").any fun b => b.inHatch &&
      (Table.get? m.store.batches "abc").any fun β =>
        (Market.cancelUnfulfillable {} "abc").Sat
          (m.withBatch "abc" { β with blocksRemaining := β.blocksRemaining - 1 })
          (fun _ m₁ => (Table.get? m₁.store.batches "abc").any (fun β₁ =>
            (Market.performOrders {} "abc").Sat m₁
              (fun os _ => os.map (fun out => out.funding.amountOf "res") = [1, 0])
              (fun _ _ => False) ∧
            (Market.performOrders {} "abc").Sat
              (m₁.withBatch "abc" { β₁ with buys := β₁.buys.reverse, sells := β₁.sells })
              (fun os _ => os.reverse.map (fun out => out.funding.amountOf "res") = [0, 1])
              (fun _ _ => False)) = true)
          (fun _ _ => False))
    (by decide +kernel)
  obtain ⟨b, hb, hcheck⟩ := (Option.any_eq_true _ _).1 hcheck
  obtain ⟨hhatch, hcheck⟩ := (Bool.and_eq_true _ _).mp hcheck
  obtain ⟨β, hβ, hcheck⟩ := (Option.any_eq_true _ _).1 hcheck
  have hbatch := Market.batch_eq_ok hβ
  obtain ⟨os, m₁, β₁, hpass, hβ₁, hfree⟩ := hrun.arrival_order_free hb hbatch
  obtain ⟨β₂, hβ₂, hcheck⟩ := (Option.any_eq_true _ _).1 ((of_decide_eq_true hcheck).of_ok hpass)
  obtain rfl : β₂ = β₁ := Except.ok.inj ((Market.batch_eq_ok hβ₂).symm.trans hβ₁)
  obtain ⟨hforward, hbackward⟩ := of_decide_eq_true hcheck
  obtain ⟨os', m', hm, hfunding⟩ := hforward.exists_ok
  obtain ⟨os'', n', hn, hfunding'⟩ := hbackward.exists_ok
  obtain ⟨hbalance, hbond⟩ :=
    (hfree _ _ (List.reverse_perm _) (.refl _)).2 os' m' os'' n' hm hn
  exact ⟨log, m, b, β, os, m₁, β₂, os', m', os'', n', hrun, hb, hhatch, hbatch, hpass, hβ₁, hm, hn,
    hfunding, hfunding', hbalance, hbond⟩

end BondMarket
