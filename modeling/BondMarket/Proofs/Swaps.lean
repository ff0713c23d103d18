import BondMarket.Proofs.Execution

/-!
Executing the swaps of a batch, each in its turn. A swap that the pool can serve is filled; one
that is turned down is marked in the batch of the store and gets its input back. Either way it
takes itself out of the remaining orders, and the books stay in order. Nothing stops a swap: the
escrow account has its input, and the pool has what it gives.
-/

namespace BondMarket

/-- The product of the two reserves of a pool has not fallen. -/
def Bond.Grown (b : Bond) (before after : Denom → Int) : Prop :=
  ∀ x y, b.reserveTokens = [x, y] → before x * before y ≤ after x * after y

theorem Bond.Grown.refl (b : Bond) (reserve : Denom → Int) : b.Grown reserve reserve :=
  fun _ _ _ => le_rfl

theorem Bond.Grown.trans {b : Bond} {r r' r'' : Denom → Int} (h : b.Grown r r')
    (h' : b.Grown r' r'') : b.Grown r r'' :=
  fun x y htokens => (h x y htokens).trans (h' x y htokens)

def SwapOrder.closed (o : SwapOrder) (reason : String) : SwapOrder :=
  { o with cancelReason := some reason }

def SwapOrder.filled (o : SwapOrder) (p : SwapPlan) : Outcome where
  kind := .swap
  address := o.address
  amount := o.amount.toCoins
  fees := p.fee.toCoins
  returned := p.output.toCoins

def SwapOrder.refunded (o : SwapOrder) (reason : String) : Outcome where
  kind := .swap
  address := o.address
  amount := o.amount.toCoins
  cancelReason := some reason
  returned := o.amount.toCoins

namespace Batch

variable {β : Batch} {o : SwapOrder} {pre rest : List SwapOrder}

def withSwaps (β : Batch) (swaps : List SwapOrder) : Batch := { β with swaps }

theorem pledged_withSwaps (ho : o.isOpen = true) (d : Denom) :
    (β.withSwaps (o :: rest)).pledged d =
      o.amount.toCoins.amountOf d + (β.withSwaps rest).pledged d := by
  simp only [pledged, withSwaps, swapPledges, openSum_cons, ho, if_true]
  omega

theorem set_swaps (hβ : β.swaps = pre ++ o :: rest) (o' : SwapOrder) :
    β.swaps.set pre.length o' = pre ++ o' :: rest := by
  simp [hβ]

theorem markSwap_eq (hβ : β.swaps = pre ++ o :: rest) (ho : o.isOpen = true) (reason : String) :
    β.markSwap pre.length reason = .ok (β.withSwaps (pre ++ o.closed reason :: rest)) := by
  have hget : orderAt β.swaps pre.length = .ok o := by simp [orderAt, hβ]
  have hcancel : o.cancel reason = .ok (o.closed reason) := by
    simp [SwapOrder.cancel, Order.cancel, ho, SwapOrder.closed]
  simp only [markSwap, hget, hcancel, set_swaps hβ, Result.ok_bind, Result.pure_eq_ok]
  rfl

end Batch

namespace Market

variable {cfg : Config} {bonded : Denom → Prop} {m m₁ : Market} {token : Denom} {b : Bond}
  {β γ : Batch} {p : ClearingPrices} {total : Int} {reserve : Denom → Int}

/-- The batch in the store is of no account while its orders are executed. -/
theorem Executing.withBatch (h : Executing cfg bonded token b p m₁ total reserve γ β m)
    (γ' : Batch) : Executing cfg bonded token b p m₁ total reserve γ' β (m.withBatch token γ') where
  kept := by
    rw [withBatch_withBatch]
    exact h.kept
  apart := h.apart.trans (apart_withBatch ..)
  bond := h.bond
  batch := get?_withBatch ..
  outlook := h.outlook
  foreign := h.foreign
  raised := h.raised

theorem Held.afterSwap (m' : Market) {supply : Int} {r : Coins} {rest : List SwapOrder}
    {o : SwapOrder} (h : Held cfg m token (b.marked supply r) (β.withSwaps (o :: rest)))
    (htotal : m'.ledger.totalSupply token = m.ledger.totalSupply token) :
    Held cfg m' token (b.marked supply (m'.reserveOf b).dropZeros) (β.withSwaps rest) where
  formed := h.formed.marked _ _
  feeUser := h.feeUser
  orders :=
    { h.orders with swaps := fun o' ho' => h.orders.swaps o' (List.mem_cons_of_mem _ ho') }
  supply_nonneg := h.supply_nonneg
  sells_le := h.sells_le
  buys_le := h.buys_le
  family := h.family
  hatch := h.hatch
  room := h.room
  settled := h.settled
  minted := htotal.trans h.minted
  synced := rfl

theorem amountOf_input {o : SwapOrder} {plan : SwapPlan} {r : Coins}
    (hplan : b.SwapPlanned r o plan) (d : Denom) :
    o.amount.toCoins.amountOf d =
      CoinEntries.amountOf [(o.amount.denom, some plan.netIn)] d + plan.fee.toCoins.amountOf d := by
  have hnet : Coins.Proper [(o.amount.denom, plan.netIn)] :=
    ⟨by simp, fun d n hn => by
      obtain ⟨rfl, rfl⟩ : d = o.amount.denom ∧ n = plan.netIn := by simpa using hn
      exact hplan.net⟩
  have hin := CoinEntries.amountOf_entries hnet d
  rw [Coins.amountOf_cons, Coins.amountOf_nil] at hin
  have hdivides : plan.netIn + plan.fee.amount = o.amount.amount := hplan.divides
  rw [show CoinEntries.amountOf [(o.amount.denom, some plan.netIn)] d = _ from hin,
    Coin.amountOf_toCoins, Coin.amountOf_toCoins, hplan.fee]
  split <;> omega

theorem flow_swapMoves (hsep : cfg.Separate) {o : SwapOrder} {plan : SwapPlan} {r : Coins}
    (haddress : b.reserveAddress = reserveAccountFor token) (hfee : cfg.IsUser b.feeAddress)
    (ho : cfg.IsUser o.address) (hplan : b.SwapPlanned r o plan) (d : Denom) :
    Move.flow cfg.escrowAccount d (b.swapMoves cfg o plan) = -o.amount.toCoins.amountOf d ∧
      (∀ u, Move.flow (reserveAccountFor u) d (b.swapMoves cfg o plan) =
        if u = token then Bond.swapGain o plan d else 0) ∧
      Move.made d (b.swapMoves cfg o plan) = 0 := by
  have hout := Coin.proper_toCoins plan.output
  have hfees := Coin.proper_toCoins plan.fee
  have hinput := amountOf_input hplan d
  refine ⟨?_, fun u => ?_, ?_⟩
  · simp only [Bond.swapMoves, Move.flow_cons, Move.flow_append, LedgerCall.flow,
      Move.flow_transferIfAny hout, Move.flow_transferIfAny hfees, haddress,
      (hsep.escrow_ne_reserve token).symm, hfee.ne_escrow, ho.ne_escrow, if_true, if_false]
    omega
  · simp only [Bond.swapMoves, Move.flow_cons, Move.flow_append, LedgerCall.flow,
      Move.flow_transferIfAny hout, Move.flow_transferIfAny hfees, haddress,
      hsep.escrow_ne_reserve, hfee.ne_reserve, ho.ne_reserve, reserveAccountFor_inj, if_false,
      eq_comm (a := token), Bond.swapGain]
    split <;> omega
  · simp [Bond.swapMoves, LedgerCall.made]

theorem covered_swapMoves (hsep : cfg.Separate) {o : SwapOrder} {plan : SwapPlan} {r : Coins}
    {bal : Account → Denom → Int} (haddress : b.reserveAddress = reserveAccountFor token)
    (ho : cfg.IsUser o.address) (hplan : b.SwapPlanned r o plan)
    (hreserve : ∀ d, r.amountOf d ≤ bal (reserveAccountFor token) d)
    (hescrow : ∀ d, o.amount.toCoins.amountOf d ≤ bal cfg.escrowAccount d) :
    Move.Covered bal (b.swapMoves cfg o plan) := by
  have hout := Coin.proper_toCoins plan.output
  have hfees := Coin.proper_toCoins plan.fee
  refine Move.covered_append.2 ⟨?_, fun d => ?_, ?_⟩
  · refine Move.covered_transferIfAny hout _ _ _ fun d => ?_
    rw [haddress]
    exact (hplan.output d).trans (hreserve d)
  · have hinput := amountOf_input hplan d
    have := hescrow d
    have := hfees.amountOf_nonneg d
    simp only [Move.flow_transferIfAny hout, haddress, (hsep.escrow_ne_reserve token).symm,
      ho.ne_escrow, if_false]
    omega
  · refine Move.covered_transferIfAny hfees _ _ _ fun d => ?_
    have hinput := amountOf_input hplan d
    have := hescrow d
    simp only [LedgerCall.flow, Move.flow_transferIfAny hout, haddress,
      (hsep.escrow_ne_reserve token).symm, ho.ne_escrow, if_true, if_false]
    omega

theorem proper_swapMoves (b : Bond) (cfg : Config) {o : SwapOrder} {plan : SwapPlan} {r : Coins}
    (hplan : b.SwapPlanned r o plan) : ∀ v ∈ b.swapMoves cfg o plan, v.call.Proper := by
  intro v hv
  simp only [Bond.swapMoves, List.mem_append, List.mem_cons] at hv
  rcases hv with hv | rfl | hv
  · exact Move.proper_transferIfAny (Coin.proper_toCoins _) _ _ _ v hv
  · exact Coins.Proper.ofEntries_entries (c := [(o.amount.denom, plan.netIn)])
      ⟨by simp, fun d n hn => by
        obtain ⟨rfl, rfl⟩ : d = o.amount.denom ∧ n = plan.netIn := by simpa using hn
        exact hplan.net⟩
  · exact Move.proper_transferIfAny (Coin.proper_toCoins _) _ _ _ v hv

/-- What is known where a swap, and with it all before it in its list, has been dealt with. Only the
reserve of a swapper bond may have changed by it, and then its product has not fallen. -/
def Swapped (cfg : Config) (bonded : Denom → Prop) (token : Denom) (b : Bond)
    (p : ClearingPrices) (m₁ : Market) (total : Int) (reserve : Denom → Int) (γ β : Batch)
    (m : Market) : Prop :=
  ∃ reserve', (b.isSwapper = false → reserve' = reserve) ∧ b.Grown reserve reserve' ∧
    Executing cfg bonded token b p m₁ total reserve' γ β m

theorem flow_swapMoves_of_ne {o : SwapOrder} {plan : SwapPlan} {a : Account}
    (hescrow : a ≠ cfg.escrowAccount) (hreserve : a ≠ b.reserveAddress) (d : Denom) :
    Move.flow a d (b.swapMoves cfg o plan) =
      (if a = b.feeAddress then plan.fee.toCoins.amountOf d else 0) +
        if a = o.address then plan.output.toCoins.amountOf d else 0 := by
  simp only [Bond.swapMoves, Move.flow_cons, Move.flow_append, LedgerCall.flow,
    Move.flow_transferIfAny (Coin.proper_toCoins _), Ne.symm hescrow, Ne.symm hreserve, if_false,
    eq_comm (a := a)]
  omega

/-- A swap was filled by its plan. The escrow account has given up the input, the reserve has got
what is left of it after the fee and given the output, the fee address has got the fee and the
owner the output, and no other account has changed. The reserve that is left does not leave the
sanity band; of the store only the reserve on record has changed. -/
structure SwapFilled (cfg : Config) (token : Denom) (b : Bond) (o : SwapOrder) (out : Outcome)
    (m m' : Market) : Prop where
  planned : ∃ plan, b.planSwap (m.reserveOf b) o = .ok plan ∧ out = o.filled plan
  escrow : ∀ d, m'.balance cfg.escrowAccount d =
    m.balance cfg.escrowAccount d - o.amount.toCoins.amountOf d
  reserve : ∀ d, m'.balance b.reserveAddress d = m.balance b.reserveAddress d +
    (o.amount.toCoins.amountOf d - out.fees.amountOf d) - out.returned.amountOf d
  others : ∀ a, a ≠ cfg.escrowAccount → a ≠ b.reserveAddress → ∀ d,
    m'.balance a d = m.balance a d + (if a = b.feeAddress then out.fees.amountOf d else 0) +
      if a = o.address then out.returned.amountOf d else 0
  sane : b.violatesSanity (m'.reserveOf b) = .ok false
  store : m'.store =
    (m.withBond token { b with reserve := (m'.reserveOf b).dropZeros }).store

/-- A swap was turned down where it has no plan. Its owner has got the input back from the escrow
account, and no other account has changed; in the store the swap has been marked with the reason,
and nothing else has changed. -/
structure SwapCancelled (cfg : Config) (token : Denom) (index : Nat) (b : Bond) (o : SwapOrder)
    (out : Outcome) (m m' : Market) : Prop where
  turnedDown : ∃ e γ, b.planSwap (m.reserveOf b) o = .error e ∧ out = o.refunded e.message ∧
    m.store.batch token = .ok γ ∧ m'.store = (m.withBatch token
      { γ with swaps := γ.swaps.set index { o with cancelReason := some e.message } }).store
  escrow : ∀ d, m'.balance cfg.escrowAccount d =
    m.balance cfg.escrowAccount d - o.amount.toCoins.amountOf d
  others : ∀ a, a ≠ cfg.escrowAccount → ∀ d,
    m'.balance a d = m.balance a d + if a = o.address then o.amount.toCoins.amountOf d else 0

theorem swapCancelled_of_posted {pre rest : List SwapOrder} {o : SwapOrder}
    (ho : cfg.IsUser o.address) (hγ : γ.swaps = pre ++ o :: rest)
    (hbatch : Table.get? m.store.batches token = some γ) {e : Error}
    (hplan : b.planSwap (m.reserveOf b) o = .error e) {m' : Market} {made : Denom → Int}
    (hpost : (m.withBatch token (γ.withSwaps (pre ++ o.closed e.message :: rest))).Posted m'
      (fun a d => Move.flow a d
        (Move.transferIfAny .releaseEscrow cfg.escrowAccount o.address o.amount.toCoins)) made) :
    SwapCancelled cfg token pre.length b o (o.refunded e.message) m m' := by
  have hinput := Coin.proper_toCoins o.amount
  refine ⟨⟨e, γ, hplan, rfl, batch_eq_ok hbatch, ?_⟩, fun d => ?_, fun a ha d => ?_⟩
  · rw [Batch.set_swaps hγ]
    exact hpost.store
  · rw [balance, hpost.balance, flow_refund cfg hinput _ _ _ ho.ne_escrow.symm, if_pos rfl]
    rfl
  · rw [balance, hpost.balance, Move.flow_transferIfAny hinput, if_neg (Ne.symm ha), sub_zero]
    simp only [eq_comm (a := a)]
    rfl

theorem cancelSwap_sat (hsep : cfg.Separate) {pre rest : List SwapOrder} {o : SwapOrder}
    (hopen : o.isOpen = true) (hγ : γ.swaps = pre ++ o :: rest)
    (h : Executing cfg bonded token b p m₁ total reserve γ (β.withSwaps (o :: rest)) m)
    {b' : Bond} {e : Error} (hplan : b'.planSwap (m.reserveOf b') o = .error e) :
    (cancelSwap cfg token pre.length o e.message).Sat m
      (fun out m' => Executing cfg bonded token b p m₁ total reserve
          (γ.withSwaps (pre ++ o.closed e.message :: rest)) (β.withSwaps rest) m' ∧
        o.toOrder.Reported .swap out ∧ Gained token [out] m m' ∧
        SwapCancelled cfg token pre.length b' o out m m')
      (fun _ _ => False) := by
  obtain ⟨supply, r, hb, htotal, hheld⟩ := h.held
  have ho := hheld.orders.swaps o List.mem_cons_self
  have hinput := Coin.proper_toCoins o.amount
  have hescrow (d : Denom) : o.amount.toCoins.amountOf d ≤ m.balance cfg.escrowAccount d :=
    (hheld.orders.amount_le_pledged (by simp [Batch.withSwaps]) d).trans (h.pledged_le d)
  simp only [cancelSwap, Action.sat_bind, Action.sat_get,
    Action.sat_lift_of_ok (batch_eq_ok h.batch),
    Action.sat_lift_of_ok (Batch.markSwap_eq hγ hopen e.message), setBatch, Action.sat_modify,
    Action.sat_pure]
  have h' := h.withBatch (γ.withSwaps (pre ++ o.closed e.message :: rest))
  apply (transferIfAny_sat (m := m.withBatch token _) h'.refusals h'.solvent hinput
    .releaseEscrow o.address hescrow).of_total
  intro _ m₂ hpost
  have hcancelled := swapCancelled_of_posted ho.user hγ h.batch hplan hpost
  have hrefund := fun a ha d => flow_refund cfg hinput o.address .releaseEscrow a ha d
  -- The refund goes past the reserve, so that the record of the bond stays what it was.
  have hreserve : ∀ u d, Move.flow (reserveAccountFor u) d
      (Move.transferIfAny .releaseEscrow cfg.escrowAccount o.address o.amount.toCoins) = 0 := by
    intro u d
    rw [hrefund _ (ho.user.ne_reserve u).symm, if_neg (hsep.escrow_ne_reserve u).symm]
  have hbalance (d : Denom) : m₂.balance (reserveAccountFor token) d =
      m.balance (reserveAccountFor token) d := by
    rw [hcancelled.others _ (hsep.escrow_ne_reserve token).symm,
      if_neg (ho.user.ne_reserve token).symm, add_zero]
  have haddress : b.reserveAddress = reserveAccountFor token := hheld.formed.address
  have hsame : m₂.reserveOf b = m.reserveOf b := reserveOf_congr (haddress ▸ hbalance)
  have hr : r = (m₂.reserveOf b).dropZeros := hsame ▸ hheld.synced
  have hfill := h'.fill hb hpost (fun u _ d => hreserve u d)
    (fun _ _ => rfl) (hheld.afterSwap m₂ ((hpost.total token).trans (add_zero _))) (fun d => ?_)
    htotal (fun _ d => by rw [hreserve, zero_add]; rfl) (fun d _ => hreserve _ d)
    (fun hhatch hraised => (h.raised hhatch hraised _ hb).congr
      (show ∀ d, m₂.balance b.reserveAddress d = _ from haddress ▸ hbalance))
  · have hb₂ : Table.get? m₂.store.bonds token =
        some (b.marked supply (m₂.reserveOf b).dropZeros) := by
      rw [hpost.store, ← hr]
      exact hb
    rw [withBond_self hb₂] at hfill
    refine ⟨hfill, ⟨rfl, rfl, rfl⟩, fun d => ?_, hcancelled⟩
    rw [List.map_singleton, List.sum_singleton, Outcome.reserveGain_of_cancelled rfl, add_zero]
    exact hbalance d
  · rw [hrefund _ ho.user.ne_escrow.symm, if_pos rfl, Batch.pledged_withSwaps hopen]
    omega

theorem swapFilled_of_posted (hsep : cfg.Separate) {o : SwapOrder} {plan : SwapPlan}
    (haddress : b.reserveAddress = reserveAccountFor token) (hfee : cfg.IsUser b.feeAddress)
    (ho : cfg.IsUser o.address) (hplanned : b.SwapPlanned (m.reserveOf b) o plan)
    (hplan : b.planSwap (m.reserveOf b) o = .ok plan) {m' : Market} {made : Denom → Int}
    (hpost : m.Posted m' (fun a d => Move.flow a d (b.swapMoves cfg o plan)) made) :
    SwapFilled cfg token b o (o.filled plan) m
      (m'.withBond token { b with reserve := (m'.reserveOf b).dropZeros }) := by
  have hflow := flow_swapMoves hsep haddress hfee ho hplanned
  have hreserve (d : Denom) : m'.balance b.reserveAddress d =
      m.balance b.reserveAddress d + Bond.swapGain o plan d := by
    rw [balance, hpost.balance, haddress, (hflow d).2.1, if_pos rfl]
  refine ⟨⟨plan, hplan, rfl⟩, fun d => ?_, fun d => ?_, fun a hescrow ha d => ?_, ?_, ?_⟩
  · show m'.balance cfg.escrowAccount d = _
    rw [balance, hpost.balance, (hflow d).1, ← sub_eq_add_neg]
  · exact (hreserve d).trans (add_sub_assoc ..).symm
  · show m'.balance a d = _
    rw [balance, hpost.balance, flow_swapMoves_of_ne hescrow ha, ← add_assoc]
    rfl
  · -- The reserve has become what the swap was checked on before a coin moved.
    refine hplanned.sane hplan (nodup_keys_reserveOf m b) fun d hd => ?_
    show (m'.reserveOf b).amountOf d = _
    rw [amountOf_reserveOf, amountOf_reserveOf, if_pos hd, if_pos hd, hreserve]
  · show (m'.withBond token _).store = _
    simp only [withBond, hpost.store]
    rfl

/-- Where no buy and no sell is left, the reserve that is kept account of is what the pool has, and
a swap lets its product grow. -/
theorem Executing.grown_of_swap (h : Executing cfg bonded token b p m₁ total reserve γ β m)
    (hswap : b.isSwapper = true) (hnone : ∀ d, β.outlook p d = 0) {supply : Int} {r : Coins}
    (hf : (b.marked supply r).Formed token) {o : SwapOrder} {plan : SwapPlan}
    (hplanned : (b.marked supply r).SwapPlanned (m.reserveOf b) o plan) :
    b.Grown reserve (fun d => reserve d + Bond.swapGain o plan d) := by
  intro x y htokens
  have haddress : b.reserveAddress = reserveAccountFor token := hf.address
  have hpool {d : Denom} (hd : d ∈ b.reserveTokens) : (m.reserveOf b).amountOf d = reserve d := by
    have hleft := h.outlook (Bond.inHatch_eq_false hswap) d
    rw [amountOf_reserveOf, if_pos hd, haddress, ← hleft, hnone, add_zero]
  have hne : x ≠ y := by
    have hdistinct : (b.marked supply r).reserveTokens.Nodup := hf.distinct
    simpa [Bond.marked, htokens] using hdistinct
  have hproduct := hplanned.product_le htokens hne (proper_reserveOf h.solvent b).amountOf_nonneg
  rwa [hpool (by simp [htokens]), hpool (by simp [htokens])] at hproduct

theorem fillSwap_sat (hsep : cfg.Separate) {rest : List SwapOrder} {o : SwapOrder}
    (hopen : o.isOpen = true) {supply : Int} {r : Coins}
    (hb : Table.get? m.store.bonds token = some (b.marked supply r))
    (htotal : supply + β.totalBuy - β.totalSell = total)
    (hheld : Held cfg m token (b.marked supply r) (β.withSwaps (o :: rest)))
    (h : Executing cfg bonded token b p m₁ total reserve γ (β.withSwaps (o :: rest)) m)
    {plan : SwapPlan} (hnone : ∀ d, β.outlook p d = 0) (hswap : b.isSwapper = true)
    (hplanned : (b.marked supply r).SwapPlanned (m.reserveOf b) o plan)
    (hplan : (b.marked supply r).planSwap (m.reserveOf b) o = .ok plan) :
    (carryOutAll ((b.marked supply r).swapMoves cfg o plan)).Sat m
      (fun _ m' => (syncReserve token).Sat m'
        (fun _ m'' => Swapped cfg bonded token b p m₁ total reserve γ (β.withSwaps rest) m'' ∧
          SwapFilled cfg token (b.marked supply r) o (o.filled plan) m m'')
        (fun _ _ => False))
      (fun _ _ => False) := by
  have ho := hheld.orders.swaps o List.mem_cons_self
  have haddress : b.reserveAddress = reserveAccountFor token := hheld.formed.address
  have hflow := flow_swapMoves hsep hheld.formed.address hheld.feeUser ho.user hplanned
  have hreserve (d : Denom) : (m.reserveOf b).amountOf d ≤
      m.balance (reserveAccountFor token) d := haddress ▸ amountOf_reserveOf_le h.solvent b d
  have hescrow (d : Denom) : o.amount.toCoins.amountOf d ≤ m.balance cfg.escrowAccount d :=
    (hheld.orders.amount_le_pledged (by simp [Batch.withSwaps]) d).trans (h.pledged_le d)
  apply (carryOutAll_covered h.refusals h.solvent (proper_swapMoves _ cfg hplanned)
    (covered_swapMoves hsep hheld.formed.address ho.user hplanned hreserve hescrow)).of_total
  intro _ m₂ hpost
  have hb₂ : Table.get? m₂.store.bonds token = some (b.marked supply r) := hpost.bond hb
  have htotal₂ : m₂.ledger.totalSupply token = m.ledger.totalSupply token := by
    rw [hpost.total, (hflow token).2.2, add_zero]
  have hgain (d : Denom) : Move.flow (reserveAccountFor token) d
      ((b.marked supply r).swapMoves cfg o plan) = Bond.swapGain o plan d :=
    ((hflow d).2.1 token).trans (if_pos rfl)
  have hhatch := Bond.inHatch_eq_false hswap
  rw [syncReserve_sat hb₂]
  refine ⟨⟨fun d => reserve d + Bond.swapGain o plan d, fun hnot => ?_,
      h.grown_of_swap hswap hnone hheld.formed hplanned, ?_⟩,
    swapFilled_of_posted hsep hheld.formed.address hheld.feeUser ho.user hplanned hplan hpost⟩
  · cases hswap.symm.trans hnot
  · refine h.fill hb hpost (fun u hu d => by rw [(hflow d).2.1, if_neg hu])
      (fun d _ => (hflow d).2.2) (hheld.afterSwap m₂ htotal₂) (fun d => ?_) htotal (fun _ d => ?_)
      (fun d hd => (hgain d).trans (hplanned.swapGain_eq_zero hd)) fun hh => ?_
    · rw [(hflow d).1, Batch.pledged_withSwaps hopen]
      omega
    · show _ + β.outlook p d + _ = β.outlook p d + _
      rw [hgain]
      omega
    · cases hhatch.symm.trans hh

theorem performSwap_sat (hsep : cfg.Separate) {pre rest : List SwapOrder} {o : SwapOrder}
    (hγ : γ.swaps = pre ++ o :: rest) (hnone : ∀ d, β.outlook p d = 0)
    (h : Executing cfg bonded token b p m₁ total reserve γ (β.withSwaps (o :: rest)) m) :
    (performSwap cfg token pre.length).Sat m
      (fun out m' => o.toOrder.Reported .swap out ∧ Gained token [out] m m' ∧
        (∃ o', Swapped cfg bonded token b p m₁ total reserve (γ.withSwaps (pre ++ o' :: rest))
          (β.withSwaps rest) m') ∧
        ∃ b', Table.get? m.store.bonds token = some b' ∧ (SwapFilled cfg token b' o out m m' ∨
          SwapCancelled cfg token pre.length b' o out m m'))
      (fun _ _ => False) := by
  obtain ⟨supply, r, hb, htotal, hheld⟩ := h.held
  have hopen := (hheld.orders.swaps o List.mem_cons_self).isOpen
  have horder : Batch.orderAt γ.swaps pre.length = .ok o := by simp [Batch.orderAt, hγ]
  have hsame : γ.withSwaps (pre ++ o :: rest) = γ := by rw [← hγ]; rfl
  simp only [performSwap, Action.sat_bind, Action.sat_get, Action.sat_lift_of_ok (bond_eq_ok hb),
    Action.sat_lift_of_ok (batch_eq_ok h.batch), Action.sat_lift_of_ok horder]
  obtain ⟨hreject, hplanned⟩ := Bond.planSwap_spec hheld.formed
    (proper_reserveOf h.solvent (b.marked supply r)).amountOf_nonneg o
  cases hplan : (b.marked supply r).planSwap (m.reserveOf (b.marked supply r)) o with
  | error e =>
      simp only [hreject e hplan, if_true]
      apply (cancelSwap_sat hsep hopen hγ h hplan).of_total
      intro out m' hdone
      obtain ⟨hexec, hreported, hgained, hcancelled⟩ := hdone
      exact ⟨hreported, hgained, ⟨_, _, fun _ => rfl, .refl b _, hexec⟩, _, hb, .inr hcancelled⟩
  | ok plan =>
      obtain ⟨hswap, hplanned⟩ := hplanned plan hplan
      simp only [Action.sat_bind, Action.sat_pure]
      apply (fillSwap_sat hsep hopen hb htotal hheld h hnone hswap hplanned hplan).imp
      intro _ m' h'
      apply h'.imp
      intro _ m'' h''
      obtain ⟨hexec, hfilled⟩ := h''
      refine ⟨⟨rfl, rfl, rfl⟩, fun d => ?_, ⟨o, hsame.symm ▸ hexec⟩, _, hb, .inl hfilled⟩
      have haddress : (b.marked supply r).reserveAddress = _ := hheld.formed.address
      rw [List.map_singleton, List.sum_singleton, ← haddress, hfilled.reserve, add_sub_assoc]
      rfl

theorem performOpenSwap_sat (hsep : cfg.Separate) {pre rest : List SwapOrder} {o : SwapOrder}
    (hγ : γ.swaps = pre ++ o :: rest) (hnone : ∀ d, β.outlook p d = 0)
    (h : Executing cfg bonded token b p m₁ total reserve γ (β.withSwaps (o :: rest)) m) :
    (performOpenSwap cfg token pre.length).Sat m
      (fun out? m' => ∃ o' out, out? = some out ∧ o.toOrder.Reported .swap out ∧
        Gained token [out] m m' ∧ Swapped cfg bonded token b p m₁ total reserve
          (γ.withSwaps (pre ++ o' :: rest)) (β.withSwaps rest) m')
      (fun _ _ => False) := by
  obtain ⟨_, _, -, -, hheld⟩ := h.held
  have hopen := (hheld.orders.swaps o List.mem_cons_self).isOpen
  have horder : Batch.orderAt γ.swaps pre.length = .ok o := by simp [Batch.orderAt, hγ]
  simp only [performOpenSwap, Action.sat_bind, Action.sat_get,
    Action.sat_lift_of_ok (batch_eq_ok h.batch), Action.sat_lift_of_ok horder, hopen, if_true,
    Action.sat_pure]
  apply (performSwap_sat hsep hγ hnone h).imp
  intro out m' hdone
  obtain ⟨hreported, hgained, ⟨o', hexec⟩, -⟩ := hdone
  exact ⟨o', out, rfl, hreported, hgained, hexec⟩

end Market
end BondMarket
