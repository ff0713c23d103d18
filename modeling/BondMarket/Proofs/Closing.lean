import BondMarket.Proofs.Liquidity
import BondMarket.Market.Lifecycle

/-!
Closing a batch. The open buys, then the open sells, then the swaps are executed one after another;
each loop keeps what its single step keeps, so that in the end no order remains and the books are
in order with an empty batch. What is left to look at is the bond, which may leave its hatch. Every
order has been reported, and the reserve has gained what is reported.

A closing that is stopped is stopped by a buy or by a sell: the books themselves are never at fault.
-/

namespace BondMarket

theorem openSum_filter {α : Type} (isOpen : α → Bool) (f : α → Int) (orders : List α) :
    openSum isOpen f (orders.filter isOpen) = openSum isOpen f orders := by
  simp [openSum]

def Settlement.fillsOf (s : Settlement) (token : Denom) : Nat :=
  if s.token = token then s.fills.length else 0

def Settlement.fillsIn (ss : List Settlement) (token : Denom) : Nat :=
  (ss.map fun s => s.fillsOf token).sum

namespace Batch

variable {cfg : Config} {token : Denom} {β : Batch}

def blank (token : Denom) (blocks : Nat) : Batch := { token, blocksRemaining := blocks }

/-- A batch of which only the open buys and sells are left, besides the swaps. -/
def pending (β : Batch) : Batch := (β.withBuys β.openBuys).withSells β.openSells

def drained (β : Batch) : Batch := ((β.withBuys []).withSells []).withSwaps []

/-- The settlement of a batch of which the open orders have been executed: the buys that were
cancelled before are reported first. -/
def settlement (β : Batch) (token : Denom) (executed : List Outcome) : Settlement where
  token
  buyPrices := β.buyPrices
  sellPrices := β.sellPrices
  outcomes := (β.buys.filter fun o => !o.isOpen).map Outcome.ofCancelledBuy ++ executed

theorem new_eq_ok {blocks : Int} (h : 0 ≤ blocks) :
    new token blocks = .ok (blank token blocks.toNat) := by
  simp only [new, not_lt.2 h, if_false, blank]

@[simp] theorem pledged_blank (blocks : Nat) (d : Denom) : (blank token blocks).pledged d = 0 := rfl

@[simp] theorem outlook_drained (p : ClearingPrices) (d : Denom) : β.drained.outlook p d = 0 := rfl

theorem Formed.blank (blocks : Nat) : (blank token blocks).Formed cfg token where
  buys _ ho := (List.not_mem_nil ho).elim
  sells _ ho := (List.not_mem_nil ho).elim
  swaps _ ho := (List.not_mem_nil ho).elim
  totalBuy := rfl
  totalSell := rfl

theorem Formed.totalBuy_pending (h : β.Formed cfg token) : β.pending.totalBuy = β.totalBuy :=
  (openSum_filter ..).trans h.totalBuy.symm

theorem Formed.totalSell_pending (h : β.Formed cfg token) : β.pending.totalSell = β.totalSell :=
  (openSum_filter ..).trans h.totalSell.symm

theorem Formed.pending (h : β.Formed cfg token) : β.pending.Formed cfg token where
  buys o ho := h.buys o (List.mem_filter.1 ho).1
  sells o ho := h.sells o (List.mem_filter.1 ho).1
  swaps := h.swaps
  totalBuy := rfl
  totalSell := rfl

theorem sumSizes_eq (orders : List Order) :
    sumSizes orders = (orders.map fun o => o.size).sum := by
  induction orders with
  | nil => rfl
  | cons o orders ih => rw [sumSizes, ih, List.map_cons, List.sum_cons]

theorem Formed.violations_eq_nil (h : β.Formed cfg token) : β.violations = [] := by
  have hbuys : β.totalBuy = sumSizes (β.openBuys.map fun o => o.toOrder) := by
    rw [sumSizes_eq, List.map_map]
    exact h.totalBuy
  have hsells : β.totalSell = sumSizes β.openSells := (sumSizes_eq _).symm ▸ h.totalSell
  have hsigns : ¬ (β.totalBuy < 0 ∨ β.totalSell < 0) := by
    have := h.totalBuy_nonneg
    have := h.totalSell_nonneg
    omega
  simp only [violations, ← hbuys, ← hsells, hsigns, ne_eq, not_true_eq_false, if_false,
    List.append_nil]

@[simp] theorem pledged_pending (d : Denom) : β.pending.pledged d = β.pledged d :=
  congrArg (· + swapPledges β.swaps d) (openSum_filter ..)

@[simp] theorem outlook_pending (p : ClearingPrices) (d : Denom) :
    β.pending.outlook p d = β.outlook p d :=
  congrArg₂ (· - ·) (openSum_filter ..) (openSum_filter ..)

end Batch

theorem BuyOrder.Reported.of_passed {b : Bond} {prices : DecCoins} {o o' : BuyOrder}
    {out : Outcome} (h : o'.Reported out) (ho : b.Passed prices o o') : o.Reported out := by
  cases ho with
  | kept => exact h
  | cancelled hopen =>
      exact {
        kind := h.kind, address := h.address, amount := h.amount, divides := h.divides
        uncharged := h.uncharged, closed := fun hclosed => by cases hopen.symm.trans hclosed }

namespace Market

variable {cfg : Config} {bonded : Denom → Prop} {m m₁ : Market} {token : Denom} {b : Bond}
  {β γ : Batch} {p : ClearingPrices} {total : Int} {reserve : Denom → Int}

/-! ### The loops -/

/-- Where each order of a list takes itself out and is reported, none remains and all are reported,
and the reserve has gained what is reported. -/
theorem gather_orders_sat {α : Type} {act : α → Action Outcome} {J : List α → Market → Prop}
    {R : α → Outcome → Prop} {E : Error → Market → Prop} {orders : List α}
    (step : ∀ o ∈ orders, ∀ rest m, J (o :: rest) m →
      (act o).Sat m (fun out m' => J rest m' ∧ R o out ∧ Gained token [out] m m') E)
    (h : J orders m) :
    (gather (fun o => some <$> act o) orders).Sat m
      (fun os m' => J [] m' ∧ List.Forall₂ R orders os ∧ Gained token os m m') E := by
  refine (Action.sat_gather
    (I := fun rest os m' => J rest m' ∧ Gained token os m m' ∧
      ∃ done, orders = done ++ rest ∧ List.Forall₂ R done os)
    ?_ orders ⟨h, .nil fun _ => rfl, [], rfl, .nil⟩).imp fun os m' hI => ?_
  · rintro o rest os m' ⟨hJ, hgained, done, hsplit, hreported⟩
    rw [Action.sat_map]
    apply (step o (hsplit ▸ by simp) rest m' hJ).imp
    intro out m'' hout
    obtain ⟨hJ', hR, hgained'⟩ := hout
    exact ⟨hJ', hgained.append hgained', done ++ [o], by simpa using hsplit,
      List.rel_append hreported (.cons hR .nil)⟩
  · obtain ⟨hJ, hgained, done, hsplit, hreported⟩ := hI
    rw [List.append_nil] at hsplit
    exact ⟨hJ, hsplit ▸ hreported, hgained⟩

/-- The swaps at the first `n` places are filled or cancelled, if there are as many, and those after
them remain. -/
theorem performSwapsTo_sat (hsep : cfg.Separate) (hnone : ∀ d, β.outlook p d = 0)
    (h : Executing cfg bonded token b p m₁ total reserve γ (β.withSwaps γ.swaps) m) (n : Nat) :
    (gather (performOpenSwap cfg token) (List.range n)).Sat m
      (fun os m' => ∃ front front' back, γ.swaps = front ++ back ∧ front.length = n ∧
        front'.length = n ∧ Swapped cfg bonded token b p m₁ total reserve
          (γ.withSwaps (front' ++ back)) (β.withSwaps back) m' ∧
        List.Forall₂ (fun o out => o.toOrder.Reported .swap out) front os ∧ Gained token os m m')
      (fun _ _ => γ.swaps.length < n) := by
  refine (Action.sat_gather
    (I := fun is os m' => ∃ front front' back, γ.swaps = front ++ back ∧
      front'.length = front.length ∧ n = front.length + is.length ∧
      is = List.range' front.length is.length ∧ Swapped cfg bonded token b p m₁ total reserve
        (γ.withSwaps (front' ++ back)) (β.withSwaps back) m' ∧
      List.Forall₂ (fun o out => o.toOrder.Reported .swap out) front os ∧ Gained token os m m')
    ?_ _ ⟨[], [], γ.swaps, rfl, rfl, by simp, by simp [List.range_eq_range'],
      ⟨reserve, fun _ => rfl, .refl b _, h⟩, .nil, .nil fun _ => rfl⟩).imp fun os m' hI => ?_
  · rintro i is os m' ⟨front, front', back, hγ, hlength, hn, his, hswapped, hreported, hgained⟩
    obtain ⟨reserve', hsame, hgrown, hexec⟩ := hswapped
    rw [List.length_cons, List.range'_succ, List.cons.injEq] at his
    obtain ⟨rfl, his⟩ := his
    cases back with
    | nil =>
        -- There is no swap at this place.
        have hend : Batch.orderAt (γ.withSwaps (front' ++ [])).swaps front.length =
            (Fault.noSuchOrder front.length).fail := by
          simp [Batch.orderAt, Batch.withSwaps, ← hlength]
        simp only [performOpenSwap, Action.sat_bind, Action.sat_get,
          Action.sat_lift_of_ok (batch_eq_ok hexec.batch), Action.sat_lift_of_error hend]
        rw [hn, hγ, List.append_nil, List.length_cons]
        omega
    | cons o back =>
        rw [← hlength]
        apply (performOpenSwap_sat hsep rfl hnone hexec).of_total
        intro out? m'' hout
        obtain ⟨o', out, rfl, hR, hgained', reserve'', hsame', hgrown', hexec'⟩ := hout
        refine ⟨front ++ [o], front' ++ [o'], back, by simpa using hγ, by simp [hlength],
          by simp only [hn, List.length_cons, List.length_append, List.length_nil]; omega,
          by simpa using his, ⟨reserve'', fun hnot => (hsame' hnot).trans (hsame hnot),
            hgrown.trans hgrown', ?_⟩,
          List.rel_append hreported (.cons hR .nil), hgained.append hgained'⟩
        simpa [Batch.withSwaps] using hexec'
  · obtain ⟨front, front', back, hγ, hlength, hn, -, hdone⟩ := hI
    exact ⟨front, front', back, hγ, hn.symm, hlength.trans hn.symm, hdone⟩

theorem performSwaps_sat (hsep : cfg.Separate) (hnone : ∀ d, β.outlook p d = 0)
    (h : Executing cfg bonded token b p m₁ total reserve γ (β.withSwaps γ.swaps) m) :
    (gather (performOpenSwap cfg token) (List.range γ.swaps.length)).Sat m
      (fun os m' => (∃ swaps, Swapped cfg bonded token b p m₁ total reserve (γ.withSwaps swaps)
          (β.withSwaps []) m') ∧
        List.Forall₂ (fun o out => o.toOrder.Reported .swap out) γ.swaps os ∧
        Gained token os m m')
      (fun _ _ => False) := by
  refine (performSwapsTo_sat hsep hnone h γ.swaps.length).mono (fun os m' hdone => ?_)
    fun _ _ hlt => (lt_irrefl _ hlt).elim
  obtain ⟨front, front', back, hγ, hfront, -, hswapped, hdone⟩ := hdone
  obtain rfl : back = [] := by simpa [hfront] using congrArg List.length hγ
  rw [List.append_nil] at hγ
  exact ⟨⟨_, hswapped⟩, hγ ▸ hdone⟩

theorem Kept.executing (h : Kept cfg bonded m) (hb : Table.get? m.store.bonds token = some b)
    (hβ : Table.get? m.store.batches token = some β) (p : ClearingPrices) :
    Executing cfg bonded token b p m (b.supply + β.totalBuy - β.totalSell)
      (fun d => m.balance (reserveAccountFor token) d + β.outlook p d) β β.pending m := by
  have hheld := h.held_of_get? hb hβ
  have hbuy := hheld.orders.totalBuy_pending
  have hsell := hheld.orders.totalSell_pending
  refine {
    kept := ?_, apart := .refl token m, batch := hβ
    bond := ⟨b.supply, b.reserve, hb, by rw [hbuy, hsell]⟩
    outlook := fun _ d => by rw [Batch.outlook_pending], foreign := fun _ _ => rfl
    raised := fun _ hraised b' hb' => Option.some.inj (hb.symm.trans hb') ▸ hraised }
  refine h.replace (apart_withBatch ..) hβ hb (get?_withBatch ..) ?_ h.solvent fun d => ?_
  · exact Held.congr (m := m) { hheld with
      orders := hheld.orders.pending
      sells_le := hsell ▸ hheld.sells_le
      buys_le := hbuy ▸ hheld.buys_le
      hatch := hsell ▸ hheld.hatch
      room := hbuy ▸ hheld.room
      settled := hbuy ▸ hsell ▸ hheld.settled
      minted := hsell ▸ hheld.minted } (fun _ => rfl) rfl
  · rw [Batch.pledged_pending]
    rfl

theorem Held.outlook_nonneg (h : Held cfg m token b β) (hs : m.ledger.Solvent)
    (hc : m.Current b β) (hsells : β.totalSell = 0) (d : Denom) :
    0 ≤ β.outlook ⟨β.buyPrices, β.sellPrices⟩ d := by
  have hnone : openSum (fun o => o.isOpen)
      (fun o => ((β.sellPrices.times o.size).amountOf d).floorInt) β.sells = 0 := by
    show (β.openSells.map _).sum = 0
    rw [h.orders.openSells_eq_nil hsells, List.map_nil, List.sum_nil]
  rw [Batch.outlook, hnone, sub_zero]
  rcases h.orders.totalBuy_nonneg.eq_or_lt with hzero | hpos
  · show 0 ≤ (β.openBuys.map _).sum
    rw [h.orders.openBuys_eq_nil hzero.symm, List.map_nil, List.sum_nil]
  · have hproper := (h.prices_proper hs hc (by omega)).1
    exact openSum_nonneg fun o ho => Dec.ceilInt_nonneg
      ((hproper.times (h.orders.buys o ho).size_pos.le).amountOf_nonneg d)

theorem performBuys_sat (hsep : cfg.Separate) (h : Kept cfg bonded m)
    (hb : Table.get? m.store.bonds token = some b)
    (hβ : Table.get? m.store.batches token = some β) (hc : m.Current b β) {short : Prop} :
    (gather (fun o => some <$> performBuy cfg token o β.buyPrices) β.openBuys).Sat m
      (fun os m' => Executing cfg bonded token b ⟨β.buyPrices, β.sellPrices⟩ m
          (b.supply + β.totalBuy - β.totalSell) (m.afterOrders token β) β
          ((β.withBuys []).withSells β.openSells) m' ∧
        List.Forall₂ (fun o out => BuyOrder.Reported o out ∧ out.isFill = true ∧
          o.Charged β.buyPrices out) β.openBuys os ∧
        Gained token os m m' ∧ ∀ o ∈ β.openBuys, b.Affords o β.buyPrices)
      (Halted token b short m) := by
  have hheld := h.held_of_get? hb hβ
  apply (gather_orders_sat
    (J := fun rest m' => Executing cfg bonded token b ⟨β.buyPrices, β.sellPrices⟩ m _ _ β
      ((β.withSells β.openSells).withBuys rest) m')
    (fun o ho rest m' hexec => performBuy_sat hsep
      (hheld.prices_proper h.solvent hc (hheld.orders.total_pos_of_buy ho)).1
      (hheld.prices_confined h.solvent hc (hheld.orders.total_pos_of_buy ho)).1
      (List.mem_filter.1 ho).2 hexec)
    (h.executing hb hβ _)).imp
  intro os m' hbought
  obtain ⟨hexec, hbuys, hgained⟩ := hbought
  obtain ⟨hafford, hbuys⟩ := (List.forall₂_and_left ..).1 hbuys
  exact ⟨hexec, hbuys, hgained, hafford⟩

theorem performSells_sat (hsep : cfg.Separate) (h : Kept cfg bonded m)
    (hb : Table.get? m.store.bonds token = some b)
    (hβ : Table.get? m.store.batches token = some β) (hc : m.Current b β)
    (hexec : Executing cfg bonded token b ⟨β.buyPrices, β.sellPrices⟩ m
      (b.supply + β.totalBuy - β.totalSell) (m.afterOrders token β) β
      ((β.withBuys []).withSells β.openSells) m₁) :
    (gather (fun o => some <$> performSell token o β.sellPrices) β.openSells).Sat m₁
      (fun os m' => Executing cfg bonded token b ⟨β.buyPrices, β.sellPrices⟩ m
          (b.supply + β.totalBuy - β.totalSell) (m.afterOrders token β) β
          ((β.withBuys []).withSells []) m' ∧
        List.Forall₂ (fun o out => Order.Reported .sell o out ∧ out.isFill = true ∧
          o.Paid β.sellPrices out) β.openSells os ∧
        Gained token os m₁ m')
      (Halted token b (∃ d, m.afterOrders token β d < 0) m) := by
  have hheld := h.held_of_get? hb hβ
  exact gather_orders_sat
    (J := fun rest m' => Executing cfg bonded token b ⟨β.buyPrices, β.sellPrices⟩ m _ _ β
      ((β.withBuys []).withSells rest) m')
    (fun o ho rest m' hexec => performSell_sat (p := ⟨β.buyPrices, β.sellPrices⟩) hsep
      (hheld.prices_proper h.solvent hc (hheld.orders.total_pos_of_sell ho)).2
      (hheld.prices_confined h.solvent hc (hheld.orders.total_pos_of_sell ho)).2
      (List.mem_filter.1 ho).2 rfl hexec) hexec

/-- The open orders of a batch are executed: no order remains, every buy and every sell has been
filled, every buy could pay for itself, and the reserve has what the prices say. -/
theorem performOrders_sat (hsep : cfg.Separate) (h : Kept cfg bonded m)
    (hb : Table.get? m.store.bonds token = some b)
    (hβ : Table.get? m.store.batches token = some β) (hc : m.Current b β) :
    (performOrders cfg token).Sat m
      (fun os m' => (∃ swaps, Swapped cfg bonded token b ⟨β.buyPrices, β.sellPrices⟩ m
          (b.supply + β.totalBuy - β.totalSell) (m.afterOrders token β) (β.withSwaps swaps)
          β.drained m') ∧
        β.Performed os ∧ Gained token os m m' ∧ (∀ o ∈ β.openBuys, b.Affords o β.buyPrices) ∧
        ∀ d, 0 ≤ m.afterOrders token β d)
      (Halted token b (∃ d, m.afterOrders token β d < 0) m) := by
  have hheld := h.held_of_get? hb hβ
  simp only [performOrders, Action.sat_bind, Action.sat_get, Action.sat_lift_of_ok (batch_eq_ok hβ)]
  apply (performBuys_sat hsep h hb hβ hc).imp
  intro buys m₂ hbought
  obtain ⟨hexec, hbuys, hgained, hafford⟩ := hbought
  apply (performSells_sat hsep h hb hβ hc hexec).imp
  intro sells m₃ hsold
  obtain ⟨hexec, hsells, hgained'⟩ := hsold
  have hcovered (d : Denom) : 0 ≤ m.afterOrders token β d := by
    cases hhatch : b.inHatch with
    | true =>
        exact add_nonneg (h.solvent _ d)
          (hheld.outlook_nonneg h.solvent hc (hheld.hatch hhatch).2 d)
    | false =>
        -- The buys and the sells are through, so that the reserve is what the prices say.
        have hleft := hexec.outlook hhatch d
        rw [show ((β.withBuys []).withSells []).outlook _ d = 0 from rfl, add_zero] at hleft
        rw [← hleft]
        exact hexec.solvent _ d
  apply (performSwaps_sat (β := (β.withBuys []).withSells []) hsep (fun _ => rfl) hexec).of_total
  intro swaps m₄ hswapped
  obtain ⟨hexec, hswaps, hgained''⟩ := hswapped
  exact ⟨hexec, ⟨buys, sells, swaps, rfl, hbuys, hsells, hswaps⟩,
    (hgained.append hgained').append hgained'', hafford, hcovered⟩

/-! ### Settling -/

/-- After the pass over the buys of a batch, its prices promise more than the reserve has. -/
def Overdrawn (cfg : Config) (token : Denom) (m : Market) : Prop :=
  ∃ os m' β', cancelUnfulfillable cfg token m = .ok os m' ∧
    Table.get? m'.store.batches token = some β' ∧ ∃ d, m'.afterOrders token β' d < 0

theorem overdrawn_iff {os : List Outcome} {m' : Market} {β' : Batch}
    (hrun : cancelUnfulfillable cfg token m = .ok os m')
    (hβ' : Table.get? m'.store.batches token = some β') :
    Overdrawn cfg token m ↔ ∃ d, m'.afterOrders token β' d < 0 := by
  refine ⟨?_, fun hshort => ⟨os, m', β', hrun, hβ', hshort⟩⟩
  rintro ⟨os₁, m₁, β₁, hrun₁, hβ₁, hshort⟩
  cases hrun.symm.trans hrun₁
  cases hβ'.symm.trans hβ₁
  exact hshort

/-- A settlement of the batch of a bond is through: the books are in order with an empty batch, the
bond is backed, counting the orders that were filled, in a hatch what is due has been raised, every
order of the batch is reported and the reserve has gained what is reported, in reserve tokens and
nothing else, and a pool is undiluted. The settlement is that of the batch which the pass has
left. -/
structure Drained (cfg : Config) (bonded : Denom → Prop) (token : Denom) (fills : Nat) (b : Bond)
    (β : Batch) (m : Market) (s : Settlement) (m' : Market) : Prop where
  kept : ∀ blocks, Kept cfg bonded (m'.withBatch token (Batch.blank token blocks))
  apart : Apart token m m'
  bond : ∃ supply r, Table.get? m'.store.bonds token = some (b.marked supply r) ∧
    m'.Backed (b.marked supply r) (fills + s.fills.length) ∧
    (b.inHatch = true → m.Raised b → m'.Raised (b.marked supply r))
  batch : ∃ γ, Table.get? m'.store.batches token = some γ ∧ γ.sells = β.sells
  reported : β.Reported s.outcomes
  gained : Gained token s.outcomes m m'
  foreign : ∀ d ∉ b.reserveTokens,
    m'.balance (reserveAccountFor token) d = m.balance (reserveAccountFor token) d
  pool : b.isSwapper = true → b.maxSupply ≤ 1000000000 →
    ∀ b', Table.get? m'.store.bonds token = some b' → Undiluted token b b'.supply m m'
  covered : ¬ Overdrawn cfg token m
  executed : ∃ os m₁ β' outs, cancelUnfulfillable cfg token m = .ok os m₁ ∧
    Swept cfg bonded token b β β' m m₁ ∧ β'.Performed outs ∧ s = β'.settlement token outs

theorem Drained.token_eq {fills : Nat} {s : Settlement} {m' : Market}
    (h : Drained cfg bonded token fills b β m s m') : s.token = token := by
  obtain ⟨_, _, _, _, -, -, -, rfl⟩ := h.executed
  rfl

theorem Swept.reported {β' : Batch} {os : List Outcome} {m' : Market}
    (h : Swept cfg bonded token b β β' m m') (hos : β'.Reported os) : β.Reported os := by
  obtain ⟨buys, sells, swaps, hperm, hbuys, hsells, hswaps⟩ := hos
  have hsame : β'.sells = β.sells ∧ β'.swaps = β.swaps := by
    rw [h.same]
    exact ⟨rfl, rfl⟩
  refine ⟨buys, sells, swaps, hperm, ?_, hsame.1 ▸ hsells, hsame.2 ▸ hswaps⟩
  have hpassed := h.passed
  clear hperm
  generalize β.buys = orders, β'.buys = orders' at hpassed hbuys
  induction hpassed generalizing buys with
  | nil =>
      cases hbuys
      exact .nil
  | cons ho _ ih =>
      obtain ⟨out, outs, hout, houts, rfl⟩ := List.forall₂_cons_left_iff.1 hbuys
      exact .cons (hout.of_passed ho) (ih outs houts)

theorem Held.blank (h : Held cfg m token b β) (hβ : β.totalBuy = 0 ∧ β.totalSell = 0)
    (blocks : Nat) : Held cfg m token b (Batch.blank token blocks) := by
  have hbuys := h.buys_le
  have hroom := h.room
  have hminted := h.minted
  rw [hβ.1] at hbuys hroom
  rw [hβ.2] at hminted
  exact { h with
    orders := .blank blocks, sells_le := h.supply_nonneg, buys_le := hbuys
    hatch := fun hh => ⟨(h.hatch hh).1, rfl⟩, room := hroom, settled := fun _ => ⟨rfl, rfl⟩
    minted := hminted }

theorem Backed.mono {n n' : Nat} (h : m.Backed b n) (hn : n ≤ n') : m.Backed b n' := by
  intro htype hmax hphase
  obtain ⟨r, hr, hbal⟩ := h htype hmax hphase
  refine ⟨r, hr, fun d hd => ⟨(hbal d hd).1, (hbal d hd).2.trans ?_⟩⟩
  have hle : (n : Int) * Dec.scale ≤ n' * Dec.scale :=
    mul_le_mul_of_nonneg_right (by exact_mod_cast hn) Dec.scale_pos.le
  linarith

theorem Held.violations_eq_nil (h : Held cfg m token b β) (hs : m.ledger.Solvent) :
    b.violations = .ok [] := by
  have hnonneg := h.supply_nonneg
  have hbuy := h.orders.totalBuy_nonneg
  have hmax := h.buys_le
  have hreserve : (b.reserve.any fun p => p.2 < 0) = false := by
    refine List.any_eq_false.2 fun p hp => ?_
    rw [h.synced] at hp
    have hamount := (proper_reserveOf hs b).nonneg p.1 p.2
      (List.mem_filter.1 hp).1
    simpa using hamount
  have hgeneral : ¬ b.supply < 0 ∧ ¬ b.maxSupply < b.supply := by omega
  cases hhatch : b.inHatch with
  | false => simp [Bond.violations, hgeneral, hreserve, hhatch]
  | true =>
      obtain ⟨limit, hlimit, hroom⟩ := h.room hhatch
      have hle : ¬ limit < b.supply := by omega
      simp [Bond.violations, hgeneral, hreserve, hhatch, hlimit, (h.hatch hhatch).1, hle]

theorem violations_eq_nil (h : Held cfg m token b β) (hs : m.ledger.Solvent)
    (hb : Table.get? m.store.bonds token = some b)
    (hγ : Table.get? m.store.batches token = some γ) (horders : γ.violations = []) :
    m.violations token = .ok [] := by
  simp only [violations, bond_eq_ok hb, batch_eq_ok hγ, h.violations_eq_nil hs, horders,
    Result.ok_bind, Result.pure_eq_ok, List.append_nil]

/-- After the pass, a settlement does what executing the orders does, if that leaves the books in
order. -/
theorem settle_sat_of_pass {os : List Outcome} {β' : Batch}
    (hrun : cancelUnfulfillable cfg token m = .ok os m₁)
    (hβ' : Table.get? m₁.store.batches token = some β') {Q : List Outcome → Market → Prop}
    {E : Error → Market → Prop}
    (h : (performOrders cfg token).Sat m₁
      (fun outs m' => m'.violations token = .ok [] ∧ Q outs m') E) :
    (settle cfg token).Sat m (fun s m' => ∃ outs, s = β'.settlement token outs ∧ Q outs m') E := by
  rw [settle, Action.sat_bind, Action.sat_of_eq_ok hrun]
  simp only [Action.sat_bind, Action.sat_get, Action.sat_lift_of_ok (batch_eq_ok hβ')]
  apply h.imp
  intro outs m' hdone
  rw [Action.sat_lift_of_ok hdone.1, Action.sat_pure]
  exact ⟨outs, rfl, hdone.2⟩

theorem Executing.violations_eq_nil (h : Executing cfg bonded token b p m₁ total reserve γ β m)
    (hγ : γ.violations = []) : m.violations token = .ok [] := by
  obtain ⟨supply, r, hb, -, hheld⟩ := h.held
  exact Market.violations_eq_nil hheld h.solvent hb h.batch hγ

theorem settle_sat (hsep : cfg.Separate) (h : Kept cfg bonded m)
    (hb : Table.get? m.store.bonds token = some b)
    (hβ : Table.get? m.store.batches token = some β) (hc : m.Current b β) {n : Nat}
    (hbacked : m.Backed b n) :
    (settle cfg token).Sat m (Drained cfg bonded token n b β m)
      (Halted token b (Overdrawn cfg token m) m) := by
  obtain ⟨_, m₁, hrun, β', hswept⟩ := (cancelUnfulfillable_sat hsep h hb hβ hc).exists_ok
  have hoverdrawn := overdrawn_iff hrun hswept.batch
  have hheld := hswept.kept.held_of_get? hswept.bond hswept.batch
  have haddress := hheld.formed.address
  have hperformed := performOrders_sat hsep hswept.kept hswept.bond hswept.batch hswept.current
  refine (settle_sat_of_pass hrun hswept.batch (hperformed.imp fun os m₂ hdone =>
    ⟨?_, hdone⟩)).mono ?_ fun e m' he => ?_
  · obtain ⟨⟨swaps, reserve, -, -, hexec⟩, -⟩ := hdone
    exact hexec.violations_eq_nil hheld.orders.violations_eq_nil
  · rintro _ m₂ ⟨os, rfl, ⟨swaps, reserve, hsame, hgrown, hexec⟩, hperformed, hgained, -,
      hcovered⟩
    obtain ⟨supply, r, hb₂, htotal, hheld₂⟩ := hexec.held
    -- No order is left, so that the supply has become what the totals had said.
    obtain rfl : supply = b.supply + β'.totalBuy - β'.totalSell := by
      have hnone : supply + 0 - 0 = b.supply + β'.totalBuy - β'.totalSell := htotal
      omega
    have hclosed : ∀ out ∈ (β'.buys.filter fun o => !o.isOpen).map Outcome.ofCancelledBuy,
        out.isFill = false := by
      intro out hout
      obtain ⟨o, -, rfl⟩ := List.mem_map.1 hout
      rfl
    refine {
      kept := fun blocks => ?_, apart := hswept.apart.trans hexec.apart
      bond := ⟨_, r, hb₂, ?_, fun hhatch hraised => ?_⟩, batch := ⟨_, hexec.batch, ?_⟩
      reported := hswept.reported (hperformed.reported hheld.orders.openSells_eq)
      gained := ?_, foreign := fun d hd => ?_, pool := fun hswap hmax b' hb' => ?_
      covered := ?_
      executed := ⟨_, m₁, β', os, hrun, hswept, hperformed, rfl⟩ }
    · exact hexec.kept.exchange (.refl token m₂) hb₂ (hheld₂.blank ⟨rfl, rfl⟩ blocks)
        hexec.solvent fun _ => rfl
    · have hfills : openCount (fun o => o.isOpen) β'.buys +
          openCount (fun o => o.isOpen) β'.sells ≤
          (((β'.buys.filter fun o => !o.isOpen).map Outcome.ofCancelledBuy ++ os).filter
            fun o => o.isFill).length := by
        rw [List.filter_append, List.length_append]
        exact hperformed.length_le.trans (Nat.le_add_left _ _)
      have hbacked₁ : m₁.Backed b n := hbacked.congr (haddress ▸ hswept.reserve)
      refine (hbacked₁.settled hheld hswept.current
        (fun hhatch hswap d => ?_) r).mono (Nat.add_le_add_left hfills n)
      have houtlook := hexec.outlook hhatch d
      rwa [hsame hswap, Batch.outlook_drained, add_zero] at houtlook
    · exact hexec.raised hhatch (hraised.congr (haddress ▸ hswept.reserve)) _ hb₂
    · rw [hswept.same]
      rfl
    · exact ((Gained.nil hswept.reserve).append hgained).cancelled hclosed
    · exact (hexec.foreign d hd).trans (hswept.reserve d)
    · obtain rfl := Option.some.inj (hb₂.symm.trans hb')
      have hafter (d : Denom) : m₂.balance (reserveAccountFor token) d = reserve d := by
        have houtlook := hexec.outlook (Bond.inHatch_eq_false hswap) d
        rwa [Batch.outlook_drained, add_zero] at houtlook
      exact (hheld.undiluted hswept.kept.solvent hswept.current hcovered hgrown hafter hswap
        hmax).congr hswept.reserve
    · rw [hoverdrawn]
      rintro ⟨d, hshort⟩
      exact absurd (hcovered d) (not_le.2 hshort)
  · refine ⟨he.1.mono hoverdrawn.2, fun d hd => ?_⟩
    exact (he.2 d hd).trans (hswept.apart.total d hd)

/-- What a bond may become when its batch has been settled, and the phase that is reported: a bond
in its hatch is opened if its supply is the one at which the hatch ends. -/
inductive Matured (b : Bond) : Option Phase → Bond → Prop
  | same : Matured b none b
  | opened (h : b.inHatch = true) (hlimit : b.hatchLimit = .ok b.supply) :
      Matured b (some .opened) { b with phase := .opened, allowSells := true }

theorem Matured.supply_eq {phase : Option Phase} {b' : Bond} (h : Matured b phase b') :
    b'.supply = b.supply := by
  cases h <;> rfl

theorem Matured.terms_eq {phase : Option Phase} {b' : Bond} (h : Matured b phase b') :
    b'.terms = b.terms := by
  cases h <;> rfl

theorem Held.matured {phase : Option Phase} {b' : Bond} {blocks : Nat}
    (h : Held cfg m token b (Batch.blank token blocks)) (hb' : Matured b phase b') :
    Held cfg m token b' (Batch.blank token blocks) := by
  cases hb' with
  | same => exact h
  | opened hhatch =>
      exact { h with
        formed := h.formed.update ..
        family := fun hh => by cases hh
        hatch := fun hh => by simp [Bond.inHatch] at hh
        room := fun hh => by simp [Bond.inHatch] at hh
        settled := fun hs => by cases hs }

theorem Backed.matured {phase : Option Phase} {b' : Bond} {n : Nat} (h : m.Backed b n)
    (hb' : Matured b phase b') : m.Backed b' n := by
  cases hb' with
  | same => exact h
  | opened hhatch =>
      intro htype
      cases hhatch.symm.trans (Bond.not_swapper_hatch (b := b) htype).2

theorem Stocked.settled {fills : Nat} {s : Settlement} {m' : Market} {supply : Int} {r : Coins}
    {phase : Option Phase} {b' : Bond} (h : m.Stocked b)
    (hdrained : Drained cfg bonded token fills b β m s m')
    (hb : Table.get? m'.store.bonds token = some (b.marked supply r)) (hf : b.Formed token)
    (hb' : Matured (b.marked supply r) phase b') : m'.Stocked b' := by
  have hstocked : m'.Stocked (b.marked supply r) := {
    confined := fun hphase d hd => by
      have hnone := h.confined hphase d hd
      rw [hf.address] at hnone
      rw [show (b.marked supply r).reserveAddress = _ from hf.address]
      exact (hdrained.foreign d hd).trans hnone
    positive := fun hswap hmax hpos =>
      (hdrained.pool hswap hmax _ hb).positive (hdrained.kept 0).solvent hf hswap
        (h.positive hswap hmax) hpos }
  cases hb' with
  | same => exact hstocked
  | opened hhatch => exact {
      confined := fun _ => hstocked.confined (by simp [Bond.inHatch_phase hhatch])
      positive := hstocked.positive }

theorem Hatching.matured {phase : Option Phase} {b' : Bond} (h : b.inHatch = true → m.Raised b)
    (hγ : b.inHatch = true → Table.get? m.store.lastBatches b.token = some γ ∧ γ.sells = [])
    (hb' : Matured b phase b') (hhatch : b'.inHatch = true) (blocks : Nat) :
    m.Hatching b' (Batch.blank token blocks) := by
  cases hb' with
  | same =>
      obtain ⟨hlast, hsells⟩ := hγ hhatch
      refine ⟨h hhatch, fun γ' hγ' => ?_, fun _ ho => (List.not_mem_nil ho).elim,
        fun _ ho => (List.not_mem_nil ho).elim⟩
      cases hlast.symm.trans hγ'
      exact hsells
  | opened => simp [Bond.inHatch] at hhatch

/-- Where a bond leaves its hatch, its phase changes and sells are let in. The supply has reached
the end of the hatch and, as there was room for every buy, not passed it. -/
theorem openIfHatched_sat {blocks : Nat} (h : Held cfg m token b (Batch.blank token blocks))
    (hb : Table.get? m.store.bonds token = some b) :
    (openIfHatched token).Sat m
      (fun phase m' => ∃ b', Matured b phase b' ∧ m' = m.withBond token b')
      (fun _ _ => False) := by
  have hsame : m = m.withBond token b := (withBond_self hb).symm
  simp only [openIfHatched, Action.sat_bind, Action.sat_get, Action.sat_lift_of_ok (bond_eq_ok hb)]
  cases hhatch : b.inHatch with
  | false => exact ⟨b, .same, hsame⟩
  | true =>
      obtain ⟨limit, hlimit, hroom⟩ := h.room hhatch
      simp only [Bool.not_true, Bool.false_eq_true, if_false, Action.sat_bind,
        Action.sat_lift_of_ok hlimit, Action.sat_ite, setBond, Action.sat_modify, Action.sat_pure]
      refine ⟨fun _ => ⟨b, .same, hsame⟩, fun hreached => ⟨_, .opened hhatch ?_, rfl⟩⟩
      have hle : b.supply + 0 ≤ limit := hroom
      rw [hlimit, show limit = b.supply by omega]

theorem Halted.spared {short : Prop} {e : Error} {m' : Market}
    (h : Halted token b short m e m') (hb : Table.get? m.store.bonds token = some b) :
    Spared m m' := by
  intro d hd
  refine h.2 d ?_
  rintro rfl
  cases hb.symm.trans hd

/-! ### Cycles -/

variable {fills : Denom → Nat}

/-- A settlement reconciles with the ledger: every order of the batch is reported, the reserve has
gained what is reported, and the escrow account has given up what the open orders had there. -/
structure Reconciled (cfg : Config) (token : Denom) (β : Batch) (s : Settlement) (m m' : Market) :
    Prop where
  reported : β.Reported s.outcomes
  reserve : Gained token s.outcomes m m'
  escrow : ∀ d, m'.balance cfg.escrowAccount d = m.balance cfg.escrowAccount d - β.pledged d

/-- The market with another last batch on record, which is of no account. -/
def withLastBatch (m : Market) (token : Denom) (γ : Batch) : Market :=
  { m with store := m.store.setLastBatch token γ }

theorem apart_withLastBatch (m : Market) (token : Denom) (γ : Batch) :
    Apart token m (m.withLastBatch token γ) :=
  { Apart.refl token m with last := fun _ hu => Table.get?_set_of_ne _ (Ne.symm hu) _ }

/-- A batch that was closed: the market is sound with more fills for the bond, the settlement
reconciles with the ledger and is the one that settling the batch gave, the bond has a new supply
and may have left its hatch, a pool is undiluted, and an empty batch has begun. -/
structure Closed (cfg : Config) (bonded : Denom → Prop) (fills : Denom → Nat) (token : Denom)
    (b : Bond) (β : Batch) (m : Market) (s : Settlement) (m' : Market) : Prop where
  apart : Apart token m m'
  sound : Sound cfg bonded (fun t => fills t + s.fillsOf t) m'
  reconciled : Reconciled cfg token β s m m'
  covered : ¬ Overdrawn cfg token m
  settled : ∃ s₀ m₁, settle cfg token m = .ok s₀ m₁ ∧ s = { s₀ with newPhase := s.newPhase } ∧
    Drained cfg bonded token (fills token) b β m s₀ m₁ ∧ m'.ledger = m₁.ledger
  bond : ∃ supply r b', Matured (b.marked supply r) s.newPhase b' ∧
    Table.get? m'.store.bonds token = some b' ∧
    (b.inHatch = true → m'.Raised (b.marked supply r))
  pool : b.isSwapper = true → b.maxSupply ≤ 1000000000 →
    ∀ b', Table.get? m'.store.bonds token = some b' → Undiluted token b b'.supply m m'
  batch : ∃ blocks, Table.get? m'.store.batches token = some (Batch.blank token blocks)

theorem closeBatch_closed (h : Sound cfg bonded fills m)
    (hb : Table.get? m.store.bonds token = some b)
    (hβ : Table.get? m.store.batches token = some β) {E : Error → Market → Prop}
    (hsettle : (settle cfg token).Sat m (Drained cfg bonded token (fills token) b β m) E) :
    (closeBatch cfg token).Sat m (Closed cfg bonded fills token b β m) E := by
  rw [closeBatch, Action.sat_bind]
  apply hsettle.recall.imp
  intro s m₁ hrecalled
  obtain ⟨hrun, hdrained⟩ := hrecalled
  obtain ⟨supply, r, hb₁, hbacked, hraised⟩ := hdrained.bond
  obtain ⟨γ, hγ, hsells⟩ := hdrained.batch
  -- The settled batch stays in the store until the next one is put in its place, so the bond is
  -- looked at with an empty batch from here on.
  have hheld (blocks : Nat) : Held cfg m₁ token (b.marked supply r) (Batch.blank token blocks) :=
    ((hdrained.kept blocks).held_of_get? hb₁ (get?_withBatch ..)).congr (fun _ => rfl) rfl
  have hraised : b.inHatch = true → m₁.Raised (b.marked supply r) := fun hhatch =>
    hraised hhatch (h.hatching token b β hb hβ hhatch).raised
  rw [Action.sat_bind]
  apply (openIfHatched_sat (hheld 0) hb₁).of_total
  intro phase m₂ hopen
  obtain ⟨b₂, hb₂, rfl⟩ := hopen
  have hheld₂ := (hheld b₂.batchBlocks.toNat).matured hb₂
  have hblocks : Batch.new token b₂.batchBlocks =
      .ok (Batch.blank token b₂.batchBlocks.toNat) := Batch.new_eq_ok hheld₂.formed.blocks
  simp only [Action.sat_bind, Action.sat_get, Action.sat_set, setBatch, Action.sat_modify,
    Action.sat_pure, Action.sat_lift_of_ok hblocks,
    Action.sat_lift_of_ok (batch_eq_ok (m := m₁.withBond token b₂) hγ),
    Action.sat_lift_of_ok (bond_eq_ok (get?_withBond m₁ token b₂))]
  set m' : Market := ((m₁.withBond token b₂).withLastBatch token γ).withBatch token
    (Batch.blank token b₂.batchBlocks.toNat)
  have hnext : Apart token m₁ ((m₁.withBond token b₂).withLastBatch token γ) :=
    (apart_withBond hb₁ hb₂.terms_eq).trans (apart_withLastBatch ..)
  have hapart : Apart token m m' := hdrained.apart.trans (hnext.trans (apart_withBatch ..))
  have hkept : Kept cfg bonded m' := (hdrained.kept _).exchange hnext (get?_withBond ..)
    (hheld₂.congr (fun _ => rfl) rfl) (hdrained.kept 0).solvent fun _ => rfl
  have hlast : b.inHatch = true →
      Table.get? m'.store.lastBatches b.token = some γ ∧ γ.sells = [] := by
    intro hhatch
    have hbefore := h.kept.held_of_get? hb hβ
    refine ⟨?_, hsells.trans (hbefore.sells_eq_nil hhatch)⟩
    rw [hbefore.formed.token_eq]
    exact Table.get?_set_self _ _ _
  have hsound : Sound cfg bonded
      (fun t => fills t + ({ s with newPhase := phase } : Settlement).fillsOf t) m' := by
    refine h.replace hapart hkept (fun u hu => ?_) (get?_withBond ..) (get?_withBatch ..)
      (fun hpos => absurd hpos (lt_irrefl 0)) (fun hne => absurd rfl hne)
      (fun hhatch => Hatching.matured (m := m') (b := b.marked supply r) hraised hlast hb₂
        hhatch _) ?_ ?_
    · simp [Settlement.fillsOf, hdrained.token_eq, hu.symm]
    · have hcount : ({ s with newPhase := phase } : Settlement).fillsOf token = s.fills.length :=
        if_pos hdrained.token_eq
      rw [hcount]
      exact (hbacked.matured hb₂).congr fun _ => rfl
    · exact ((h.stocked token b hb).settled hdrained hb₁
        (h.kept.held_of_get? hb hβ).formed hb₂).congr fun _ => rfl
  have hescrow (d : Denom) : m'.balance cfg.escrowAccount d + β.pledged d =
      m.balance cfg.escrowAccount d := by
    rw [hapart.escrow_add h.kept hkept hb hβ (get?_withBatch ..), Batch.pledged_blank, add_zero]
  exact {
    apart := hapart, sound := hsound, covered := hdrained.covered
    reconciled := ⟨hdrained.reported, hdrained.gained, fun d => eq_sub_of_add_eq (hescrow d)⟩
    settled := ⟨s, m₁, hrun, rfl, hdrained, rfl⟩
    bond := ⟨supply, r, b₂, hb₂, get?_withBond .., hraised⟩
    batch := ⟨_, get?_withBatch ..⟩
    pool := fun hswap hmax b' hb' => by
      obtain rfl := Option.some.inj ((get?_withBond m₁ token b₂).symm.trans hb')
      rw [hb₂.supply_eq]
      exact { hdrained.pool hswap hmax _ hb₁ with } }

theorem closeBatch_sat (hsep : cfg.Separate) (h : Sound cfg bonded fills m)
    (hb : Table.get? m.store.bonds token = some b)
    (hβ : Table.get? m.store.batches token = some β) :
    (closeBatch cfg token).Sat m
      (fun s m' => Apart token m m' ∧ Sound cfg bonded (fun t => fills t + s.fillsOf t) m' ∧
        Reconciled cfg token β s m m' ∧ ¬ Overdrawn cfg token m)
      (Halted token b (Overdrawn cfg token m) m) :=
  (closeBatch_closed h hb hβ
    (settle_sat hsep h.kept hb hβ (h.current token b β hb hβ) (h.backed token b hb))).imp
    fun _ _ hclosed => ⟨hclosed.apart, hclosed.sound, hclosed.reconciled, hclosed.covered⟩

theorem Sound.countDown (h : Sound cfg bonded fills m)
    (hb : Table.get? m.store.bonds token = some b)
    (hβ : Table.get? m.store.batches token = some β) (blocksRemaining : Nat) :
    Sound cfg bonded fills (m.withBatch token { β with blocksRemaining }) := by
  have hheld := h.kept.held_of_get? hb hβ
  refine h.replace (apart_withBatch ..) ?_ (fun _ _ => rfl) hb (get?_withBatch ..)
    (h.current token b β hb hβ) (h.trades token b β hb hβ) (fun hhatch =>
      { h.hatching token b β hb hβ hhatch with }) (h.backed token b hb)
    { h.stocked token b hb with }
  refine h.kept.replace (apart_withBatch ..) hβ hb (get?_withBatch ..) ?_ h.kept.solvent
    fun _ => rfl
  exact Held.congr (m := m) { hheld with orders := { hheld.orders with } } (fun _ => rfl) rfl

/-- A cycle of a bond only counts down its batch, or it is the last one and closes the batch. -/
theorem elapseCycle_sat_of_close (hb : Table.get? m.store.bonds token = some b)
    (hβ : Table.get? m.store.batches token = some β) {Q : Settlement → Market → Prop}
    {E : Error → Market → Prop}
    (hclose : β.blocksRemaining ≤ 1 → (closeBatch cfg token).Sat
      (m.withBatch token { β with blocksRemaining := β.blocksRemaining - 1 }) Q E) :
    (elapseCycle cfg token).Sat m
      (fun s m' => (1 < β.blocksRemaining ∧ s = none ∧
          m' = m.withBatch token { β with blocksRemaining := β.blocksRemaining - 1 }) ∨
        (β.blocksRemaining ≤ 1 ∧ ∃ s', s = some s' ∧ Q s' m')) E := by
  simp only [elapseCycle, Action.sat_bind, Action.sat_get, Action.sat_lift_of_ok (bond_eq_ok hb),
    Action.sat_lift_of_ok (batch_eq_ok hβ), setBatch, Action.sat_modify, Action.sat_ite]
  refine ⟨fun hleft => .inl ⟨by omega, rfl, rfl⟩, fun hlast => ?_⟩
  have hle : β.blocksRemaining ≤ 1 := by omega
  exact (hclose hle).imp fun s m' hs => .inr ⟨hle, s, rfl, hs⟩

/-- A cycle of a bond leaves a sound market, and the settlement that it may give reconciles with the
ledger. What stops it is a buy or a sell. -/
theorem elapseCycle_sat_of_bond (hsep : cfg.Separate) (h : Sound cfg bonded fills m)
    (hb : Table.get? m.store.bonds token = some b)
    (hβ : Table.get? m.store.batches token = some β) :
    (elapseCycle cfg token).Sat m
      (fun s m' => Sound cfg bonded (fun t => fills t + Settlement.fillsIn s.toList t) m' ∧
        Apart token m m' ∧ ∀ s' ∈ s, Reconciled cfg token β s' m m' ∧ ¬ Overdrawn cfg token
          (m.withBatch token { β with blocksRemaining := β.blocksRemaining - 1 }))
      (Halted token b (Overdrawn cfg token
        (m.withBatch token { β with blocksRemaining := β.blocksRemaining - 1 })) m) := by
  have hsound := h.countDown hb hβ (β.blocksRemaining - 1)
  have hapart : Apart token m (m.withBatch token { β with
      blocksRemaining := β.blocksRemaining - 1 }) := apart_withBatch ..
  apply (elapseCycle_sat_of_close hb hβ fun _ =>
    closeBatch_sat hsep hsound hb (get?_withBatch ..)).imp
  rintro s m' (⟨-, rfl, rfl⟩ | ⟨-, s, rfl, hclosed, hsound', hreconciled, hcovered⟩)
  · exact ⟨hsound, hapart, fun _ hs => by cases hs⟩
  · refine ⟨by simpa [Settlement.fillsIn] using hsound', hapart.trans hclosed, fun s' hs' => ?_⟩
    cases hs'
    exact ⟨⟨hreconciled.reported, hreconciled.reserve, hreconciled.escrow⟩, hcovered⟩

theorem elapseCycle_closed (hsep : cfg.Separate) (h : Sound cfg bonded fills m)
    (hb : Table.get? m.store.bonds token = some b)
    (hβ : Table.get? m.store.batches token = some β) {s : Settlement} {m' : Market}
    (hs : elapseCycle cfg token m = .ok (some s) m') :
    β.blocksRemaining ≤ 1 ∧
      Closed cfg bonded fills token b { β with blocksRemaining := β.blocksRemaining - 1 }
        (m.withBatch token { β with blocksRemaining := β.blocksRemaining - 1 }) s m' := by
  have hcounted := h.countDown hb hβ (β.blocksRemaining - 1)
  have hbatch := get?_withBatch m token { β with blocksRemaining := β.blocksRemaining - 1 }
  have hclose := closeBatch_closed hcounted hb hbatch (settle_sat hsep hcounted.kept hb hbatch
    (hcounted.current token b _ hb hbatch) (hcounted.backed token b hb))
  rcases (elapseCycle_sat_of_close hb hβ fun _ => hclose).of_ok hs with
    ⟨-, hnone, -⟩ | ⟨hlast, s', hs', hclosed⟩
  · cases hnone
  · cases hs'
    exact ⟨hlast, hclosed⟩

theorem elapseCycle_stopped (hb : Table.get? m.store.bonds token = some b)
    (hβ : Table.get? m.store.batches token = some β) (hlast : β.blocksRemaining ≤ 1)
    (h : (closeBatch cfg token).Sat
      (m.withBatch token { β with blocksRemaining := β.blocksRemaining - 1 })
      (fun _ _ => False) (fun e _ => e.isFatal = true)) :
    (elapseCycle cfg token).Sat m (fun _ _ => False) (fun e _ => e.isFatal = true) := by
  apply (elapseCycle_sat_of_close hb hβ fun _ => h).imp
  rintro s m' (⟨hleft, -⟩ | ⟨-, s, -, hfalse⟩)
  · omega
  · exact hfalse

theorem elapseCycle_sat_of_none (hb : Table.get? m.store.bonds token = none) :
    (elapseCycle cfg token).Sat m (fun _ _ => False)
      (fun e m' => e = .missingRecord "bond" token ∧ m' = m) := by
  have herror : m.store.bond token = .error (.missingRecord "bond" token) := by
    simp [Store.bond, Store.require, hb]
  rw [elapseCycle, Action.sat_bind, Action.sat_get, Action.sat_bind,
    Action.sat_lift_of_error herror]
  exact ⟨rfl, rfl⟩

theorem exists_bond_of_elapseCycle {s : Option Settlement} {m' : Market}
    (hs : elapseCycle cfg token m = .ok s m') : ∃ b, Table.get? m.store.bonds token = some b := by
  cases hb : Table.get? m.store.bonds token with
  | none => exact ((elapseCycle_sat_of_none hb).of_ok hs).elim
  | some b => exact ⟨b, rfl⟩

theorem elapseCycle_sat (hsep : cfg.Separate) (h : Sound cfg bonded fills m) (token : Denom) :
    (elapseCycle cfg token).Sat m
      (fun s m' => Sound cfg bonded (fun t => fills t + Settlement.fillsIn s.toList t) m' ∧
        Spared m m' ∧ Lasting m m' ∧ Table.keys m'.store.bonds = Table.keys m.store.bonds)
      (fun e m' => e.isFatal = true ∧ Spared m m') := by
  cases hb : Table.get? m.store.bonds token with
  | none =>
      refine (elapseCycle_sat_of_none hb).mono (fun _ _ hfalse => hfalse.elim) ?_
      rintro _ _ ⟨rfl, rfl⟩
      exact ⟨rfl, fun _ _ => rfl⟩
  | some b =>
      obtain ⟨-, β, hβ, -⟩ := h.kept.held token b hb
      refine (elapseCycle_sat_of_bond hsep h hb hβ).mono (fun s m' hs => ?_)
        fun e m' he => ⟨he.1.isFatal, he.spared hb⟩
      obtain ⟨hsound, hapart, -⟩ := hs
      exact ⟨hsound, hapart.spared hb, hapart.lasting, hapart.keys⟩

theorem endCycle_sat (hsep : cfg.Separate) (h : Sound cfg bonded fills m) :
    (endCycle cfg).Sat m
      (fun ss m' => Sound cfg bonded (fun t => fills t + Settlement.fillsIn ss t) m' ∧
        Spared m m' ∧ Lasting m m' ∧ Table.keys m'.store.bonds = Table.keys m.store.bonds)
      (fun e m' => e.isFatal = true ∧ Spared m m') := by
  rw [endCycle, Action.sat_bind, Action.sat_get]
  refine Action.sat_gather
    (I := fun _ ss m' => Sound cfg bonded (fun t => fills t + Settlement.fillsIn ss t) m' ∧
      Spared m m' ∧ Lasting m m' ∧ Table.keys m'.store.bonds = Table.keys m.store.bonds)
    ?_ _ ⟨h, fun _ _ => rfl, .refl m, rfl⟩
  rintro token _ ss m' ⟨hsound, hspared, hlasting, hkeys⟩
  refine (elapseCycle_sat hsep hsound token).mono (fun s m'' hs => ?_)
    fun e m'' he => ⟨he.1, hspared.trans hkeys he.2⟩
  obtain ⟨hsound', hspared', hlasting', hkeys'⟩ := hs
  refine ⟨?_, hspared.trans hkeys hspared', hlasting.trans hlasting', hkeys'.trans hkeys⟩
  simpa [Settlement.fillsIn, add_assoc] using hsound'

end Market
end BondMarket
